import NineWire.Udt.LinkPipe
import NineWire.Udt.Rendezvous

/-! What the two ends of a connection know of each other while they connect, and
the two links that they run after it. -/
namespace NineWire.Udt.Rendezvous
open NineWire.Refinement

@[simp] theorem Peer.other_other (x : Peer) : x.other.other = x := by cases x <;> rfl

@[simp] theorem Peer.other_ne (x : Peer) : x.other ≠ x := by cases x <;> decide

@[simp] theorem Peer.ne_other (x : Peer) : x ≠ x.other := by cases x <;> decide

theorem Peer.eq_or (x z : Peer) : z = x ∨ z = x.other := by
  cases x <;> cases z <;> simp [Peer.other]

/-- For the messages of `x`. The other end tells the size of its buffer, or its flight
flag size where it answers late. -/
def Setup.terms (setup : Setup) (x : Peer) (late : Bool) : Terms where
  isn := setup.isn x
  payloadSize := setup.mss - 48 - 16
  sndBufSize := (setup.options x).sndBufSize
  window :=
    if late then (setup.options x.other).flightFlagSize else (setup.options x.other).rcvBufSize
  rcvBufSize := (setup.options x.other).rcvBufSize
  flightFlagSize := (setup.options x.other).flightFlagSize
  isn_nonneg := setup.isn_nonneg x
  isn_le := setup.isn_le x
  payload_pos := by
    have hmss := setup.mss_min
    omega
  rcv_min := (setup.options x.other).rcv_min
  rcv_le := by
    have hle := (setup.options x.other).rcv_le
    split <;> omega
  window_le := by
    have hle := (setup.options x.other).rcv_le
    split <;> omega
  flight_lt := (setup.options x.other).flight_lt

structure Tells (setup : Setup) (y : Peer) (hs : HandShake) : Prop where
  isn : hs.isn = setup.isn y
  mss : hs.mss = setup.mss
  window : ∃ late, hs.flightFlagSize = (setup.terms y.other late).window
  id : hs.id = setup.socketID y

def End.Asked (e : End) : Prop := e.connReq.reqType = -1

def End.Connected (e : End) : Prop := e.halves.isSome = true

structure Knows (setup : Setup) (x : Peer) (e : End) (peerAsked : Prop) : Prop where
  options : e.options = setup.options x
  mss : e.mss = setup.mss
  isn : e.isn = setup.isn x
  socketID : e.socketID = setup.socketID x
  request : Tells setup x e.connReq
  type : e.connReq.type = dgram
  reqType : e.connReq.reqType = 0 ∨ e.Asked
  id : e.connRes.id = 0 ∨ e.connRes.id = setup.socketID x.other
  told : e.Asked → Tells setup x.other e.connRes
  live : e.Asked → e.connecting = true → e.connRes.type ≠ 0
  asked : e.Connected → e.Asked ∧ peerAsked
  peerID : e.Connected → e.peerID = setup.socketID x.other

def Pair.Asked (s : Pair) (x : Peer) : Prop := (s.ends x).Asked

def Pair.Connected (s : Pair) (x : Peer) : Prop := (s.ends x).Connected

/-- What a packet that is not of the transfers says of the end it comes from. -/
def Says (setup : Setup) (s : Pair) (d : Datagram) : Prop :=
  match d.body with
  | .handShake hs => Tells setup d.dest.other hs ∧
      (hs.type = dgram ∧ (hs.reqType = 0 ∨ hs.reqType = -1 ∧ s.Asked d.dest.other) ∨
        hs.reqType = -2 ∧ s.Connected d.dest.other)
  | .keepAlive => s.Connected d.dest.other
  | .transfer _ => True

def Pair.wires (s : Pair) (x : Peer) : List (Nat × Wire) :=
  s.net.filterMap fun e =>
    match e.2.flow with
    | some (y, w) => if y = x then some (e.1 x, w) else none
    | none => none

/-- The link for the messages of `x`, with ends that are new as long as they are not
there. -/
def Pair.link (s : Pair) (c : Terms) (x : Peer) : Link where
  snd := ((s.ends x).halves.map Prod.fst).getD (Link.new c).snd
  rcv := ((s.ends x.other).halves.map Prod.snd).getD (Link.new c).rcv
  net := s.wires x
  sent := s.sent x

/-- An end that is not connected has sent nothing, and only data packets may be on
their way to it. -/
structure Unheard (setup : Setup) (s : Pair) (x : Peer) : Prop where
  link : ∀ late, s.link (setup.terms x late) x = .new (setup.terms x late)
  data : ∀ e ∈ s.wires x.other, ∃ seqNo packet, e.2 = .data seqNo packet

def Carried (setup : Setup) (s : Pair) (x : Peer) (ms : List (List UInt8)) : Prop :=
  (s.Connected x → ∃ late, Link.Holds (setup.terms x late) (s.link (setup.terms x late) x) ms) ∧
    (¬ s.Connected x → ms = [] ∧ Unheard setup s x)

structure Holds (setup : Setup) (s : Pair) (p : Peer → List (List UInt8)) : Prop where
  ends : ∀ x, Knows setup x (s.ends x) (s.Asked x.other)
  net : ∀ e ∈ s.net, Says setup s e.2
  flows : ∀ x, Carried setup s x (p x)

variable {setup : Setup} {s s' : Pair} {p : Peer → List (List UInt8)} {x z : Peer} {c : Terms}
  {snd : Sender} {rcv : Receiver}

theorem holds_new (setup : Setup) : Holds setup (.new setup) fun _ => [] where
  ends x :=
    { options := rfl
      mss := rfl
      isn := rfl
      socketID := rfl
      request :=
        { isn := rfl
          mss := rfl
          window := ⟨false, by
            have hle := (setup.options x).rcv_le
            simp only [Pair.new, End.connect, Setup.terms, Peer.other_other, Bool.false_eq_true,
              if_false]
            split <;> omega⟩
          id := rfl }
      type := rfl
      reqType := .inl rfl
      id := .inl rfl
      told := fun h => absurd h (by simp [End.Asked, Pair.new, End.connect])
      live := fun h => absurd h (by simp [End.Asked, Pair.new, End.connect])
      asked := fun h => absurd h (by simp [End.Connected, Pair.new, End.connect])
      peerID := fun h => absurd h (by simp [End.Connected, Pair.new, End.connect]) }
  net := by simp [Pair.new]
  flows _ := ⟨fun h => absurd h (by simp [Pair.Connected, End.Connected, Pair.new, End.connect]),
    fun _ => ⟨rfl, fun _ => rfl, by simp [Pair.new, Pair.wires]⟩⟩

structure Later (s s' : Pair) : Prop where
  asked : ∀ x, s.Asked x → s'.Asked x
  connected : ∀ x, s.Connected x → s'.Connected x

theorem Says.mono {d : Datagram} (h : Says setup s d) (hs : Later s s') : Says setup s' d := by
  unfold Says at *
  cases hd : d.body with
  | handShake hs' =>
    rw [hd] at h
    obtain ⟨htells, ⟨htype, hreq | ⟨hreq, hasked⟩⟩ | ⟨hreq, hconn⟩⟩ := h
    · exact ⟨htells, .inl ⟨htype, .inl hreq⟩⟩
    · exact ⟨htells, .inl ⟨htype, .inr ⟨hreq, hs.asked _ hasked⟩⟩⟩
    · exact ⟨htells, .inr ⟨hreq, hs.connected _ hconn⟩⟩
  | keepAlive =>
    rw [hd] at h
    exact hs.connected _ h
  | transfer w => trivial

theorem Knows.mono {e : End} {peerAsked peerAsked' : Prop} (h : Knows setup x e peerAsked)
    (hpeer : peerAsked → peerAsked') : Knows setup x e peerAsked' :=
  { h with asked := fun hconn => ⟨(h.asked hconn).1, hpeer (h.asked hconn).2⟩ }

structure Alike (s s' : Pair) : Prop where
  ends : ∀ x, ∃ halves, s'.ends x = { s.ends x with halves } ∧
    halves.isSome = (s.ends x).halves.isSome
  net : ∀ e ∈ s'.net, e ∈ s.net ∨ ∃ w, e.2.body = .transfer w

theorem Alike.connected (h : Alike s s') (x : Peer) : s'.Connected x ↔ s.Connected x := by
  obtain ⟨halves, hends, hsome⟩ := h.ends x
  rw [Pair.Connected, hends, End.Connected, hsome]
  exact Iff.rfl

theorem Alike.asked (h : Alike s s') (x : Peer) : s'.Asked x ↔ s.Asked x := by
  obtain ⟨halves, hends, -⟩ := h.ends x
  rw [Pair.Asked, hends]
  exact Iff.rfl

theorem Alike.later (h : Alike s s') : Later s s' :=
  ⟨fun x => (h.asked x).mpr, fun x => (h.connected x).mpr⟩

theorem Alike.knows (h : Alike s s') (hx : Knows setup x (s.ends x) (s.Asked x.other)) :
    Knows setup x (s'.ends x) (s'.Asked x.other) := by
  rw [h.asked]
  obtain ⟨halves, hends, hsome⟩ := h.ends x
  rw [hends]
  exact { hx with
    asked := fun hconn => hx.asked (hsome.symm.trans hconn)
    peerID := fun hconn => hx.peerID (hsome.symm.trans hconn) }

theorem Alike.setHalves (hx : s.Connected x) : Alike s (s.setHalves x snd rcv) where
  ends y := by
    by_cases hy : y = x
    · subst hy
      exact ⟨some (snd, rcv), by simp [Pair.setHalves, Pair.setEnd], hx.symm⟩
    · exact ⟨_, by simp [Pair.setHalves, Pair.setEnd, Function.update_of_ne hy], rfl⟩
  net _ := .inl

theorem Alike.transmit (h : Alike s s') (w : Option Wire) : Alike s (s'.transmit x w) := by
  cases w with
  | none => exact h
  | some w =>
    refine ⟨h.ends, ?_⟩
    intro e he
    rcases List.mem_append.mp he with he | he
    · exact h.net e he
    · obtain rfl := List.mem_singleton.mp he
      exact .inr ⟨w, rfl⟩

theorem link_setHalves_self :
    (s.setHalves x snd rcv).link c x = { s.link c x with snd } := by
  simp [Pair.link, Pair.setHalves, Pair.setEnd, Pair.wires]

theorem link_setHalves_other :
    (s.setHalves x snd rcv).link c x.other = { s.link c x.other with rcv } := by
  simp [Pair.link, Pair.setHalves, Pair.setEnd, Pair.wires]

theorem link_snd (hx : (s.ends x).halves = some (snd, rcv)) : (s.link c x).snd = snd := by
  simp [Pair.link, hx]

theorem link_rcv (hx : (s.ends x).halves = some (snd, rcv)) : (s.link c x.other).rcv = rcv := by
  simp [Pair.link, hx]

theorem link_setHalves_snd (hx : (s.ends x).halves = some (snd, rcv)) (snd' : Sender) :
    (s.setHalves x snd' rcv).link c x.other = s.link c x.other := by
  rw [link_setHalves_other, ← link_rcv hx]

theorem link_setHalves_rcv (hx : (s.ends x).halves = some (snd, rcv)) (rcv' : Receiver) :
    (s.setHalves x snd rcv').link c x = s.link c x := by
  rw [link_setHalves_self, ← link_snd hx]

def about (x : Peer) : Wire → Peer
  | .data .. | .ack2 .. | .drop .. => x
  | .ack .. | .lightAck .. | .nak .. => x.other

theorem flow_transfer {id : Int} {w : Wire} :
    Datagram.flow ⟨x.other, id, .transfer w⟩ = some (about x w, w) := by
  cases w <;> simp [Datagram.flow, about]

theorem wires_transmit (w : Wire) :
    (s.transmit x (some w)).wires z =
      s.wires z ++ if about x w = z then [(s.sent z, w)] else [] := by
  simp only [Pair.wires, Pair.transmit, Pair.post, List.filterMap_append]
  congr 1
  simp only [List.filterMap_cons, flow_transfer, List.filterMap_nil]
  split <;> simp_all

theorem link_transmit {w : Option Wire} (hw : ∀ w', w = some w' → about x w' = z) :
    (s.transmit x w).link c z = (s.link c z).post w ∧
      (s.transmit x w).link c z.other = s.link c z.other := by
  cases w with
  | none => exact ⟨rfl, rfl⟩
  | some w =>
    have hflow := hw w rfl
    refine ⟨?_, ?_⟩
    · simp only [Pair.link, wires_transmit, hflow, if_true]
      rfl
    · simp only [Pair.link, wires_transmit, hflow, Peer.ne_other, if_false, List.append_nil]
      rfl

theorem Alike.count {new : Bool} (h : Alike s s') : Alike s (s'.count x new) := ⟨h.ends, h.net⟩

theorem link_count_self {new : Bool} : (s.count x new).link c x =
    { s.link c x with sent := if new = true then s.sent x + 1 else s.sent x } := by
  cases new <;> simp [Pair.link, Pair.count, Pair.wires]

theorem link_count_other {new : Bool} :
    (s.count x new).link c x.other = s.link c x.other := by
  cases new <;> simp [Pair.link, Pair.count, Pair.wires]

theorem setHalves_same (hx : (s.ends x).halves = some (snd, rcv)) : s.setHalves x snd rcv = s := by
  simp [Pair.setHalves, Pair.setEnd, ← hx]

theorem Later.of_ends (h : s'.ends = s.ends) : Later s s' := by
  constructor
  · intro x
    simp [Pair.Asked, h]
  · intro x
    simp [Pair.Connected, h]

theorem flow_post {id : Int} {body : Body} (hbody : ∀ w, body ≠ .transfer w) :
    Datagram.flow ⟨x.other, id, body⟩ = none := by
  cases body with
  | transfer w => exact absurd rfl (hbody w)
  | handShake _ => rfl
  | keepAlive => rfl

theorem wires_post {id : Int} {body : Body} (hbody : ∀ w, body ≠ .transfer w) :
    (s.post x id body).wires z = s.wires z := by
  simp [Pair.wires, Pair.post, flow_post hbody]

theorem Carried.congr {ms : List (List UInt8)} (h : Carried setup s z ms)
    (hhalves : ∀ y, (s'.ends y).halves = (s.ends y).halves)
    (hwires : ∀ y, s'.wires y = s.wires y) (hsent : s'.sent = s.sent) :
    Carried setup s' z ms := by
  have hlink (c : Terms) (y : Peer) : s'.link c y = s.link c y := by
    simp only [Pair.link, hhalves, hwires, hsent]
  rw [Carried, Pair.Connected, End.Connected, hhalves]
  refine ⟨?_, ?_⟩
  · intro hconn
    obtain ⟨late, hholds⟩ := h.1 hconn
    refine ⟨late, ?_⟩
    rwa [hlink]
  · intro hnot
    obtain ⟨hnil, hunheard⟩ := h.2 hnot
    refine ⟨hnil, ?_, ?_⟩
    · intro late
      rw [hlink]
      exact hunheard.link late
    · rw [hwires]
      exact hunheard.data

theorem setEnd_self {e : End} : (s.setEnd x e).ends x = e := by simp [Pair.setEnd]

theorem setEnd_ne {e : End} (hz : z ≠ x) : (s.setEnd x e).ends z = s.ends z := by
  simp [Pair.setEnd, hz]

theorem Later.setEnd {e : End} (hasked : s.Asked x → e.Asked)
    (hconn : s.Connected x → e.Connected) : Later s (s.setEnd x e) := by
  constructor
  · intro y hy
    by_cases hyx : y = x
    · rw [hyx, Pair.Asked, setEnd_self]
      exact hasked (hyx ▸ hy)
    · rwa [Pair.Asked, setEnd_ne hyx]
  · intro y hy
    by_cases hyx : y = x
    · rw [hyx, Pair.Connected, setEnd_self]
      exact hconn (hyx ▸ hy)
    · rwa [Pair.Connected, setEnd_ne hyx]

theorem mem_wires {m : Peer → Nat} {d : Datagram} {w : Wire} (h : (m, d) ∈ s.net)
    (hflow : d.flow = some (z, w)) : (m z, w) ∈ s.wires z := by
  rw [Pair.wires, List.mem_filterMap]
  exact ⟨(m, d), h, by simp [hflow]⟩

end NineWire.Udt.Rendezvous
