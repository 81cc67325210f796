import NineWire.Udt.RendezvousPipes

/-! Two ends that keep asking find each other, whatever they have seen so far. -/
namespace NineWire.Udt.Rendezvous
open NineWire.Refinement
variable {setup : Setup} {s s' t : Pair} {p : Peer → List (List UInt8)} {x : Peer} {n m : Nat}

def Pair.Trying (s : Pair) (x : Peer) : Prop := (s.ends x).connecting = true ∨ s.Connected x

/-- At most `n` times a request is sent, or a packet comes in that was not sent before. -/
def Exchanged (s t : Pair) (n : Nat) : Prop :=
  ∃ acts : List Action, acts.length ≤ n ∧
    (∀ a ∈ acts, (∃ x, a = .request x) ∨ ∃ i, s.net.length ≤ i ∧ a = .deliver i false 0) ∧
    Permitted Pair.react Pair.Fresh s acts ∧ (reactions Pair.react s acts).2 = t ∧
    s.net.length ≤ t.net.length

theorem Exchanged.refl (s : Pair) (n : Nat) : Exchanged s s n :=
  ⟨[], Nat.zero_le n, by simp, trivial, rfl, le_refl _⟩

theorem Exchanged.trans (h : Exchanged s s' n) (h' : Exchanged s' t m) :
    Exchanged s t (n + m) := by
  obtain ⟨as, hlength, has, hok, rfl, hle⟩ := h
  obtain ⟨bs, hlength', hbs, hok', rfl, hle'⟩ := h'
  refine ⟨as ++ bs, ?_, ?_, permitted_append hok hok', reactions_append as bs, le_trans hle hle'⟩
  · rw [List.length_append]
    omega
  · intro a ha
    rcases List.mem_append.mp ha with ha | ha
    · exact has a ha
    · rcases hbs a ha with hrequest | ⟨i, hi, rfl⟩
      · exact .inl hrequest
      · exact .inr ⟨i, le_trans hle hi, rfl⟩

theorem Exchanged.holds (h : Exchanged s t n) (hs : Holds setup s p) : ∃ p', Holds setup t p' := by
  obtain ⟨as, -, -, hok, rfl, -⟩ := h
  obtain ⟨p', -, hholds⟩ := (runs_of_reactions as hok rfl).simulates (Holds setup) hs
    fun hholds hfresh => hholds.react _ hfresh
  exact ⟨p', hholds⟩

theorem deliver_post {id : Int} {hs : HandShake} :
    (s.post x id (.handShake hs)).Fresh (.deliver s.net.length false 0) ∧
      (s.post x id (.handShake hs)).react (.deliver s.net.length false 0) =
        (s.post x id (.handShake hs)).arrive ⟨x.other, id, .handShake hs⟩ false 0 := by
  have hlast : (s.post x id (.handShake hs)).net[s.net.length]? =
      some (s.sent, ⟨x.other, id, .handShake hs⟩) := by
    simp [Pair.post]
  refine ⟨?_, ?_⟩
  · simp only [Pair.Fresh, hlast]
    exact trivial
  · simp only [Pair.react, hlast]

theorem arrive_connecting {id : Int} {body : Body} (hnone : (s.ends x).halves = none)
    (hconn : (s.ends x).connecting = true) (hid : id = 0 ∨ id = (s.ends x).socketID) :
    (s.arrive ⟨x, id, body⟩ false 0).2 = s.setEnd x ((s.ends x).connectResponse body).2 := by
  simp [Pair.arrive, hnone, hconn, hid, Pair.meet]

theorem arrive_connected {id : Int} {hs res : HandShake} (hconn : s.Connected x)
    (hid : id = (s.ends x).socketID) (hres : (s.ends x).processHandShake hs = some res) :
    (s.arrive ⟨x, id, .handShake hs⟩ false 0).2 = s.post x (s.ends x).peerID (.handShake res) := by
  obtain ⟨halves, hhalves⟩ := Option.isSome_iff_exists.mp hconn
  simp [Pair.arrive, hhalves, hid, hres]

theorem connectResponse_request {e : End} {hs : HandShake} (hconn : e.connecting = true)
    (hreq : e.connReq.reqType = 0 ∨ e.Asked) (hhs : hs.reqType = 0 ∨ hs.reqType = -1) :
    (e.connectResponse (.handShake hs)).2.Asked ∧
      ((e.connectResponse (.handShake hs)).2.connecting = true ∨
        (e.connectResponse (.handShake hs)).2.Connected) ∧
      (e.Asked → hs.reqType = -1 → (e.connectResponse (.handShake hs)).2.Connected) := by
  have hone : hs.reqType ≠ 1 := by omega
  by_cases hagain : (e.take hs).connReq.reqType = 0 ∨ hs.reqType = 0
  · have hres : (e.connectResponse (.handShake hs)).2 = (e.take hs).ask := by
      simp [End.connectResponse, hconn, hone, hagain]
    rw [hres]
    refine ⟨rfl, .inl hconn, ?_⟩
    intro hasked htype
    have hagain' : e.connReq.reqType = 0 ∨ hs.reqType = 0 := hagain
    have hasked' : e.connReq.reqType = -1 := hasked
    omega
  · have hres : (e.connectResponse (.handShake hs)).2 = (e.take hs).postConnect := by
      simp [End.connectResponse, hconn, hone, hagain]
    rw [hres]
    exact ⟨hreq.resolve_left fun hzero => hagain (.inl hzero), .inr rfl, fun _ _ => rfl⟩

theorem Holds.meets (h : Holds setup s p) (hx : (s.ends x).connecting = true)
    (hnot : ¬ s.Connected x.other) (hother : (s.ends x.other).connecting = true) :
    ∃ t, Exchanged s t 2 ∧ t.ends x = s.ends x ∧ t.Asked x.other ∧ t.Trying x.other ∧
      (s.Asked x → s.Asked x.other → t.Connected x.other) := by
  have hknows := h.ends x
  have hpeer := h.ends x.other
  have hhalves : (s.ends x.other).halves = none := by
    simpa [Pair.Connected, End.Connected] using hnot
  have hid : (s.ends x).connRes.id = 0 ∨ (s.ends x).connRes.id = (s.ends x.other).socketID := by
    rw [hpeer.socketID]
    exact hknows.id
  have hreq : (s.ends x).connReq.reqType = 0 ∨ (s.ends x).connReq.reqType = -1 := hknows.reqType
  obtain ⟨hasked, htrying, hconn⟩ := connectResponse_request hother hpeer.reqType hreq
  let s' := s.post x (s.ends x).connRes.id (.handShake (s.ends x).connReq)
  have hrequest : (s.react (.request x)).2 = s' := by simp [Pair.react, hx, s']
  have hmeet : (s'.react (.deliver s.net.length false 0)).2 = s'.setEnd x.other
      ((s.ends x.other).connectResponse (.handShake (s.ends x).connReq)).2 := by
    rw [deliver_post.2]
    exact arrive_connecting hhalves hother hid
  generalize ((s.ends x.other).connectResponse (.handShake (s.ends x).connReq)).2 = e at *
  refine ⟨s'.setEnd x.other e, ⟨[.request x, .deliver s.net.length false 0], le_refl 2, ?_, ?_, ?_,
    ?_⟩, ?_, ?_, ?_, ?_⟩
  · simp
  · refine ⟨trivial, ?_, trivial⟩
    rw [hrequest]
    exact deliver_post.1
  · simp only [reactions, hrequest, hmeet]
  · simp [Pair.setEnd, Pair.post, s']
  · rw [setEnd_ne x.ne_other]
    rfl
  · rw [Pair.Asked, setEnd_self]
    exact hasked
  · rw [Pair.Trying, Pair.Connected, setEnd_self]
    exact htrying
  · intro hx' hother'
    rw [Pair.Connected, setEnd_self]
    exact hconn hother' hx'

theorem Holds.answered (h : Holds setup s p) (hx : (s.ends x).connecting = true)
    (hnot : ¬ s.Connected x) (hother : s.Connected x.other) :
    ∃ t, Exchanged s t 3 ∧ t.Connected x ∧ t.Connected x.other := by
  have hknows := h.ends x
  have hpeer := h.ends x.other
  obtain ⟨-, hasked⟩ := hpeer.asked hother
  rw [Peer.other_other] at hasked
  have hreq : (s.ends x).connReq.reqType = -1 := hasked
  have hhalves : (s.ends x).halves = none := by
    simpa [Pair.Connected, End.Connected] using hnot
  have hid : (s.ends x).connRes.id = (s.ends x.other).socketID := by
    rw [hpeer.socketID]
    exact (hknows.told hasked).id
  have hpeerID : (s.ends x.other).peerID = (s.ends x).socketID := by
    rw [hpeer.peerID hother, Peer.other_other, hknows.socketID]
  obtain ⟨res, hres, htype⟩ : ∃ res, (s.ends x.other).processHandShake (s.ends x).connReq =
      some res ∧ res.reqType = -2 := by
    refine ⟨_, if_pos (.inr ?_), rfl⟩
    omega
  let s' := s.post x (s.ends x).connRes.id (.handShake (s.ends x).connReq)
  let s'' := s'.post x.other (s.ends x.other).peerID (.handShake res)
  have hrequest : (s.react (.request x)).2 = s' := by simp [Pair.react, hx, s']
  have hanswer : (s'.react (.deliver s.net.length false 0)).2 = s'' := by
    rw [deliver_post.2]
    exact arrive_connected hother hid hres
  have hmeet : (s''.react (.deliver s'.net.length false 0)).2 =
      s''.setEnd x ((s.ends x).connectResponse (.handShake res)).2 := by
    rw [deliver_post.2, Peer.other_other]
    exact arrive_connecting hhalves hx (.inr hpeerID)
  have hconn : ((s.ends x).connectResponse (.handShake res)).2.Connected := by
    have hlast : ((s.ends x).take res).connReq.reqType ≠ 0 := by
      have hsame : ((s.ends x).take res).connReq.reqType = -1 := hreq
      omega
    have hresponse : ((s.ends x).connectResponse (.handShake res)).2 =
        ((s.ends x).take res).postConnect := by
      simp [End.connectResponse, hx, htype, hlast]
    rw [hresponse]
    rfl
  generalize ((s.ends x).connectResponse (.handShake res)).2 = e at *
  refine ⟨s''.setEnd x e, ⟨[.request x, .deliver s.net.length false 0,
    .deliver s'.net.length false 0], le_refl 3, ?_, ?_, ?_, ?_⟩, ?_, ?_⟩
  · simp [s', Pair.post]
  · refine ⟨trivial, ?_, ?_, trivial⟩
    · rw [hrequest]
      exact deliver_post.1
    · rw [hrequest, hanswer]
      exact deliver_post.1
  · simp only [reactions, hrequest, hanswer, hmeet]
  · simp [Pair.setEnd, Pair.post, s', s'']
  · rw [Pair.Connected, setEnd_self]
    exact hconn
  · rw [Pair.Connected, setEnd_ne x.other_ne]
    exact hother

theorem Exchanged.mono (h : Exchanged s t n) (hn : n ≤ m) : Exchanged s t m := by
  obtain ⟨as, hlength, hrest⟩ := h
  exact ⟨as, le_trans hlength hn, hrest⟩

theorem Pair.forall_connected (hx : s.Connected x) (hother : s.Connected x.other) (y : Peer) :
    s.Connected y := by
  rcases x.eq_or y with rfl | rfl
  · exact hx
  · exact hother

/-- Where one end is connected, the other one needs a request and its answer. -/
theorem Holds.completes (h : Holds setup s p) (hother : s.Connected x.other) (hx : s.Trying x) :
    ∃ t, Exchanged s t 3 ∧ ∀ y, t.Connected y := by
  by_cases hconn : s.Connected x
  · exact ⟨s, .refl s 3, Pair.forall_connected hconn hother⟩
  · obtain ⟨t, ht, hx', hother'⟩ := h.answered (hx.resolve_right hconn) hconn hother
    exact ⟨t, ht, Pair.forall_connected hx' hother'⟩

/-- Where both still connect, three requests are enough for one of them. -/
theorem Holds.completes_both (h : Holds setup s p) (hx : (s.ends x).connecting = true)
    (hother : (s.ends x.other).connecting = true) (hnot : ¬ s.Connected x)
    (hnot' : ¬ s.Connected x.other) : ∃ t, Exchanged s t 9 ∧ ∀ y, t.Connected y := by
  obtain ⟨t₁, hex₁, hsame₁, hasked₁, htrying₁, -⟩ := h.meets hx hnot' hother
  obtain ⟨p₁, hholds₁⟩ := hex₁.holds h
  have hx₁ : (t₁.ends x).connecting = true := by rwa [hsame₁]
  have hnot₁ : ¬ t₁.Connected x := by rwa [Pair.Connected, hsame₁]
  by_cases hconn₁ : t₁.Connected x.other
  · obtain ⟨t, hex, ht⟩ := hholds₁.completes hconn₁ (.inl hx₁)
    exact ⟨t, (hex₁.trans hex).mono (by decide), ht⟩
  · have hother₁ := htrying₁.resolve_right hconn₁
    obtain ⟨t₂, hex₂, hsame₂, hasked₂, htrying₂, -⟩ :=
      hholds₁.meets hother₁ (by rwa [Peer.other_other]) (by rwa [Peer.other_other])
    rw [Peer.other_other] at hasked₂ htrying₂
    obtain ⟨p₂, hholds₂⟩ := hex₂.holds hholds₁
    have hasked₂' : t₂.Asked x.other := by rwa [Pair.Asked, hsame₂]
    have hother₂ : (t₂.ends x.other).connecting = true := by rwa [hsame₂]
    have hnot₂ : ¬ t₂.Connected x.other := by rwa [Pair.Connected, hsame₂]
    by_cases hconn₂ : t₂.Connected x
    · obtain ⟨t, hex, ht⟩ :=
        hholds₂.completes (by rwa [Peer.other_other]) (.inl hother₂)
      exact ⟨t, ((hex₁.trans hex₂).trans hex).mono (by decide), ht⟩
    · -- both have asked by now
      have hx₂ := htrying₂.resolve_right hconn₂
      obtain ⟨t₃, hex₃, hsame₃, -, -, hconn₃⟩ := hholds₂.meets hx₂ hnot₂ hother₂
      obtain ⟨p₃, hholds₃⟩ := hex₃.holds hholds₂
      have hx₃ : (t₃.ends x).connecting = true := by rwa [hsame₃]
      obtain ⟨t, hex, ht⟩ := hholds₃.completes (hconn₃ hasked₂ hasked₂') (.inl hx₃)
      exact ⟨t, ((hex₁.trans hex₂).trans hex₃).trans hex, ht⟩

/-- From wherever two ends have come to, a few requests and their answers are enough to
connect both, as long as neither has given up. -/
theorem rendezvous_can_complete {events : List Event}
    (h : Runs Pair.react Pair.Fresh (.new setup) events s) (htrying : ∀ x, s.Trying x) :
    ∃ t, Exchanged s t 9 ∧ ∀ x, t.Connected x := by
  obtain ⟨p, -, hholds⟩ := Holds.run h
  by_cases hleft : s.Connected .left
  · obtain ⟨t, hex, ht⟩ := hholds.completes (x := .right) hleft (htrying .right)
    exact ⟨t, hex.mono (by decide), ht⟩
  · by_cases hright : s.Connected .right
    · obtain ⟨t, hex, ht⟩ := hholds.completes (x := .left) hright (htrying .left)
      exact ⟨t, hex.mono (by decide), ht⟩
    · have hx := (htrying .left).resolve_right hleft
      have hother := (htrying .right).resolve_right hright
      exact hholds.completes_both hx hother hleft hright

def halfway : List Action :=
  [.request .left, .request .left, .deliver 1 false 0, .request .right]

theorem rendezvous_can_complete_halfway :
    ∃ t, Exchanged (reactions Pair.react (.new smallSetup) halfway).2 t 9 ∧
      ∀ x, t.Connected x :=
  rendezvous_can_complete (runs_of_reactions halfway (by decide +kernel) rfl)
    (by intro x; cases x <;> exact .inl (by decide +kernel))

end NineWire.Udt.Rendezvous
