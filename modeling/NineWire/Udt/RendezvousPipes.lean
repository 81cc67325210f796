import NineWire.Udt.RendezvousSteps

/-! What comes in, and that two ends which find each other are a pipe each way. -/
namespace NineWire.Udt.Rendezvous
open NineWire.Refinement
variable {setup : Setup} {s : Pair} {p : Peer → List (List UInt8)} {x : Peer}
  {snd : Sender} {rcv : Receiver} {ms : List (List UInt8)}

theorem not_undefined {ms' : List (List UInt8)} : ¬ Pipe ms .undefined ms' := by
  intro h
  cases h

theorem no_drop {l : Link} {m msgno : Nat} {first last : Int} (h : Link.Holds c l ms) :
    (m, .drop msgno first last) ∉ l.net := by
  obtain ⟨done, todo, f, da, la, a, rc, got, h, -⟩ := h
  intro hmem
  exact (h.net _ hmem).2

theorem processData_wire {seqNo : Int} {packet : Packet} {w : Wire}
    (h : (rcv.processData seqNo packet).1 = some w) : ∃ losslist, w = .nak losslist := by
  unfold Receiver.processData at h
  dsimp only at h
  split at h
  · cases h
  · split at h
    · cases h
    · unfold Receiver.detectLoss at h
      split at h
      · cases h
        exact ⟨_, rfl⟩
      · cases h

theorem Holds.learn {ev : Link.Event} (h : Holds setup s p)
    (hx : (s.ends x).halves = some (snd, rcv)) (hother : s.Connected x.other)
    (wire : Option Wire) (snd' : Sender) (habout : ∀ w, wire = some w → about x w = x)
    (hlink : ∀ c ms, Link.Holds c (s.link c x) ms → ∃ ms', Pipe ms ev ms' ∧
      Link.Holds c ({ s.link c x with snd := snd' }.post wire) ms') :
    ∃ p', Pipes p (.flow x ev) p' ∧ Holds setup ((s.setHalves x snd' rcv).transmit x wire) p' := by
  have hconn : s.Connected x := by simp [Pair.Connected, End.Connected, hx]
  have htransmit (c : Terms) := link_transmit (s := s.setHalves x snd' rcv) (c := c) habout
  apply h.step ((Alike.setHalves hconn).transmit wire) hconn
  · intro c
    rw [(htransmit c).2]
    exact link_setHalves_snd hx snd'
  · intro c ms hholds
    rw [(htransmit c).1, link_setHalves_self]
    exact hlink c ms hholds
  · exact fun hnot => absurd hother hnot

theorem Holds.process {m : Peer → Nat} {id : Int} {w : Wire} (h : Holds setup s p)
    (hx : (s.ends x).halves = some (snd, rcv)) (hd : (m, ⟨x, id, .transfer w⟩) ∈ s.net)
    (hother : s.Connected x.other)
    (hage : ∀ z, Datagram.flow ⟨x, id, .transfer w⟩ = some (z, w) →
      s.sent z ≤ m z + Link.lifetime) (reply : Bool) (now : Nat) :
    ∃ p', Pipes p (s.process x snd rcv w reply now).1 p' ∧
      Holds setup (s.process x snd rcv w reply now).2 p' := by
  have hdeliver {z : Peer} (hflow : Datagram.flow ⟨x, id, .transfer w⟩ = some (z, w)) {c : Terms}
      {ms : List (List UInt8)} (hholds : Link.Holds c (s.link c z) ms) :=
    hholds.deliver (mem_wires hd hflow) (hage z hflow) reply now
  cases w with
  | data seqNo packet =>
    apply h.answer hx hother (rcv.processData seqNo packet).1 (rcv.processData seqNo packet).2
    · intro w hw
      obtain ⟨losslist, rfl⟩ := processData_wire hw
      rfl
    · intro c ms hholds
      simpa only [Link.deliver, Link.deliverRcv, link_rcv hx] using hdeliver rfl hholds
  | ack2 ackSeqNo =>
    apply h.answer hx hother none (rcv.processAck2 ackSeqNo now) (by simp)
    intro c ms hholds
    simpa only [Link.deliver, Link.deliverRcv, Link.post, link_rcv hx] using hdeliver rfl hholds
  | drop msgno first last =>
    obtain ⟨late, hholds⟩ := (h.flows x.other).1 hother
    exact absurd (mem_wires hd rfl) (no_drop hholds)
  | ack ackSeqNo ack avail =>
    apply h.learn hx hother (if reply then some (.ack2 ackSeqNo) else none) (snd.processAck ack avail)
    · intro w hw
      cases reply with
      | false => cases hw
      | true =>
        cases hw
        rfl
    · intro c ms hholds
      simpa only [Link.deliver, Link.deliverSnd, link_snd hx] using hdeliver rfl hholds
  | lightAck ack =>
    apply h.learn hx hother none (snd.processLightAck ack) (by simp)
    intro c ms hholds
    simpa only [Link.deliver, Link.deliverSnd, Link.post, link_snd hx] using hdeliver rfl hholds
  | nak losslist =>
    obtain ⟨late, hflow⟩ := (h.flows x).1 (by simp [Pair.Connected, End.Connected, hx])
    simp only [Pair.process]
    cases hnak : snd.processNak losslist with
    | none =>
      have hpipe := hdeliver rfl hflow
      simp only [Link.deliver, Link.deliverSnd, link_snd hx, hnak] at hpipe
      obtain ⟨ms', hpipe, -⟩ := hpipe
      exact absurd hpipe not_undefined
    | some snd' =>
      apply h.learn hx hother none snd' (by simp)
      intro c ms hholds
      have hpipe := hdeliver rfl hholds
      simpa only [Link.deliver, Link.deliverSnd, Link.post, link_snd hx, hnak] using hpipe

/-- Packets of the transfers are about messages of ends that are connected, and reach
one that is not only as data of the other. -/
theorem Holds.transfer {m : Peer → Nat} {id : Int} {w : Wire} (h : Holds setup s p)
    (hd : (m, ⟨x, id, .transfer w⟩) ∈ s.net) :
    s.Connected x.other ∧ (¬ s.Connected x → ∃ seqNo packet, w = .data seqNo packet) := by
  have hsilent {y : Peer} (hnot : ¬ s.Connected y) : s.wires y = [] :=
    congrArg Link.net (((h.flows y).2 hnot).2.link false)
  have hmem {y : Peer} (hflow : Datagram.flow ⟨x, id, .transfer w⟩ = some (y, w)) :
      s.wires y ≠ [] := List.ne_nil_of_mem (mem_wires hd hflow)
  have habout : Datagram.flow ⟨x, id, .transfer w⟩ = some (about x.other w, w) := by
    have hflow : Datagram.flow ⟨x.other.other, id, .transfer w⟩ = some (about x.other w, w) :=
      flow_transfer
    rwa [Peer.other_other] at hflow
  rcases x.eq_or (about x.other w) with hself | hself
  · -- what `x` is told of its own messages
    rw [hself] at habout
    have hconn : s.Connected x := by
      by_contra hnot
      exact hmem habout (hsilent hnot)
    refine ⟨?_, fun hnot => absurd hconn hnot⟩
    by_contra hnot
    have hdata := ((h.flows x.other).2 hnot).2.data
    rw [Peer.other_other] at hdata
    obtain ⟨seqNo, packet, hw⟩ := hdata _ (mem_wires hd habout)
    dsimp only at hw
    subst hw
    exact absurd hself x.other_ne
  · rw [hself] at habout
    have hother : s.Connected x.other := by
      by_contra hnot
      exact hmem habout (hsilent hnot)
    exact ⟨hother, fun hnot => ((h.flows x).2 hnot).2.data _ (mem_wires hd habout)⟩

/-- Whatever comes to an end, when it has connected and before. -/
theorem Holds.arrive {m : Peer → Nat} {d : Datagram} (h : Holds setup s p) (hd : (m, d) ∈ s.net)
    (hage : ∀ z w, d.flow = some (z, w) → s.sent z ≤ m z + Link.lifetime)
    (reply : Bool) (now : Nat) :
    ∃ p', Pipes p (s.arrive d reply now).1 p' ∧ Holds setup (s.arrive d reply now).2 p' := by
  obtain ⟨x, id, body⟩ := d
  have hsaid := h.net _ hd
  simp only [Pair.arrive]
  cases hhalves : (s.ends x).halves with
  | some halves =>
    obtain ⟨snd, rcv⟩ := halves
    have hconn : s.Connected x := by simp [Pair.Connected, End.Connected, hhalves]
    dsimp only
    split
    · exact h.quiet x
    · cases body with
      | keepAlive => exact h.quiet x
      | handShake hs =>
        dsimp only
        cases hres : (s.ends x).processHandShake hs with
        | none => exact h.quiet x
        | some res => exact (h.post (by simp) (h.processHandShake hconn hres _)).quiet x
      | transfer w =>
        exact h.process hhalves hd (h.transfer hd).1 (fun z hz => hage z w hz) reply now
  | none =>
    have hnot : ¬ s.Connected x := by simp [Pair.Connected, End.Connected, hhalves]
    dsimp only
    split
    · rename_i hconn
      have hdata : ∀ w, body = .transfer w →
          s.Connected x.other ∧ ∃ seqNo packet, w = .data seqNo packet := by
        rintro w rfl
        exact ⟨(h.transfer hd).1, (h.transfer hd).2 hnot⟩
      obtain ⟨code, e, hres, hcode, hholds⟩ := h.connectResponse hnot hconn.1 hsaid hdata
      simp only [Pair.meet, hres, if_neg (not_lt.mpr hcode)]
      exact hholds.quiet x
    · exact h.quiet x

theorem Holds.react (h : Holds setup s p) (act : Action) (hfresh : s.Fresh act) :
    ∃ p', Pipes p (s.react act).1 p' ∧ Holds setup (s.react act).2 p' := by
  have hidle (x : Peer) (call : Sender → Receiver → Event × Pair)
      (hhalves : (s.ends x).halves = none) : s.onHalves x call = (.flow x .quiet, s) := by
    simp [Pair.onHalves, hhalves]
  cases act with
  | request x => exact (h.request x).quiet x
  | giveUp x => exact (h.giveUp x).quiet x
  | sendmsg x data now =>
    cases hhalves : (s.ends x).halves with
    | none => simpa only [Pair.react, hidle x _ hhalves] using h.quiet x
    | some halves => exact h.sendmsg hhalves data now
  | recvmsg x len =>
    cases hhalves : (s.ends x).halves with
    | none => simpa only [Pair.react, hidle x _ hhalves] using h.quiet x
    | some halves => exact h.recvmsg hhalves len
  | packData x congestionWindow now =>
    cases hhalves : (s.ends x).halves with
    | none => simpa only [Pair.react, hidle x _ hhalves] using h.quiet x
    | some halves => exact h.packData hhalves congestionWindow now
  | expire x =>
    cases hhalves : (s.ends x).halves with
    | none => simpa only [Pair.react, hidle x _ hhalves] using h.quiet x
    | some halves => exact h.expire hhalves
  | sendLightAck x =>
    cases hhalves : (s.ends x).halves with
    | none => simpa only [Pair.react, hidle x _ hhalves] using h.quiet x
    | some halves => exact h.sendLightAck hhalves
  | sendAck x recent now =>
    cases hhalves : (s.ends x).halves with
    | none => simpa only [Pair.react, hidle x _ hhalves] using h.quiet x
    | some halves => exact h.sendAck hhalves recent now
  | deliver i reply now =>
    simp only [Pair.Fresh] at hfresh
    simp only [Pair.react]
    cases hi : s.net[i]? with
    | none => exact h.quiet _
    | some e =>
      obtain ⟨m, d⟩ := e
      rw [hi] at hfresh
      apply h.arrive (List.mem_of_getElem? hi)
      intro z w hflow
      simpa only [hflow] using hfresh

theorem Holds.run {events : List Event} (h : Runs Pair.react Pair.Fresh (.new setup) events s) :
    ∃ p, Traces Pipes (fun _ => []) events p ∧ Holds setup s p := by
  apply h.simulates (Holds setup) (holds_new setup)
  exact fun hholds hfresh => hholds.react _ hfresh

/-- However requests and answers cross, get lost or come late, no call of `connect`
ends without a connection but by its time, and the messages of each end come out at
the other one once, whole and in their order. -/
theorem rendezvous_is_two_pipes {events : List Event}
    (h : Runs Pair.react Pair.Fresh (.new setup) events s) :
    ∃ p, Traces Pipes (fun _ => []) events p := by
  obtain ⟨p, htrace, -⟩ := Holds.run h
  exact ⟨p, htrace⟩

def smallSetup : Setup where
  mss := 96
  options _ :=
    { flightFlagSize := 40
      sndBufSize := 64
      rcvBufSize := 36
      rcv_min := by decide
      rcv_le := by decide
      flight_lt := by decide }
  isn _ := 2147483646
  socketID _ := 11
  mss_min := by decide
  isn_nonneg _ := by decide
  isn_le _ := by decide
  id_pos _ := by decide

def crossing : List Action :=
  [.request .left, .deliver 0 false 0, .request .right, .deliver 1 false 0, .request .left,
    .deliver 2 false 0, .sendmsg .right [1, 2, 3] 0, .packData .right 16 0, .deliver 3 false 0,
    .expire .right, .packData .right 16 1, .deliver 4 false 0, .sendmsg .left [9] 0,
    .packData .left 16 0, .deliver 5 false 0, .sendAck .left false 1, .deliver 6 true 1,
    .recvmsg .left 9]

theorem rendezvous_is_two_pipes_crossing : ∃ p, Traces Pipes (fun _ => [])
    (reactions Pair.react (.new smallSetup) crossing).1 p :=
  rendezvous_is_two_pipes (runs_of_reactions crossing (by decide +kernel) rfl)

end NineWire.Udt.Rendezvous
