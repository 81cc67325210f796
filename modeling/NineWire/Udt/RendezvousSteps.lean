import NineWire.Udt.RendezvousConnect

/-! What the calls of an end that is connected do: each is one on the link of the
messages that it is about, and leaves the other link alone. -/
namespace NineWire.Udt.Rendezvous
variable {setup : Setup} {s s' : Pair} {p : Peer → List (List UInt8)} {x z : Peer} {c : Terms}
  {snd : Sender} {rcv : Receiver} {ms : List (List UInt8)}

theorem packData_wire {l : Link} {congestionWindow : Int} {now : Nat} {w : Wire}
    (h : Link.Holds c l ms) (hw : (l.snd.packData congestionWindow now).1 = some w) :
    ∃ seqNo packet, w = .data seqNo packet := by
  obtain ⟨done, todo, f, da, la, a, rc, got, h, -⟩ := h
  rcases h.sends.packData h.reliable congestionWindow now with
    ⟨i, packet, hwire, -⟩ | ⟨packet, hwire, -⟩ | ⟨hwire, -⟩
  · rw [hwire] at hw
    cases hw
    exact ⟨_, _, rfl⟩
  · rw [hwire] at hw
    cases hw
    exact ⟨_, _, rfl⟩
  · simp [hwire] at hw

theorem Holds.step {ev : Link.Event} (h : Holds setup s p) (hs : Alike s s') (hz : s.Connected z)
    (hother : ∀ c, s'.link c z.other = s.link c z.other)
    (hlink : ∀ c ms, Link.Holds c (s.link c z) ms →
      ∃ ms', Pipe ms ev ms' ∧ Link.Holds c (s'.link c z) ms')
    (hnew : ¬ s.Connected z.other → ∀ e ∈ s'.wires z, e ∈ s.wires z ∨
      ∃ seqNo packet, e.2 = .data seqNo packet) :
    ∃ p', Pipes p (.flow z ev) p' ∧ Holds setup s' p' := by
  obtain ⟨late, hholds⟩ := (h.flows z).1 hz
  obtain ⟨ms', hpipe, hholds'⟩ := hlink _ _ hholds
  refine ⟨_, .flow p z hpipe, ?_, ?_, ?_⟩
  · exact fun x => hs.knows (h.ends x)
  · intro e he
    rcases hs.net e he with he | ⟨w, hw⟩
    · exact (h.net e he).mono hs.later
    · simp [Says, hw]
  · intro x
    rcases z.eq_or x with rfl | rfl
    · rw [Function.update_self]
      exact ⟨fun _ => ⟨late, hholds'⟩, fun hnot => absurd ((hs.connected _).mpr hz) hnot⟩
    · rw [Function.update_of_ne z.other_ne]
      have hflow := h.flows z.other
      rw [Carried, hs.connected]
      refine ⟨?_, ?_⟩
      · intro hconn
        obtain ⟨late', hholds'⟩ := hflow.1 hconn
        refine ⟨late', ?_⟩
        rwa [hother]
      · intro hnot
        obtain ⟨hnil, hunheard⟩ := hflow.2 hnot
        refine ⟨hnil, ?_, ?_⟩
        · intro late'
          rw [hother]
          exact hunheard.link late'
        · rw [Peer.other_other]
          intro e he
          rcases hnew hnot e he with hold | hdata
          · exact hunheard.data e (by rwa [Peer.other_other])
          · exact hdata

theorem Holds.sendmsg (h : Holds setup s p) (hx : (s.ends x).halves = some (snd, rcv))
    (data : List UInt8) (now : Nat) :
    ∃ p', Pipes p (s.react (.sendmsg x data now)).1 p' ∧
      Holds setup (s.react (.sendmsg x data now)).2 p' := by
  have hconn : s.Connected x := by simp [Pair.Connected, End.Connected, hx]
  simp only [Pair.react, Pair.onHalves, hx]
  apply h.step (Alike.setHalves hconn) hconn
  · exact fun c => link_setHalves_snd hx _
  · intro c ms hholds
    have hreact := hholds.react (.sendmsg data now) trivial
    rw [link_setHalves_self]
    simpa only [Link.react, link_snd hx] using hreact
  · exact fun _ e he => .inl he

theorem sendAck_wire {recent : Bool} {now : Nat} {w : Wire}
    (h : (rcv.sendAck recent now).1 = some w) : ∃ ackSeqNo ack avail, w = .ack ackSeqNo ack avail := by
  have htell (r : Receiver) (hr : (r.tellAck now).1 = some w) :
      ∃ ackSeqNo ack avail, w = .ack ackSeqNo ack avail := by
    unfold Receiver.tellAck at hr
    split at hr
    · cases hr
      exact ⟨_, _, _, rfl⟩
    · cases hr
  unfold Receiver.sendAck at h
  dsimp only at h
  split at h
  · cases h
  · split at h
    · exact htell _ h
    · split at h
      · split at h
        · cases h
        · exact htell _ h
      · cases h

theorem sendLightAck_wire {w : Wire} (h : rcv.sendLightAck = some w) : ∃ ack, w = .lightAck ack := by
  unfold Receiver.sendLightAck at h
  split at h
  · cases h
  · cases h
    exact ⟨_, rfl⟩

/-- An end does not find anything to do for the messages of one that is not connected. -/
theorem receiver_idle (c : Terms) (recent : Bool) (now len : Nat) :
    (Link.new c).rcv.sendLightAck = none ∧
      (Link.new c).rcv.sendAck recent now = (none, (Link.new c).rcv) ∧
      ¬ 0 < ((Link.new c).rcv.recvmsg len).1 ∧
      ((Link.new c).rcv.recvmsg len).2.2 = (Link.new c).rcv := by
  have hnonneg := c.isn_nonneg
  have hisn := c.isn_le
  have hack : (Link.new c).rcv.nextAck = (Link.new c).rcv.rcvLastAckAck := by
    have hloss : (RcvLossList.new c.flightFlagSize).getLossLength = 0 := rfl
    have hinc : SeqNo.incseq (c.isn - 1) = c.isn := by
      rw [SeqNo.incseq, if_neg (by omega)]
      omega
    rw [Receiver.nextAck]
    exact (if_pos hloss).trans hinc
  refine ⟨?_, ?_, ?_⟩
  · rw [Receiver.sendLightAck, if_pos hack]
  · rw [Receiver.sendAck, if_pos hack]
  · exact (carries_new c).recvmsg_none (by simp) len

theorem Holds.rcv_new (h : Holds setup s p) (hx : (s.ends x).halves = some (snd, rcv))
    (hother : ¬ s.Connected x.other) : rcv = (Link.new (setup.terms x.other false)).rcv := by
  have hnew := ((h.flows x.other).2 hother).2.link false
  calc rcv = (s.link (setup.terms x.other false) x.other).rcv := (link_rcv hx).symm
    _ = (Link.new (setup.terms x.other false)).rcv := by rw [hnew]

theorem Holds.quiet (h : Holds setup s p) (x : Peer) :
    ∃ p', Pipes p (.flow x .quiet) p' ∧ Holds setup s p' := by
  refine ⟨_, .flow p x (.quiet _), ?_⟩
  rwa [Function.update_eq_self]

theorem Holds.packData (h : Holds setup s p) (hx : (s.ends x).halves = some (snd, rcv))
    (congestionWindow : Int) (now : Nat) :
    ∃ p', Pipes p (s.react (.packData x congestionWindow now)).1 p' ∧
      Holds setup (s.react (.packData x congestionWindow now)).2 p' := by
  have hconn : s.Connected x := by simp [Pair.Connected, End.Connected, hx]
  obtain ⟨late, hflow⟩ := (h.flows x).1 hconn
  have hdata : ∀ w, (snd.packData congestionWindow now).1 = some w →
      ∃ seqNo packet, w = .data seqNo packet := by
    intro w hw
    rw [← link_snd hx] at hw
    exact packData_wire hflow hw
  simp only [Pair.react, Pair.onHalves, hx]
  generalize hres : snd.packData congestionWindow now = res at hdata ⊢
  obtain ⟨wire, snd'⟩ := res
  dsimp only at hdata ⊢
  have habout : ∀ w, wire = some w → about x w = x := by
    intro w hw
    obtain ⟨seqNo, packet, rfl⟩ := hdata w hw
    rfl
  generalize hcount : (s.setHalves x snd' rcv).count x
    (snd'.sndCurrSeqNo ≠ snd.sndCurrSeqNo) = t
  have hlink (c : Terms) := link_transmit (s := t) (c := c) habout
  have halike : Alike s t := by
    rw [← hcount]
    exact (Alike.setHalves hconn).count
  apply h.step (halike.transmit wire) hconn
  · intro c
    rw [(hlink c).2, ← hcount, link_count_other]
    exact link_setHalves_snd hx snd'
  · intro c ms hholds
    have hreact := hholds.react (.packData congestionWindow now) trivial
    have hsent : (s.setHalves x snd' rcv).sent x = (s.link c x).sent := rfl
    rw [(hlink c).1, ← hcount, link_count_self, link_setHalves_self, hsent]
    simpa only [Link.react, Link.packData, link_snd hx, hres, decide_not, Bool.not_eq_true',
      decide_eq_false_iff_not, ite_not] using hreact
  · intro _ e he
    cases wire with
    | none =>
      rw [← hcount] at he
      exact .inl he
    | some w =>
      obtain ⟨seqNo, packet, rfl⟩ := hdata w rfl
      rw [wires_transmit, ← hcount] at he
      rcases List.mem_append.mp he with he | he
      · exact .inl he
      · rw [habout _ rfl, if_pos rfl, List.mem_singleton] at he
        exact .inr ⟨seqNo, packet, by rw [he]⟩

theorem Holds.recvmsg (h : Holds setup s p) (hx : (s.ends x).halves = some (snd, rcv))
    (len : Nat) :
    ∃ p', Pipes p (s.react (.recvmsg x len)).1 p' ∧ Holds setup (s.react (.recvmsg x len)).2 p' := by
  have hconn : s.Connected x := by simp [Pair.Connected, End.Connected, hx]
  simp only [Pair.react, Pair.onHalves, hx]
  by_cases hother : s.Connected x.other
  · apply h.step (Alike.setHalves hconn) hother
    · intro c
      rw [Peer.other_other]
      exact link_setHalves_rcv hx _
    · intro c ms hholds
      have hreact := hholds.react (.recvmsg len) trivial
      rw [link_setHalves_other]
      simpa only [Link.react, link_rcv hx] using hreact
    · exact fun _ e he => .inl he
  · have hrcv := h.rcv_new hx hother
    obtain ⟨-, -, hnot, hsame⟩ := receiver_idle (setup.terms x.other false) true 0 len
    rw [← hrcv] at hnot hsame
    rw [if_neg hnot, hsame, setHalves_same hx]
    exact h.quiet x.other

theorem Holds.answer {ev : Link.Event} (h : Holds setup s p)
    (hx : (s.ends x).halves = some (snd, rcv)) (hother : s.Connected x.other)
    (wire : Option Wire) (rcv' : Receiver) (habout : ∀ w, wire = some w → about x w = x.other)
    (hlink : ∀ c ms, Link.Holds c (s.link c x.other) ms → ∃ ms', Pipe ms ev ms' ∧
      Link.Holds c ({ s.link c x.other with rcv := rcv' }.post wire) ms') :
    ∃ p', Pipes p (.flow x.other ev) p' ∧ Holds setup ((s.setHalves x snd rcv').transmit x wire) p' := by
  have hconn : s.Connected x := by simp [Pair.Connected, End.Connected, hx]
  have htransmit (c : Terms) := link_transmit (s := s.setHalves x snd rcv') (c := c) habout
  apply h.step ((Alike.setHalves hconn).transmit wire) hother
  · intro c
    rw [(htransmit c).2, Peer.other_other]
    exact link_setHalves_rcv hx rcv'
  · intro c ms hholds
    rw [(htransmit c).1, link_setHalves_other]
    exact hlink c ms hholds
  · intro hnot
    rw [Peer.other_other] at hnot
    exact absurd hconn hnot

theorem Holds.sendAck (h : Holds setup s p) (hx : (s.ends x).halves = some (snd, rcv))
    (recent : Bool) (now : Nat) :
    ∃ p', Pipes p (s.react (.sendAck x recent now)).1 p' ∧
      Holds setup (s.react (.sendAck x recent now)).2 p' := by
  simp only [Pair.react, Pair.onHalves, hx]
  by_cases hother : s.Connected x.other
  · apply h.answer hx hother (rcv.sendAck recent now).1 (rcv.sendAck recent now).2
    · intro w hw
      rcases sendAck_wire hw with ⟨ackSeqNo, ack, avail, rfl⟩
      rfl
    · intro c ms hholds
      have hreact := hholds.react (.sendAck recent now) trivial
      simpa only [Link.react, link_rcv hx] using hreact
  · have hrcv := h.rcv_new hx hother
    obtain ⟨-, hnone, -⟩ := receiver_idle (setup.terms x.other false) recent now 0
    rw [← hrcv] at hnone
    rw [hnone, setHalves_same hx]
    exact h.quiet x.other

theorem Holds.sendLightAck (h : Holds setup s p) (hx : (s.ends x).halves = some (snd, rcv)) :
    ∃ p', Pipes p (s.react (.sendLightAck x)).1 p' ∧
      Holds setup (s.react (.sendLightAck x)).2 p' := by
  simp only [Pair.react, Pair.onHalves, hx]
  by_cases hother : s.Connected x.other
  · rw [← congrArg (Pair.transmit · x rcv.sendLightAck) (setHalves_same hx)]
    apply h.answer hx hother rcv.sendLightAck rcv
    · intro w hw
      obtain ⟨ack, rfl⟩ := sendLightAck_wire hw
      rfl
    · intro c ms hholds
      have hreact := hholds.react .sendLightAck trivial
      simp only [Link.react, link_rcv hx] at hreact
      rw [← link_rcv hx (c := c)] at hreact ⊢
      exact hreact
  · have hrcv := h.rcv_new hx hother
    obtain ⟨hnone, -⟩ := receiver_idle (setup.terms x.other false) true 0 0
    rw [← hrcv] at hnone
    rw [hnone]
    exact h.quiet x.other

theorem Holds.expire (h : Holds setup s p) (hx : (s.ends x).halves = some (snd, rcv)) :
    ∃ p', Pipes p (s.react (.expire x)).1 p' ∧ Holds setup (s.react (.expire x)).2 p' := by
  have hconn : s.Connected x := by simp [Pair.Connected, End.Connected, hx]
  simp only [Pair.react, Pair.onHalves, hx]
  split
  · apply h.step (Alike.setHalves hconn) hconn
    · exact fun c => link_setHalves_snd hx _
    · intro c ms hholds
      have hreact := hholds.react .expire trivial
      rw [link_setHalves_self]
      simpa only [Link.react, link_snd hx] using hreact
    · exact fun _ e he => .inl he
  · have hkeep : Says setup s ⟨x.other, (s.ends x).peerID, .keepAlive⟩ := by simpa [Says] using hconn
    exact (h.post (by simp) hkeep).quiet x

end NineWire.Udt.Rendezvous
