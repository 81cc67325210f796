import NineWire.Transport.MailPlaces
import NineWire.Udt.RendezvousPipes

/-! Mail is delivered: the connection loses and repeats nothing, and the nonces of what
it brings are new. -/
namespace NineWire.Transport.Mail
open NineWire.Refinement NineWire.Table
open NineWire.Udt.Rendezvous (Peer Pair Setup Pipes)
open NineWire.Wire (Bytes)

def Holds (setup : Setup) (crypto : Peer → Crypto) (s : Stack) (m : Peer → Post) : Prop :=
  ∃ p, Udt.Rendezvous.Holds setup s.pair p ∧ ∀ x, ∃ q place,
    Placed (crypto x) (s.channel x) q place (m x) ∧ p x = q.map Letter.datagram

variable {setup : Setup} {crypto : Peer → Crypto} {s : Stack} {m : Peer → Post}
  {pair : Pair} {p p' : Peer → List Bytes} {x : Peer}

theorem sendmsg_event (pair : Pair) (x : Peer) (data : Bytes) (now : Nat) :
    (pair.react (.sendmsg x data now)).1 = .flow x (.sent data) ∨
      (pair.react (.sendmsg x data now)).1 = .flow x .quiet := by
  simp only [Pair.react, Pair.onHalves]
  split
  · dsimp only
    split
    · exact .inl rfl
    · exact .inr rfl
  · exact .inr rfl

theorem recvmsg_event (pair : Pair) (x : Peer) (len : Nat) :
    (∃ data, (pair.react (.recvmsg x.other len)).1 = .flow x (.received len data)) ∨
      ∃ y, (pair.react (.recvmsg x.other len)).1 = .flow y .quiet := by
  simp only [Pair.react, Pair.onHalves]
  split
  · dsimp only
    split
    · exact .inl ⟨_, by rw [Udt.Rendezvous.Peer.other_other]⟩
    · exact .inr ⟨_, rfl⟩
  · exact .inr ⟨_, rfl⟩

def Still : Udt.Rendezvous.Event → Prop
  | .flow _ (.sent _) | .flow _ (.received ..) => False
  | _ => True

theorem process_still (pair : Pair) (x : Peer) (snd : Udt.Sender) (rcv : Udt.Receiver) (w : Udt.Wire)
    (reply : Bool) (now : Nat) : Still (pair.process x snd rcv w reply now).1 := by
  cases w with
  | data _ _ => exact trivial
  | ack2 _ => exact trivial
  | lightAck _ => exact trivial
  | drop msgno first last =>
    simp only [Pair.process]
    split <;> exact trivial
  | ack ackSeqNo ack avail =>
    simp only [Pair.process]
    split <;> exact trivial
  | nak losslist =>
    simp only [Pair.process]
    split
    · dsimp only
      split <;> exact trivial
    · exact trivial

theorem arrive_still (pair : Pair) (d : Udt.Rendezvous.Datagram) (reply : Bool) (now : Nat) :
    Still (pair.arrive d reply now).1 := by
  simp only [Pair.arrive]
  split
  · split
    · exact trivial
    · split
      · split <;> exact trivial
      · exact trivial
      · exact process_still ..
  · split
    · simp only [Pair.meet]
      split <;> exact trivial
    · exact trivial

/-- Only `sendmsg` and `recvmsg` move messages. -/
theorem udt_still (pair : Pair) {a : Udt.Rendezvous.Action}
    (hsend : ∀ x data now, a ≠ .sendmsg x data now) (hrecv : ∀ x len, a ≠ .recvmsg x len) :
    Still (pair.react a).1 := by
  have hcall (x : Peer) (call : Udt.Sender → Udt.Receiver → Udt.Rendezvous.Event × Pair)
      (hstill : ∀ snd rcv, Still (call snd rcv).1) : Still (pair.onHalves x call).1 := by
    unfold Pair.onHalves
    split
    · exact hstill _ _
    · exact trivial
  cases a with
  | sendmsg x data now => exact absurd rfl (hsend x data now)
  | recvmsg x len => exact absurd rfl (hrecv x len)
  | request x => exact trivial
  | giveUp x => exact trivial
  | packData x congestionWindow now => exact hcall _ _ fun _ _ => trivial
  | expire x => exact hcall _ _ fun _ _ => trivial
  | sendLightAck x => exact hcall _ _ fun _ _ => trivial
  | sendAck x recent now => exact hcall _ _ fun _ _ => trivial
  | deliver i reply now =>
    simp only [Pair.react]
    split
    · exact arrive_still ..
    · exact trivial

theorem pipe_quiet {ms ms' : List Bytes} (h : Udt.Pipe ms .quiet ms') : ms' = ms := by
  cases h
  rfl

theorem pipe_sent {ms ms' : List Bytes} {data : Bytes} (h : Udt.Pipe ms (.sent data) ms') :
    ms' = ms ++ [data] := by
  cases h
  rfl

theorem pipe_received {ms ms' : List Bytes} {len : Nat} {data : Bytes}
    (h : Udt.Pipe ms (.received len data) ms') : ∃ d, ms = d :: ms' ∧ data = d.take len := by
  cases h
  exact ⟨_, rfl, rfl⟩

theorem pipe_defined {ms ms' : List Bytes} : ¬ Udt.Pipe ms .undefined ms' ∧ ¬ Udt.Pipe ms .broken ms' := by
  refine ⟨?_, ?_⟩ <;> intro h <;> cases h

theorem pipes_flow {e : Udt.Link.Event} (h : Pipes p (.flow x e) p') :
    ∃ ms, Udt.Pipe (p x) e ms ∧ p' = Function.update p x ms := by
  obtain ⟨_, hpipe⟩ := h
  exact ⟨_, hpipe, rfl⟩

theorem pipes_still {e : Udt.Rendezvous.Event} (h : Pipes p e p') (he : Still e) :
    p' = p ∧ ∃ x, e = .flow x .quiet := by
  obtain ⟨x, hpipe⟩ := h
  rename_i e ms
  cases e with
  | quiet =>
    rw [pipe_quiet hpipe]
    exact ⟨Function.update_eq_self x p, x, rfl⟩
  | sent _ => exact he.elim
  | received _ _ => exact he.elim
  | broken => exact absurd hpipe pipe_defined.2
  | undefined => exact absurd hpipe pipe_defined.1

theorem Holds.update {pair' : Pair} {c : Channel} {q : List Letter} {place : Nat → Place}
    {post : Post} (hpair : Udt.Rendezvous.Holds setup pair' p')
    (hplaced : Placed (crypto x) c q place post) (hx : p' x = q.map Letter.datagram)
    (hothers : ∀ y, y ≠ x → ∃ q place,
      Placed (crypto y) (s.channel y) q place (m y) ∧ p' y = q.map Letter.datagram) :
    Holds setup crypto ({ s with pair := pair' }.setChannel x c) (Function.update m x post) := by
  refine ⟨p', hpair, ?_⟩
  intro y
  by_cases hy : y = x
  · subst hy
    refine ⟨q, place, ?_, hx⟩
    simpa [Stack.setChannel] using hplaced
  · simpa [Stack.setChannel, hy] using hothers y hy

theorem Holds.udt {a : Udt.Rendezvous.Action} (h : Holds setup crypto s m)
    (hallowed : s.Allowed crypto (.udt a)) :
    ∃ m', Mailed m (s.react crypto (.udt a)).1 m' ∧ Holds setup crypto (s.react crypto (.udt a)).2 m' := by
  obtain ⟨p, hpair, hchannels⟩ := h
  have hcalls : (∀ x data now, a ≠ .sendmsg x data now) ∧ (∀ x len, a ≠ .recvmsg x len) ∧
      s.pair.Fresh a := by
    cases a <;> first | exact hallowed.elim | exact ⟨by simp, by simp, hallowed⟩
  obtain ⟨hsend, hrecv, hfresh⟩ := hcalls
  obtain ⟨p', hpipes, hpair'⟩ := hpair.react a hfresh
  obtain ⟨rfl, x, hevent⟩ := pipes_still hpipes (udt_still s.pair hsend hrecv)
  refine ⟨m, ?_, p', hpair', hchannels⟩
  simp only [Stack.react, hevent]
  exact .udt x

theorem Holds.send (h : Holds setup crypto s m) (x : Peer) (j now : Nat) :
    ∃ m', Mailed m (s.send x j now).1 m' ∧ Holds setup crypto (s.send x j now).2 m' := by
  have hsame : ∃ m', Mailed m .quiet m' ∧ Holds setup crypto s m' := ⟨m, .quiet, h⟩
  obtain ⟨p, hpair, hchannels⟩ := h
  unfold Stack.send
  split
  · rename_i send hsend
    split
    · rename_i message hstage hmessage
      obtain ⟨p', hpipes, hpair'⟩ :=
        hpair.react (.sendmsg x (datagram send.nonce message) now) trivial
      have hevent := sendmsg_event s.pair x (datagram send.nonce message) now
      generalize s.pair.react (.sendmsg x (datagram send.nonce message) now) = res at *
      obtain ⟨e, pair'⟩ := res
      dsimp only at hevent hpipes hpair'
      rcases hevent with rfl | rfl
      · obtain ⟨ms, hpipe, rfl⟩ := pipes_flow hpipes
        obtain ⟨q, place, hplaced, hx⟩ := hchannels x
        have hnext : send.next (crypto x) .sent =
            some { send with stage := .returned send.buf.length } := by
          simp [Send.next, hstage]
        refine ⟨_, .accepted x send.buf, Holds.update hpair'
          (hplaced.accept hsend hstage hmessage (hplaced.counted.send hsend hnext)) ?_ ?_⟩
        · rw [Function.update_self, pipe_sent hpipe, hx, hplaced.counted.numbered j send hsend]
          simp [Letter.datagram, Letter.nonce]
        · intro y hy
          rw [Function.update_of_ne hy]
          exact hchannels y
      · obtain ⟨rfl, -⟩ := pipes_still hpipes trivial
        exact ⟨m, .udt x, p', hpair', hchannels⟩
    · exact hsame
  · exact hsame

theorem Holds.receive {i len : Nat} (h : Holds setup crypto s m)
    (hallowed : s.Allowed crypto (.receive x i len)) :
    ∃ m', Mailed m (s.receive x i len).1 m' ∧ Holds setup crypto (s.receive x i len).2 m' := by
  have hsame : ∃ m', Mailed m .quiet m' ∧ Holds setup crypto s m' := ⟨m, .quiet, h⟩
  obtain ⟨p, hpair, hchannels⟩ := h
  unfold Stack.receive
  split
  · rename_i recv hrecv
    have hlen : recv.size + 24 ≤ len := hallowed recv hrecv
    split
    · rename_i hwaiting
      obtain ⟨p', hpipes, hpair'⟩ := hpair.react (.recvmsg x.other len) trivial
      have hevent := recvmsg_event s.pair x len
      generalize s.pair.react (.recvmsg x.other len) = res at *
      obtain ⟨e, pair'⟩ := res
      dsimp only at hevent hpipes hpair'
      rcases hevent with ⟨data, rfl⟩ | ⟨y, rfl⟩
      · obtain ⟨ms, hpipe, rfl⟩ := pipes_flow hpipes
        obtain ⟨d, hhead, rfl⟩ := pipe_received hpipe
        obtain ⟨q, place, hplaced, hx⟩ := hchannels x
        rw [hhead] at hx
        obtain ⟨l, q, rfl, rfl, rfl⟩ := List.map_eq_cons_iff.mp hx.symm
        have hlong : ¬ (l.datagram.take len).length < 8 := by
          have hlength := hplaced.datagram_length (hplaced.sent l List.mem_cons_self).1
          rw [List.length_take]
          omega
        obtain ⟨hhand, htaken⟩ := hplaced.take hrecv hwaiting hlen
          (hplaced.counted.set hrecv (by simp [hwaiting]) (by simp))
        have hqueue : (m x).queue = l.payload :: q.map Letter.payload := hplaced.payloads
        simp only [if_neg hlong]
        refine ⟨_, .took x i recv.size hqueue hhand, Holds.update hpair' htaken ?_ ?_⟩
        · rw [Function.update_self]
        · intro y hy
          rw [Function.update_of_ne hy]
          exact hchannels y
      · obtain ⟨rfl, -⟩ := pipes_still hpipes trivial
        exact ⟨m, .udt y, p', hpair', hchannels⟩
    · exact hsame
  · exact hsame

theorem Holds.channel {a : Transport.Action} (h : Holds setup crypto s m)
    (hallowed : s.Allowed crypto (.channel x a)) :
    ∃ m', Mailed m (s.react crypto (.channel x a)).1 m' ∧
      Holds setup crypto (s.react crypto (.channel x a)).2 m' := by
  have hsame : ∃ m', Mailed m .quiet m' ∧ Holds setup crypto s m' := ⟨m, .quiet, h⟩
  obtain ⟨p, hpair, hchannels⟩ := h
  obtain ⟨q, place, hplaced, hx⟩ := hchannels x
  simp only [Stack.react]
  cases hstep : (s.channel x).step (crypto x) a with
  | none => exact hsame
  | some c =>
    dsimp only
    by_cases hdecrypt : ∃ i, a = .decrypt i
    · obtain ⟨i, rfl⟩ := hdecrypt
      obtain ⟨recv, hrecv, hstep⟩ := Option.bind_eq_some_iff.mp hstep
      cases hholding : recv.stage with
      | holding d =>
        rw [hholding] at hstep
        obtain rfl := Option.some.inj hstep
        obtain ⟨size, payload, place', hhand, hplaced', hcase⟩ :=
          hplaced.decrypt hrecv hholding hallowed
        have hholds : Holds setup crypto _ _ := Holds.update hpair hplaced' hx
          fun y _ => hchannels y
        rcases hcase with ⟨hsize, hstage⟩ | ⟨hsize, hstage⟩
        · simp only [told, hstage]
          exact ⟨_, .returned x i size hhand hsize, hholds⟩
        · simp only [told, hstage]
          exact ⟨_, .discarded x i size hhand hsize, hholds⟩
      | _ =>
        rw [hholding] at hstep
        cases hstep
    · have hcounted : Counted (crypto x) c := by
        apply hplaced.counted.step _ hstep
        cases a <;> first | exact trivial | exact absurd ⟨_, rfl⟩ hdecrypt
      have hplaced' := hplaced.step hcounted hstep (by rintro j rfl; exact hallowed)
        (by rintro i d rfl; exact hallowed) (fun i hi => hdecrypt ⟨i, hi⟩)
        (by rintro buf rfl; exact hallowed)
      have htold : told x c a = .quiet := by
        cases a <;> first | rfl | exact absurd ⟨_, rfl⟩ hdecrypt
      rw [htold]
      have hholds := Holds.update hpair hplaced' hx fun y _ => hchannels y
      rw [Function.update_eq_self] at hholds
      exact ⟨m, .quiet, hholds⟩

theorem Holds.react (h : Holds setup crypto s m) {a : Action} (hallowed : s.Allowed crypto a) :
    ∃ m', Mailed m (s.react crypto a).1 m' ∧ Holds setup crypto (s.react crypto a).2 m' := by
  cases a with
  | udt a => exact h.udt hallowed
  | channel x a => exact h.channel hallowed
  | send x j now => exact h.send x j now
  | receive x i len => exact h.receive hallowed

/-- What was read off the connection before is what the handshake of the transports
took, so that both start with nothing on it. -/
theorem holds_start (h : Udt.Rendezvous.Holds setup pair fun _ => []) :
    Holds setup crypto (.start pair) fun _ => .empty :=
  ⟨_, h, fun x => ⟨[], _, placed_start (crypto x), rfl⟩⟩

theorem pipe_unique {ms ms' ms'' : List Bytes} {e : Udt.Link.Event} (h : Udt.Pipe ms e ms')
    (h' : Udt.Pipe ms e ms'') : ms' = ms'' := by
  cases h with
  | quiet _ => rw [pipe_quiet h']
  | sent _ _ => rw [pipe_sent h']
  | received _ _ _ =>
    obtain ⟨d, heq, -⟩ := pipe_received h'
    exact (List.cons.inj heq).2

theorem pipes_unique {p'' : Peer → List Bytes} {e : Udt.Rendezvous.Event} (h : Pipes p e p')
    (h' : Pipes p e p'') : p' = p'' := by
  obtain ⟨x, hpipe⟩ := h
  obtain ⟨ms, hpipe', rfl⟩ := pipes_flow h'
  rw [pipe_unique hpipe hpipe']

variable {before : List Udt.Rendezvous.Event} {events : List Event}

variable (crypto) in
/-- Two transports whose handshake is over are mail both ways: whatever the network
loses, repeats and delays, and however the calls of `send_with` and `recv` overlap, a
payload that was accepted is taken out once and in its turn, and returned by the `recv`
that took it unless it is too long for the buffer. No slice is out of range. -/
theorem transport_is_mail (hbefore : Runs Pair.react Pair.Fresh (.new setup) before pair)
    (hread : Traces Pipes (fun _ => []) before fun _ => [])
    (h : Runs (Stack.react crypto) (Stack.Allowed crypto) (.start pair) events s) :
    ∃ m, Traces Mailed (fun _ => .empty) events m := by
  obtain ⟨p, htrace, hpair⟩ := Udt.Rendezvous.Holds.run hbefore
  obtain rfl := htrace.unique hread pipes_unique
  obtain ⟨m, hmailed, -⟩ := h.simulates (Holds setup crypto) (holds_start hpair)
    fun hholds hallowed => hholds.react hallowed
  exact ⟨m, hmailed⟩

def allowed (crypto : Peer → Crypto) (s : Stack) : Action → Bool
  | .udt a =>
    match a with
    | .sendmsg .. | .recvmsg .. => false
    | a => s.pair.Fresh a
  | .channel x a =>
    match a with
    | .send _ .sent | .receive .. => false
    | .sendWith _ => (s.channel x).sends.length + 1 < 2^64
    | a => authentic (crypto x) (s.channel x) a
  | .send .. => true
  | .receive x i len => ((s.channel x).recvs[i]?.map Recv.size).all (· + 24 ≤ len)

theorem allowed_of_check {a : Action} (h : allowed crypto s a = true) : s.Allowed crypto a := by
  cases a with
  | udt a =>
    cases a with
    | sendmsg _ _ _ => simp [allowed] at h
    | recvmsg _ _ => simp [allowed] at h
    | _ => simpa [allowed, Stack.Allowed] using h
  | channel x a =>
    cases a with
    | send j b =>
      cases b with
      | sent => simp [allowed] at h
      | _ => trivial
    | receive _ _ => simp [allowed] at h
    | sendWith _ => simpa [allowed, Stack.Allowed] using h
    | decrypt i =>
      have hauth : authentic (crypto x) (s.channel x) (.decrypt i) = true := h
      exact authentic_of_check hauth
    | _ => trivial
  | send x j now => trivial
  | receive x i len =>
    intro recv hrecv
    simpa [allowed, hrecv] using h

theorem traces_still {events : List Udt.Rendezvous.Event}
    (h : ∀ e ∈ events, e = .flow .left .quiet ∨ e = .flow .right .quiet) :
    Traces Pipes p events p := by
  induction events using List.reverseRecOn with
  | nil => exact .refl
  | append_singleton events e ih =>
    have hpipe (x : Peer) : Pipes p (.flow x .quiet) p := by
      have hsame := Pipes.flow p x (.quiet (p x))
      rwa [Function.update_eq_self] at hsame
    refine .tail (ih fun e he => h e (List.mem_append_left _ he)) ?_
    rcases h e (by simp) with rfl | rfl
    · exact hpipe .left
    · exact hpipe .right

def meeting : List Udt.Rendezvous.Action :=
  [.request .left, .deliver 0 false 0, .request .right, .deliver 1 false 0, .request .left,
    .deliver 2 false 0, .request .left, .deliver 3 false 0, .deliver 4 false 0]

def letter : List Action :=
  [.channel .left (.sendWith [7, 8]), .channel .left (.send 0 .encrypt), .send .left 0 0,
    .udt (.packData .left 16 0), .channel .left (.recv 4), .udt (.deliver 5 false 0),
    .udt (.sendAck .right false 1), .receive .left 0 28, .channel .left (.decrypt 0),
    .udt (.deliver 5 false 1), .channel .left (.recv 4), .receive .left 1 28]

theorem transport_is_mail_letter :
    ∃ m, Traces Mailed (fun _ => .empty) (reactions (Stack.react fun _ => checked)
      (.start (reactions Pair.react (.new Udt.Rendezvous.smallSetup) meeting).2) letter).1 m :=
  transport_is_mail (fun _ => checked)
    (runs_of_reactions meeting (by decide +kernel) rfl) (traces_still (by decide +kernel))
    (runs_of_reactions letter (Permitted.mono (fun _ _ => allowed_of_check) (by decide +kernel)) rfl)

end NineWire.Transport.Mail
