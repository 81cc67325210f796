import NineWire.Table
import NineWire.Transport.Secure

/-! What a `recv` returns was sent, and is returned once, whatever the network
does: the set of nonces holds exactly those of the buffers returned so far. -/
namespace NineWire.Transport
open NineWire.LittleEndian NineWire.Transition NineWire.Table
open NineWire.Wire (Bytes)

theorem fromBeBytes_toBeBytes (nonce : UInt64) : fromBeBytes (toBeBytes nonce) = nonce := by
  rw [fromBeBytes, toBeBytes, List.reverse_reverse, ofLe_toLe 8 _ nonce.toNat_lt,
    UInt64.ofNat_toNat]

theorem toBeBytes_length (nonce : UInt64) : (toBeBytes nonce).length = 8 := by
  rw [toBeBytes, List.length_reverse, toLe_length]

def datagram (nonce : UInt64) (message : Bytes) : Bytes := toBeBytes nonce ++ message

theorem nonceOf_datagram (nonce : UInt64) (message : Bytes) :
    nonceOf (datagram nonce message) = nonce := by
  rw [nonceOf, datagram, List.take_left' (toBeBytes_length nonce), fromBeBytes_toBeBytes]

theorem messageOf_datagram (nonce : UInt64) (message : Bytes) :
    messageOf (datagram nonce message) = message := by
  rw [messageOf, datagram, List.drop_left' (toBeBytes_length nonce)]

section Run
variable {crypto : Crypto} {s s' : Channel} {a : Action}

def Channel.Returned (s : Channel) (i : Nat) (nonce : UInt64) (payload : Bytes) : Prop :=
  ∃ recv : Recv, s.recvs[i]? = some recv ∧ recv.stage = .returned nonce payload

structure Counted (crypto : Crypto) (s : Channel) : Prop where
  outgoing : s.nonceOutgoing = UInt64.ofNat s.sends.length
  numbered : ∀ (j : Nat) (send : Send), s.sends[j]? = some send → send.nonce = UInt64.ofNat j
  sealed : ∀ (j : Nat) (send : Send) message, s.sends[j]? = some send →
    send.message = some message → crypto.writeMessage send.nonce send.buf = some message
  seen : ∀ nonce, nonce ∈ s.nonceIncoming ↔ ∃ i payload, s.Returned i nonce payload
  origin : ∀ i nonce payload, s.Returned i nonce payload →
    ∃ (j : Nat) (send : Send), s.sends[j]? = some send ∧ send.nonce = nonce ∧ send.buf = payload
  once : ∀ i i' nonce payload payload', s.Returned i nonce payload →
    s.Returned i' nonce payload' → i = i'

theorem Counted.start : Counted crypto .start where
  outgoing := rfl
  numbered _ _ h := by cases h
  sealed _ _ _ h := by cases h
  seen nonce := by simp [Channel.start, Channel.Returned]
  origin _ _ _ h := by simp [Channel.start, Channel.Returned] at h
  once _ _ _ _ _ h := by simp [Channel.start, Channel.Returned] at h

theorem Counted.same (h : Counted crypto s) (hout : s'.nonceOutgoing = s.nonceOutgoing)
    (hsends : s'.sends = s.sends) (hseen : s'.nonceIncoming = s.nonceIncoming)
    (hreturned : ∀ i nonce payload, s'.Returned i nonce payload ↔ s.Returned i nonce payload) :
    Counted crypto s' where
  outgoing := by rw [hout, hsends, h.outgoing]
  numbered := by rw [hsends]; exact h.numbered
  sealed := by rw [hsends]; exact h.sealed
  seen nonce := by simp only [hseen, h.seen, hreturned]
  origin i nonce payload hi := by
    rw [hsends]
    exact h.origin i nonce payload ((hreturned i nonce payload).mp hi)
  once i i' nonce payload payload' hi hi' :=
    h.once i i' nonce payload payload' ((hreturned _ _ _).mp hi) ((hreturned _ _ _).mp hi')

theorem returned_set {i : Nat} {recv : Recv} {stage : RecvStage} (hrecv : s.recvs[i]? = some recv)
    (hnot : ∀ nonce payload, recv.stage ≠ .returned nonce payload)
    (hrecvs : s'.recvs = s.recvs.set i { recv with stage }) (j : Nat) (nonce : UInt64)
    (payload : Bytes) :
    s'.Returned j nonce payload ↔
      (j = i ∧ stage = .returned nonce payload) ∨ s.Returned j nonce payload := by
  constructor
  · intro h
    obtain ⟨recv', hj, hstage⟩ := h
    rw [hrecvs] at hj
    obtain ⟨rfl, rfl⟩ | ⟨-, hold⟩ := set_cases hj
    · exact .inl ⟨rfl, hstage⟩
    · exact .inr ⟨recv', hold, hstage⟩
  · intro h
    obtain ⟨rfl, hstage⟩ | ⟨recv', hj, hstage⟩ := h
    · exact ⟨_, by rw [hrecvs]; exact set_get_self hrecv, hstage⟩
    · refine ⟨recv', ?_, hstage⟩
      have hij : i ≠ j := by
        intro heq
        subst heq
        obtain rfl := Option.some.inj (hrecv.symm.trans hj)
        exact hnot nonce payload hstage
      rw [hrecvs, set_get_ne hij, hj]

theorem Counted.set {i : Nat} {recv : Recv} {stage : RecvStage} (h : Counted crypto s)
    (hrecv : s.recvs[i]? = some recv) (hnot : ∀ nonce payload, recv.stage ≠ .returned nonce payload)
    (hstage : ∀ nonce payload, stage ≠ .returned nonce payload) :
    Counted crypto { s with recvs := s.recvs.set i { recv with stage } } := by
  refine h.same rfl rfl rfl fun j nonce payload => ?_
  rw [returned_set hrecv hnot rfl]
  simp [hstage]

theorem Counted.wake {i : Nat} {stage : RecvStage} (h : Counted crypto s)
    (hstage : ∀ nonce payload, stage ≠ .returned nonce payload)
    (hwake : s.wake i stage = some s') : Counted crypto s' := by
  obtain ⟨recv, hrecv, hwake⟩ := Option.bind_eq_some_iff.mp hwake
  split at hwake
  · rename_i hwaiting
    obtain rfl := Option.some.inj hwake
    exact h.set hrecv (by simp [hwaiting]) hstage
  · cases hwake

theorem Counted.sendWith (h : Counted crypto s) (buf : Bytes) :
    Counted crypto (s.sendWith buf) := by
  refine ⟨?_, fun j send hj => ?_, fun j send message hj hmessage => ?_, h.seen,
    fun i nonce payload hi => ?_, h.once⟩
  · simp only [Channel.sendWith, List.length_append, List.length_singleton, h.outgoing,
      UInt64.ofNat_add]
    rfl
  · obtain hold | ⟨rfl, rfl⟩ := append_cases hj
    · exact h.numbered j send hold
    · exact h.outgoing
  · obtain hold | ⟨rfl, rfl⟩ := append_cases hj
    · exact h.sealed j send message hold hmessage
    · cases hmessage
  · obtain ⟨j, send, hj, hsend⟩ := h.origin i nonce payload hi
    exact ⟨j, send, append_get hj, hsend⟩

theorem next_spec {send send' : Send} {b : SendStep} (h : send.next crypto b = some send') :
    send'.nonce = send.nonce ∧ send'.buf = send.buf ∧
      (send'.message = send.message ∨
        send'.message = crypto.writeMessage send.nonce send.buf) := by
  cases b with
  | encrypt =>
    simp only [Send.next] at h
    split at h
    · split at h
      · rename_i message hwrite
        obtain rfl := Option.some.inj h
        exact ⟨rfl, rfl, .inr hwrite.symm⟩
      · obtain rfl := Option.some.inj h
        exact ⟨rfl, rfl, .inl rfl⟩
    · cases h
  | _ =>
    simp only [Send.next] at h
    split at h
    · obtain rfl := Option.some.inj h
      exact ⟨rfl, rfl, .inl rfl⟩
    · cases h

theorem Counted.send {j : Nat} {send send' : Send} {b : SendStep} (h : Counted crypto s)
    (hsend : s.sends[j]? = some send) (hnext : send.next crypto b = some send') :
    Counted crypto { s with sends := s.sends.set j send' } := by
  obtain ⟨hnonce, hbuf, hmessage⟩ := next_spec hnext
  refine ⟨by rw [List.length_set]; exact h.outgoing, fun k other hk => ?_,
    fun k other message hk hsealed => ?_, h.seen, fun i nonce payload hi => ?_, h.once⟩
  · obtain ⟨rfl, rfl⟩ | ⟨-, hold⟩ := set_cases hk
    · rw [hnonce, h.numbered j send hsend]
    · exact h.numbered k other hold
  · obtain ⟨rfl, rfl⟩ | ⟨-, hold⟩ := set_cases hk
    · rw [hnonce, hbuf]
      obtain hsame | hnew := hmessage
      · exact h.sealed j send message hsend (hsame.symm.trans hsealed)
      · exact hnew.symm.trans hsealed
    · exact h.sealed k other message hold hsealed
  · obtain ⟨k, other, hk, hother⟩ := h.origin i nonce payload hi
    refine ⟨k, _, set_get hk, ?_⟩
    split
    · rename_i hjk
      subst hjk
      obtain rfl := Option.some.inj (hsend.symm.trans hk)
      exact ⟨hnonce.trans hother.1, hbuf.trans hother.2⟩
    · exact hother

/-- A payload that is accepted is the buffer of the send with that nonce. -/
theorem Counted.accept {i : Nat} {recv : Recv} {nonce : UInt64} {message payload : Bytes}
    (h : Counted crypto s) (hrecv : s.recvs[i]? = some recv)
    (hnot : ∀ nonce payload, recv.stage ≠ .returned nonce payload) (hnew : nonce ∉ s.nonceIncoming)
    (hread : crypto.readMessage nonce message = some payload)
    (hsent : ∃ send ∈ s.sends, send.nonce = nonce ∧ send.message = some message) :
    Counted crypto { s with
      nonceIncoming := insert nonce s.nonceIncoming
      recvs := s.recvs.set i { recv with stage := .returned nonce payload } } := by
  let s' : Channel := { s with
    nonceIncoming := insert nonce s.nonceIncoming
    recvs := s.recvs.set i { recv with stage := .returned nonce payload } }
  have hreturned : ∀ j nonce' payload', s'.Returned j nonce' payload' ↔ _ :=
    returned_set hrecv hnot rfl
  show Counted crypto s'
  have hfresh (j : Nat) (payload' : Bytes) : ¬s.Returned j nonce payload' := fun hj =>
    hnew ((h.seen nonce).mpr ⟨j, payload', hj⟩)
  refine ⟨h.outgoing, h.numbered, h.sealed, fun nonce' => ?_, fun j nonce' payload' hj => ?_,
    fun j j' nonce' payload' payload'' hj hj' => ?_⟩
  · have hseen : nonce' ∈ s'.nonceIncoming ↔ nonce' = nonce ∨ nonce' ∈ s.nonceIncoming :=
      Finset.mem_insert
    simp only [hseen, h.seen, hreturned, RecvStage.returned.injEq]
    constructor
    · intro hcase
      obtain rfl | ⟨j, payload', hj⟩ := hcase
      · exact ⟨i, payload, .inl ⟨rfl, rfl, rfl⟩⟩
      · exact ⟨j, payload', .inr hj⟩
    · intro hcase
      obtain ⟨j, payload', ⟨-, rfl, -⟩ | hj⟩ := hcase
      · exact .inl rfl
      · exact .inr ⟨j, payload', hj⟩
  · obtain ⟨-, hstage⟩ | hold := (hreturned j nonce' payload').mp hj
    · obtain ⟨rfl, rfl⟩ := RecvStage.returned.inj hstage
      obtain ⟨send, hmem, hnonce, hmessage⟩ := hsent
      obtain ⟨k, hk⟩ := List.mem_iff_getElem?.mp hmem
      have hwrite := h.sealed k send message hk hmessage
      rw [hnonce] at hwrite
      have hopens := crypto.opens _ _ _ hwrite
      exact ⟨k, send, hk, hnonce, Option.some.inj (hopens.symm.trans hread)⟩
    · exact h.origin j nonce' payload' hold
  · rcases (hreturned j nonce' payload').mp hj with ⟨rfl, hstage⟩ | hold <;>
      obtain ⟨rfl, hstage'⟩ | hold' := (hreturned j' nonce' payload'').mp hj'
    · rfl
    · obtain ⟨rfl, -⟩ := RecvStage.returned.inj hstage
      exact (hfresh j' payload'' hold').elim
    · obtain ⟨rfl, -⟩ := RecvStage.returned.inj hstage'
      exact (hfresh j payload' hold).elim
    · exact h.once j j' nonce' payload' payload'' hold hold'

theorem decrypt_accepts {i : Nat} {recv : Recv} {incoming payload : Bytes}
    (hnew : nonceOf incoming ∉ s.nonceIncoming)
    (hread : crypto.readMessage (nonceOf incoming) (messageOf incoming) = some payload)
    (hsize : payload.length ≤ recv.size) :
    s.decrypt crypto i recv incoming = { s with
      nonceIncoming := insert (nonceOf incoming) s.nonceIncoming
      recvs := s.recvs.set i { recv with stage := .returned (nonceOf incoming) payload } } := by
  simp [Channel.decrypt, hnew, readInto, hread, Option.filter_some, hsize]

/-- A datagram is accepted, or its receiver goes back to waiting and nothing
else changes. -/
theorem decrypt_cases (crypto : Crypto) (s : Channel) (i : Nat) (recv : Recv) (incoming : Bytes) :
    s.decrypt crypto i recv incoming = { s with recvs := s.recvs.set i { recv with stage := .waiting } } ∨
    ∃ payload, nonceOf incoming ∉ s.nonceIncoming ∧
      crypto.readMessage (nonceOf incoming) (messageOf incoming) = some payload ∧
      s.decrypt crypto i recv incoming = { s with
        nonceIncoming := insert (nonceOf incoming) s.nonceIncoming
        recvs := s.recvs.set i { recv with stage := .returned (nonceOf incoming) payload } } := by
  by_cases hseen : nonceOf incoming ∈ s.nonceIncoming
  · exact .inl (by simp [Channel.decrypt, hseen])
  · cases hread : readInto crypto recv.size (nonceOf incoming) (messageOf incoming) with
    | none => exact .inl (by simp [Channel.decrypt, hseen, hread])
    | some payload =>
      obtain ⟨hdecrypt, -⟩ := Option.filter_eq_some_iff.mp hread
      exact .inr ⟨payload, hseen, hdecrypt, by simp [Channel.decrypt, hseen, hread]⟩

theorem decrypt_step {i : Nat} {recv : Recv} {incoming : Bytes} (hrecv : s.recvs[i]? = some recv)
    (hholding : recv.stage = .holding incoming) :
    s.step crypto (.decrypt i) = some (s.decrypt crypto i recv incoming) := by
  simp only [Channel.step, hrecv, hholding, Option.bind_eq_bind, Option.bind_some]

theorem Counted.decrypt {i : Nat} {recv : Recv} {incoming : Bytes} (h : Counted crypto s)
    (hrecv : s.recvs[i]? = some recv) (hholding : recv.stage = .holding incoming)
    (hauth : Authentic crypto s (.decrypt i)) :
    Counted crypto (s.decrypt crypto i recv incoming) := by
  have hnot : ∀ nonce payload, recv.stage ≠ .returned nonce payload := by simp [hholding]
  obtain heq | ⟨payload, hnew, hread, heq⟩ := decrypt_cases crypto s i recv incoming
  · rw [heq]
    exact h.set hrecv hnot (by simp)
  · rw [heq]
    exact h.accept hrecv hnot hnew hread (hauth recv incoming payload hrecv hholding hread)

theorem Counted.step (h : Counted crypto s) (hauth : Authentic crypto s a)
    (hstep : s.step crypto a = some s') : Counted crypto s' := by
  cases a with
  | sendWith buf =>
    obtain rfl := Option.some.inj hstep
    exact h.sendWith buf
  | send j b =>
    obtain ⟨send, hsend, hstep⟩ := Option.bind_eq_some_iff.mp hstep
    obtain ⟨send', hnext, hstep⟩ := Option.bind_eq_some_iff.mp hstep
    obtain rfl := Option.some.inj hstep
    exact h.send hsend hnext
  | recv size =>
    obtain rfl := Option.some.inj hstep
    refine h.same rfl rfl rfl fun i nonce payload => ⟨?_, ?_⟩
    · intro hcase
      obtain ⟨recv, hi, hstage⟩ := hcase
      obtain hold | ⟨-, rfl⟩ := append_cases hi
      · exact ⟨recv, hold, hstage⟩
      · cases hstage
    · intro hcase
      obtain ⟨recv, hi, hstage⟩ := hcase
      exact ⟨recv, append_get hi, hstage⟩
  | receive i incoming =>
    obtain ⟨-, hstep⟩ := Option.ite_none_right_eq_some.mp hstep
    exact h.wake (by simp) hstep
  | recvFails i => exact h.wake (by simp) hstep
  | cancel i => exact h.wake (by simp) hstep
  | decrypt i =>
    obtain ⟨recv, hrecv, hstep⟩ := Option.bind_eq_some_iff.mp hstep
    cases hstage : recv.stage with
    | holding incoming =>
      rw [hstage] at hstep
      obtain rfl := Option.some.inj hstep
      exact h.decrypt hrecv hstage hauth
    | _ =>
      rw [hstage] at hstep
      cases hstep

theorem counted_run (h : Steps (Channel.step crypto) (Authentic crypto) .start s) :
    Counted crypto s :=
  h.invariant Counted.start fun hcounted hauth hstep => hcounted.step hauth hstep

theorem Counted.nonce_toNat (h : Counted crypto s) (hsends : s.sends.length < 2^64) {j : Nat}
    {send : Send} (hj : s.sends[j]? = some send) : send.nonce.toNat = j := by
  have hlt := lt_of_get hj
  rw [h.numbered j send hj]
  exact UInt64.toNat_ofNat_of_lt' (Nat.lt_trans hlt hsends)

theorem Counted.nonces_nodup (h : Counted crypto s) (hsends : s.sends.length < 2^64) :
    (s.sends.map Send.nonce).Nodup := by
  rw [List.nodup_iff_getElem?_ne_getElem?]
  intro j k hjk hk heq
  rw [List.length_map] at hk
  have hj := List.getElem?_eq_getElem (Nat.lt_trans hjk hk)
  have hk' := List.getElem?_eq_getElem hk
  simp only [List.getElem?_map, hj, hk', Option.map_some, Option.some.injEq] at heq
  have hnj := h.nonce_toNat hsends hj
  have hnk := h.nonce_toNat hsends hk'
  rw [heq, hnk] at hnj
  omega

def Channel.origin (s : Channel) (i : Nat) : Nat :=
  match s.recvs[i]?.map Recv.stage with
  | some (.returned nonce _) => nonce.toNat
  | _ => 0

theorem Channel.Returned.origin {i : Nat} {nonce : UInt64} {payload : Bytes}
    (h : s.Returned i nonce payload) : s.origin i = nonce.toNat := by
  obtain ⟨recv, hi, hstage⟩ := h
  simp [Channel.origin, hi, hstage]

end Run

structure Delivers (crypto : Crypto) (s : Channel) : Prop where
  /-- No two sends share a nonce. -/
  nonces : (s.sends.map Send.nonce).Nodup
  /-- What a `recv` returned is the buffer of a send, of another one for every `recv`. -/
  origin : ∃ origin : Nat → Nat,
    (∀ i nonce payload, s.Returned i nonce payload →
      ∃ send : Send, s.sends[origin i]? = some send ∧ send.buf = payload) ∧
    ∀ i i' nonce nonce' payload payload', s.Returned i nonce payload →
      s.Returned i' nonce' payload' → origin i = origin i' → i = i'
  /-- A datagram that does not decrypt marks nothing. -/
  unmarked : ∀ (i : Nat) (recv : Recv) (incoming : Bytes) (s' : Channel),
    s.recvs[i]? = some recv → recv.stage = .holding incoming →
    crypto.readMessage (nonceOf incoming) (messageOf incoming) = none →
    s.step crypto (.decrypt i) = some s' → s'.nonceIncoming = s.nonceIncoming
  /-- A datagram that was sent is accepted by a `recv` with room for it, unless
  its nonce was returned before. -/
  accepted : ∀ (i j : Nat) (recv : Recv) (send : Send) (message : Bytes),
    s.sends[j]? = some send → send.message = some message → s.recvs[i]? = some recv →
    recv.stage = .holding (datagram send.nonce message) → send.buf.length ≤ recv.size →
    (∀ i' payload, ¬s.Returned i' send.nonce payload) →
    ∃ s', s.step crypto (.decrypt i) = some s' ∧ s'.Returned i send.nonce send.buf

/-- Over any network and in any order of steps, while the counter has not come
round. -/
theorem authentic_delivery (crypto : Crypto) (s : Channel)
    (h : Steps (Channel.step crypto) (Authentic crypto) .start s)
    (hsends : s.sends.length < 2^64) : Delivers crypto s := by
  have hcounted := counted_run h
  refine ⟨hcounted.nonces_nodup hsends, ⟨s.origin, ?_, ?_⟩, ?_, ?_⟩
  · intro i nonce payload hi
    obtain ⟨j, send, hj, hnonce, hbuf⟩ := hcounted.origin i nonce payload hi
    refine ⟨send, ?_, hbuf⟩
    rw [hi.origin, ← hnonce, hcounted.nonce_toNat hsends hj, hj]
  · intro i i' nonce nonce' payload payload' hi hi' heq
    rw [hi.origin, hi'.origin] at heq
    obtain rfl := UInt64.toNat_inj.mp heq
    exact hcounted.once i i' nonce payload payload' hi hi'
  · intro i recv incoming s' hrecv hholding hread hstep
    obtain rfl := Option.some.inj ((decrypt_step hrecv hholding).symm.trans hstep)
    obtain heq | ⟨payload, -, hdecrypt, -⟩ := decrypt_cases crypto s i recv incoming
    · rw [heq]
    · rw [hread] at hdecrypt
      cases hdecrypt
  · intro i j recv send message hj hmessage hrecv hholding hsize hunreturned
    have hopens := crypto.opens _ _ _ (hcounted.sealed j send message hj hmessage)
    have hnew : nonceOf (datagram send.nonce message) ∉ s.nonceIncoming := by
      rw [nonceOf_datagram, hcounted.seen]
      intro hcase
      obtain ⟨i', payload, hi'⟩ := hcase
      exact hunreturned i' payload hi'
    have hread : crypto.readMessage (nonceOf (datagram send.nonce message))
        (messageOf (datagram send.nonce message)) = some send.buf := by
      rw [nonceOf_datagram, messageOf_datagram, hopens]
    refine ⟨_, decrypt_step hrecv hholding, ?_⟩
    rw [decrypt_accepts hnew hread hsize, nonceOf_datagram]
    exact ⟨_, set_get_self hrecv, rfl⟩

def checked : Crypto where
  writeMessage nonce payload := some (payload ++ List.replicate 16 nonce.toUInt8)
  readMessage nonce message :=
    let payload := message.take (message.length - 16)
    if message = payload ++ List.replicate 16 nonce.toUInt8 then some payload else none
  overhead nonce payload message h := by
    obtain rfl := Option.some.inj h
    rw [List.length_append, List.length_replicate]
  opens nonce payload message h := by
    obtain rfl := Option.some.inj h
    simp

def authentic (crypto : Crypto) (s : Channel) : Action → Bool
  | .decrypt i =>
    match s.recvs[i]?.map Recv.stage with
    | some (.holding incoming) =>
      (crypto.readMessage (nonceOf incoming) (messageOf incoming)).isNone ||
        s.sends.any fun send => send.nonce = nonceOf incoming ∧
          send.message = some (messageOf incoming)
    | _ => true
  | _ => true

theorem authentic_of_check {crypto : Crypto} {s : Channel} {a : Action}
    (h : authentic crypto s a = true) : Authentic crypto s a := by
  cases a with
  | decrypt i =>
    intro recv incoming payload hrecv hholding hread
    simp only [authentic, hrecv, Option.map_some, hholding, hread, Option.isNone_some,
      Bool.false_or, List.any_eq_true, decide_eq_true_eq] at h
    exact h
  | _ => trivial

def forged : List Action :=
  [.sendWith [7], .send 0 .encrypt, .recv 4, .receive 0 (List.replicate 8 0 ++ List.replicate 17 9),
    .decrypt 0, .receive 0 (List.replicate 8 0 ++ 7 :: List.replicate 16 0), .decrypt 0, .recv 4,
    .receive 1 (List.replicate 8 0 ++ 7 :: List.replicate 16 0), .decrypt 1]

theorem authentic_delivery_forged :
    ∃ s, exec (guarded (Channel.step checked) (authentic checked)) .start forged = some s ∧
      s.recvs = [⟨4, .returned 0 [7]⟩, ⟨4, .waiting⟩] ∧ Delivers checked s := by
  have hrun : (exec (guarded (Channel.step checked) (authentic checked)) .start forged).map
      (fun s => (s.recvs, s.sends.length)) = some ([⟨4, .returned 0 [7]⟩, ⟨4, .waiting⟩], 1) := by
    decide
  obtain ⟨s, hs, hview⟩ := Option.map_eq_some_iff.mp hrun
  obtain ⟨hrecvs, hlen⟩ := Prod.mk.inj hview
  have hsteps := (steps_of_exec hs).mono fun _ _ => authentic_of_check
  exact ⟨s, hs, hrecvs, authentic_delivery checked s hsteps (by rw [hlen]; decide)⟩

end NineWire.Transport
