import NineWire.Transport.Receiver

/-! `recv` as its caller's `select!` sees it: a future that waits for the socket
to become readable, and may be dropped there. Between a message that is taken
out of the queue and the end of its `recv` there is no place to wait. -/
namespace NineWire.Transport
open NineWire.Transition
open NineWire.Wire (Bytes)

section Deliveries
variable (crypto : Crypto)

/-- What the messages handed over so far come to: the nonces accepted, and the
payloads of those that had a whole header, a new nonce and a ciphertext that
`read_message` opens into the caller's buffer. -/
def deliver (sofar : Finset UInt64 × List Bytes) (e : Nat × Bytes) : Finset UInt64 × List Bytes :=
  if 8 ≤ e.2.length ∧ nonceOf e.2 ∉ sofar.1 then
    match readInto crypto e.1 (nonceOf e.2) (messageOf e.2) with
    | some payload => (insert (nonceOf e.2) sofar.1, sofar.2 ++ [payload])
    | none => sofar
  else sofar

def deliveries (handed : List (Nat × Bytes)) : Finset UInt64 × List Bytes :=
  handed.foldl (deliver crypto) (∅, [])

def handedOver (dequeued : List Dequeued) : List (Nat × Bytes) :=
  dequeued.map fun e => (e.size, e.incoming)

/-- A message that every buffer for `size` bytes takes whole, or that cannot be
read however it is cut. -/
def Message.Uniform (size : Nat) (d : Message) : Prop :=
  d.bytes.length ≤ size + 24 ∨ ∀ len, size + 24 ≤ len →
    readInto crypto size (nonceOf (d.handed len)) (messageOf (d.handed len)) = none

variable {crypto} {s s' : Receiver} {a : RecvAction}

/-- The loop body does with a message what the law says of what was handed over
of it, whatever lay in the buffer before. -/
theorem deliver_examine (crypto : Crypto) (size : Nat) (accepted : Finset UInt64) (returned : List Bytes)
    (tmp : Bytes) (d : Message) :
    deliver crypto (accepted, returned) (size, d.handed tmp.length) =
      match Transport.examine crypto size accepted (overlay tmp d) (d.handed tmp.length).length with
      | .returns nonce payload => (insert nonce accepted, returned ++ [payload])
      | _ => (accepted, returned) := by
  by_cases hlong : 8 ≤ (d.handed tmp.length).length
  · rw [examine_overlay hlong]
    by_cases hseen : nonceOf (d.handed tmp.length) ∈ accepted
    · simp [deliver, hseen]
    · cases hread : readInto crypto size (nonceOf (d.handed tmp.length))
        (messageOf (d.handed tmp.length)) <;> simp [deliver, hlong, hseen, hread]
  · rw [examine_short (Nat.not_le.mp hlong)]
    by_cases hseen : nonceOf (overlay tmp d) ∈ accepted <;> simp [deliver, hlong, hseen]

theorem deliveries_snoc (earlier : List Dequeued) (e : Dequeued) :
    deliveries crypto (handedOver (earlier ++ [e])) =
      deliver crypto (deliveries crypto (handedOver earlier)) (e.size, e.incoming) := by
  simp [deliveries, handedOver]

theorem deliver_returned (sofar : Finset UInt64 × List Bytes) (e : Nat × Bytes) :
    sofar.2 <+: (deliver crypto sofar e).2 := by
  unfold deliver
  split
  · split
    · exact List.prefix_append _ _
    · exact List.prefix_refl _
  · exact List.prefix_refl _

/-- What is delivered stays delivered. -/
theorem foldl_deliver_returned (handed : List (Nat × Bytes))
    (sofar : Finset UInt64 × List Bytes) :
    sofar.2 <+: (handed.foldl (deliver crypto) sofar).2 := by
  induction handed generalizing sofar with
  | nil => exact List.prefix_refl _
  | cons e handed ih => exact (deliver_returned sofar e).trans (ih _)

theorem deliveries_prefix (crypto : Crypto) {handed handed' : List (Nat × Bytes)} (h : handed <+: handed') :
    (deliveries crypto handed).2 <+: (deliveries crypto handed').2 := by
  obtain ⟨rest, rfl⟩ := h
  rw [deliveries, deliveries, List.foldl_append]
  exact foldl_deliver_returned rest _

/-- A genuine datagram with a new nonce is delivered. -/
theorem deliver_genuine {size len : Nat} {d : Message} {nonce : UInt64} {payload : Bytes}
    (h : Genuine crypto size d nonce payload) (hlen : size + 24 ≤ len)
    (sofar : Finset UInt64 × List Bytes) (hfresh : nonce ∉ sofar.1) :
    deliver crypto sofar (size, d.handed len) = (insert nonce sofar.1, sofar.2 ++ [payload]) := by
  obtain ⟨hlong, hnonce, hread⟩ := h.read
  rw [h.handed_eq hlen, deliver, if_pos ⟨hlong, by simpa only [hnonce] using hfresh⟩]
  simp only [hnonce, hread]

theorem deliver_uniform {size len : Nat} {d : Message} (h : d.Uniform crypto size)
    (hlen : size + 24 ≤ len) (sofar : Finset UInt64 × List Bytes) :
    deliver crypto sofar (size, d.handed len) =
      deliver crypto sofar (size, d.handed (size + 24)) := by
  obtain hwhole | hrefused := h
  · rw [handed_whole hwhole, handed_whole (Nat.le_trans hwhole hlen)]
  · have hnone (len : Nat) (hlen : size + 24 ≤ len) :
        deliver crypto sofar (size, d.handed len) = sofar := by
      simp only [deliver, hrefused len hlen, ite_self]
    rw [hnone len hlen, hnone (size + 24) (Nat.le_refl _)]

end Deliveries

section Lawful
variable {crypto : Crypto} {s s' : Receiver} {a : RecvAction}

/-- A message has been taken out of the queue and not been looked at yet: what
was accepted and returned is what came before it. -/
def Receiver.Holding (crypto : Crypto) (s : Receiver) (size : Nat) (tmp' : Bytes) (n : Nat) :
    Prop :=
  ∃ earlier d tmp, s.dequeued = earlier ++ [⟨size, d, d.handed tmp.length⟩] ∧
    tmp' = overlay tmp d ∧ n = (d.handed tmp.length).length ∧
    (s.accepted, s.returned) = deliveries crypto (handedOver earlier)

def Phase.Roomy : Phase → Prop
  | .trying size tmp | .registering size tmp | .retrying size tmp | .awaiting size tmp
  | .received size tmp _ => size + 24 ≤ tmp.length
  | .idle | .panicked => True

def Phase.Receives : Phase → Prop
  | .received _ _ _ => True
  | _ => False

structure Receiver.Lawful (crypto : Crypto) (s : Receiver) : Prop where
  arrivals : s.arrived = s.dequeued.map Dequeued.message ++ s.queue
  roomy : s.phase.Roomy
  handed : ∀ e ∈ s.dequeued, ∃ len, e.size + 24 ≤ len ∧ e.incoming = e.message.handed len
  holding : ∀ {size tmp n}, s.phase = .received size tmp n → s.Holding crypto size tmp n
  settled : ¬s.phase.Receives →
    (s.accepted, s.returned) = deliveries crypto (handedOver s.dequeued)

theorem Receiver.Lawful.handed_snoc (h : s.Lawful crypto) {size : Nat} {tmp : Bytes} (d : Message)
    (hroomy : size + 24 ≤ tmp.length) :
    ∀ e ∈ s.dequeued ++ [⟨size, d, d.handed tmp.length⟩],
      ∃ len, e.size + 24 ≤ len ∧ e.incoming = e.message.handed len := by
  intro e he
  obtain he | he := List.mem_append.mp he
  · exact h.handed e he
  · obtain rfl := List.mem_singleton.mp he
    exact ⟨_, hroomy, rfl⟩

theorem Receiver.Lawful.arrivals_snoc (h : s.Lawful crypto) {d : Message} {rest : List Message}
    (hqueue : s.queue = d :: rest) (size : Nat) (incoming : Bytes) :
    s.arrived =
      (s.dequeued ++ [(⟨size, d, incoming⟩ : Dequeued)]).map Dequeued.message ++ rest := by
  rw [h.arrivals, hqueue]
  simp

theorem Phase.Tries.roomy {size : Nat} {tmp : Bytes} {phase next : Phase}
    (h : Phase.Tries size tmp phase next) (hroomy : phase.Roomy) :
    size + 24 ≤ tmp.length ∧ ¬phase.Receives := by
  cases h with
  | first => exact ⟨hroomy, id⟩
  | second => exact ⟨hroomy, id⟩

/-- Where a try leads that gets nothing, no message is held. -/
theorem Blocked.roomy {link : Link} {size : Nat} {tmp : Bytes} {phase next phase' : Phase}
    (h : Blocked link next phase') (htries : Phase.Tries size tmp phase next)
    (hroomy : phase.Roomy) : phase'.Roomy ∧ ¬phase'.Receives := by
  obtain rfl | ⟨-, rfl⟩ := h
  · cases htries with
    | first => exact ⟨hroomy, id⟩
    | second => exact ⟨hroomy, id⟩
  · exact ⟨trivial, id⟩

theorem Receiver.Lawful.moves (h : s.Lawful crypto) (phase : Phase) (signalled : Bool)
    (hbefore : ¬s.phase.Receives) (hroomy : phase.Roomy) (hafter : ¬phase.Receives) :
    ({ s with phase, signalled } : Receiver).Lawful crypto where
  arrivals := h.arrivals
  roomy := hroomy
  handed := h.handed
  holding hphase := by
    simp only at hphase
    exact (hafter (hphase ▸ trivial)).elim
  settled _ := h.settled hbefore

theorem Receiver.Lawful.examine {size n : Nat} {tmp : Bytes} (h : s.Lawful crypto)
    (hphase : s.phase = .received size tmp n) : (s.examine crypto size tmp n).Lawful crypto := by
  obtain ⟨earlier, d, tmp, hdequeued, rfl, rfl, haccounts⟩ := h.holding hphase
  have hroomy := h.roomy
  rw [hphase] at hroomy
  have hdeliver := deliver_examine crypto size s.accepted s.returned tmp d
  rw [haccounts] at hdeliver
  unfold Receiver.examine
  cases hverdict : Transport.examine crypto size s.accepted (overlay tmp d)
      (d.handed tmp.length).length with
  | returns nonce payload =>
    refine ⟨h.arrivals, trivial, h.handed, nofun, fun _ => ?_⟩
    simp only [hverdict] at hdeliver
    rw [hdequeued, deliveries_snoc, hdeliver]
  | panics =>
    refine ⟨h.arrivals, trivial, h.handed, nofun, fun _ => ?_⟩
    simp only [hverdict] at hdeliver
    rw [hdequeued, deliveries_snoc, hdeliver, haccounts]
  | _ =>
    refine ⟨h.arrivals, hroomy, h.handed, nofun, fun _ => ?_⟩
    simp only [hverdict] at hdeliver
    rw [hdequeued, deliveries_snoc, hdeliver, haccounts]

theorem lawful_step (h : s.Lawful crypto) (hstep : s.step crypto a = some s') :
    s'.Lawful crypto := by
  have hroomy := h.roomy
  cases receiver_cases hstep with
  | @arrive ds =>
    refine ⟨?_, h.roomy, h.handed, fun hphase => h.holding hphase, h.settled⟩
    rw [h.arrivals, List.append_assoc]
  | event hdue => exact ⟨h.arrivals, h.roomy, h.handed, fun hphase => h.holding hphase, h.settled⟩
  | @recv size pooled hphase =>
    have hbefore : ¬s.phase.Receives := by
      obtain hidle | hpanicked := hphase
      · exact hidle ▸ id
      · exact hpanicked ▸ id
    exact h.moves (.trying size (prepare pooled size)) s.signalled hbefore
      (prepare_length pooled size) id
  | blocked htries hqueue hblocked =>
    obtain ⟨hroomy', hafter⟩ := hblocked.roomy htries hroomy
    exact h.moves _ s.signalled (htries.roomy hroomy).2 hroomy' hafter
  | @empty link size tmp next phase d rest htries hqueue hempty hblocked =>
    obtain ⟨hlen, hbefore⟩ := htries.roomy hroomy
    obtain ⟨hroomy', hafter⟩ := hblocked.roomy htries hroomy
    refine ⟨h.arrivals_snoc hqueue size _, hroomy', h.handed_snoc d hlen, fun hphase => ?_,
      fun _ => ?_⟩
    · simp only at hphase
      exact (hafter (hphase ▸ trivial)).elim
    · rw [deliveries_snoc, ← h.settled hbefore, deliver, if_neg]
      intro hnew
      obtain ⟨hlong, -⟩ := hnew
      simp only [hempty] at hlong
      omega
  | @received link size tmp next d rest htries hqueue hsome =>
    obtain ⟨hlen, hbefore⟩ := htries.roomy hroomy
    refine ⟨h.arrivals_snoc hqueue size _, by simpa [Phase.Roomy] using hlen,
      h.handed_snoc d hlen, fun hphase => ?_, fun hafter => (hafter trivial).elim⟩
    cases hphase
    exact ⟨s.dequeued, d, tmp, rfl, rfl, rfl, h.settled hbefore⟩
  | @register link size tmp hphase =>
    rw [hphase] at hroomy
    exact h.moves (.retrying size tmp) false (hphase ▸ id) hroomy id
  | unregistered hphase => exact h.moves .panicked s.signalled (hphase ▸ id) trivial id
  | examine hphase => exact h.examine hphase
  | @wake size tmp hphase hsignalled =>
    rw [hphase] at hroomy
    exact h.moves (.trying size tmp) false (hphase ▸ id) hroomy id
  | drop hphase => exact h.moves .idle s.signalled (hphase ▸ id) trivial id

theorem reaches_lawful (h : Reaches (Receiver.step crypto) .start s) : s.Lawful crypto := by
  have hstart : Receiver.start.Lawful crypto := ⟨rfl, trivial, nofun, nofun, fun _ => rfl⟩
  exact h.invariant hstart fun hlawful _ hstep => lawful_step hlawful hstep

/-- Nothing is between a queue and its caller: no `recv` is running, or the one
that is waits. -/
def Receiver.Suspended (s : Receiver) : Prop :=
  s.phase = .idle ∨ ∃ size tmp, s.phase = .awaiting size tmp

theorem Receiver.Lawful.suspended (h : s.Lawful crypto) (hsuspended : s.Suspended) :
    (s.accepted, s.returned) = deliveries crypto (handedOver s.dequeued) := by
  refine h.settled ?_
  obtain hidle | ⟨size, tmp, hawaiting⟩ := hsuspended
  · exact hidle ▸ id
  · exact hawaiting ▸ id

/-- Into buffers for `size` bytes, what was handed over is what the messages come
to, in whatever buffers they came. -/
theorem Receiver.Lawful.deliveries_eq (h : s.Lawful crypto) {size : Nat}
    (hsize : ∀ e ∈ s.dequeued, e.size = size) (huniform : ∀ d ∈ s.arrived, d.Uniform crypto size) :
    deliveries crypto (handedOver s.dequeued) =
      deliveries crypto ((s.dequeued.map Dequeued.message).map fun d =>
        (size, d.handed (size + 24))) := by
  have hall : ∀ (before : List Dequeued), before <+: s.dequeued →
      deliveries crypto (handedOver before) =
        deliveries crypto ((before.map Dequeued.message).map fun d =>
          (size, d.handed (size + 24))) := by
    intro before hbefore
    induction before using List.reverseRecOn with
    | nil => rfl
    | append_singleton before e ih =>
      have he : e ∈ s.dequeued := hbefore.subset (by simp)
      obtain ⟨len, hlen, hincoming⟩ := h.handed e he
      obtain rfl := hsize e he
      have hmessage : e.message.Uniform crypto e.size := by
        refine huniform _ ?_
        rw [h.arrivals]
        exact List.mem_append_left _ (List.mem_map_of_mem he)
      rw [deliveries_snoc, ih ((List.prefix_append _ _).trans hbefore), hincoming,
        deliver_uniform hmessage hlen]
      simp [deliveries]
  exact hall s.dequeued (List.prefix_refl _)

end Lawful

/-- Whenever a `recv` waits, every genuine datagram with a new nonce that was
taken out of the queue has been returned, at its place; and what has arrived was
taken out or is in the queue still. So a run that was handed a part of what
another was returns a part of what the other does; and with one length of buffer,
so does a run at which a part arrived of what arrived at another that has emptied
its queue, whatever futures were dropped on the way in either. -/
theorem recv_cancel_safe (crypto : Crypto) :
    (∀ s, Reaches (Receiver.step crypto) .start s →
      s.arrived = s.dequeued.map Dequeued.message ++ s.queue) ∧
    (∀ s, Reaches (Receiver.step crypto) .start s → s.Suspended →
      ∀ before e after nonce payload, s.dequeued = before ++ e :: after →
        Genuine crypto e.size e.message nonce payload →
        nonce ∉ (deliveries crypto (handedOver before)).1 →
        (deliveries crypto (handedOver before)).2 ++ [payload] <+: s.returned) ∧
    (∀ s s', Reaches (Receiver.step crypto) .start s → Reaches (Receiver.step crypto) .start s' →
      s.Suspended → s'.Suspended → handedOver s.dequeued <+: handedOver s'.dequeued →
      s.returned <+: s'.returned) ∧
    (∀ size s s', Reaches (Receiver.step crypto) .start s →
      Reaches (Receiver.step crypto) .start s' → s.Suspended → s'.Suspended →
      (∀ e ∈ s.dequeued ++ s'.dequeued, e.size = size) →
      (∀ d ∈ s'.arrived, d.Uniform crypto size) →
      s.arrived <+: s'.arrived → s'.queue = [] →
      s.returned <+: s'.returned ∧
        (s.arrived = s'.arrived → s.queue = [] → s.returned = s'.returned)) := by
  refine ⟨fun s hreach => (reaches_lawful hreach).arrivals, ?_, ?_, ?_⟩
  · intro s hreach hsuspended before e after nonce payload hdequeued hgenuine hfresh
    have hlawful := reaches_lawful hreach
    obtain ⟨len, hlen, hincoming⟩ := hlawful.handed e (by simp [hdequeued])
    have hdeliver := deliver_genuine hgenuine hlen _ hfresh
    rw [← hincoming, ← deliveries_snoc] at hdeliver
    have hprefix : handedOver (before ++ [e]) <+: handedOver s.dequeued := by
      rw [hdequeued, List.append_cons before e after]
      exact (List.prefix_append _ _).map _
    have hreturned := deliveries_prefix crypto hprefix
    rw [hdeliver, ← hlawful.suspended hsuspended] at hreturned
    exact hreturned
  · intro s s' hreach hreach' hsuspended hsuspended' hprefix
    have hreturned := deliveries_prefix crypto hprefix
    rwa [← (reaches_lawful hreach).suspended hsuspended,
      ← (reaches_lawful hreach').suspended hsuspended'] at hreturned
  · intro size s s' hreach hreach' hsuspended hsuspended' hsize huniform harrived hempty
    have hlawful := reaches_lawful hreach
    have hlawful' := reaches_lawful hreach'
    have heq := hlawful.deliveries_eq (fun e he => hsize e (List.mem_append_left _ he))
      fun d hd => huniform d (harrived.subset hd)
    have heq' := hlawful'.deliveries_eq (fun e he => hsize e (List.mem_append_right _ he)) huniform
    rw [← hlawful.suspended hsuspended] at heq
    rw [← hlawful'.suspended hsuspended'] at heq'
    have hall' : s'.arrived = s'.dequeued.map Dequeued.message := by
      rw [hlawful'.arrivals, hempty, List.append_nil]
    refine ⟨?_, fun hsame hnone => ?_⟩
    · have hmessages : s.dequeued.map Dequeued.message <+: s'.dequeued.map Dequeued.message := by
        rw [← hall']
        exact (hlawful.arrivals ▸ List.prefix_append _ _ :
          s.dequeued.map Dequeued.message <+: s.arrived).trans harrived
      have hreturned := deliveries_prefix crypto (hmessages.map fun d => (size, d.handed (size + 24)))
      rwa [← heq, ← heq'] at hreturned
    · have hall : s.arrived = s.dequeued.map Dequeued.message := by
        rw [hlawful.arrivals, hnone, List.append_nil]
      rw [← hall, hsame, hall', ← heq'] at heq
      exact congrArg Prod.snd heq

def droppedOnce : List RecvAction :=
  [.recv 4 none, .tryRecv .connected, .register .connected, .tryRecv .connected, .drop,
    .arrive [second], .recv 4 (some [9]), .tryRecv .connected, .examine]

theorem recv_cancel_safe_dropped : ∃ s,
    exec (Receiver.step checked) .start droppedOnce = some s ∧ [[7]] <+: s.returned := by
  obtain ⟨s, hexec, hphase, hdequeued⟩ : ∃ s,
      exec (Receiver.step checked) .start droppedOnce = some s ∧ s.phase = .idle ∧
        s.dequeued = [⟨4, second, second.bytes⟩] := ⟨_, rfl, rfl, rfl⟩
  refine ⟨s, hexec, ?_⟩
  exact (recv_cancel_safe checked).2.1 s (reaches_of_exec hexec) (.inl hphase) [] _ [] 1 [7]
    hdequeued second_genuine (Finset.notMem_empty 1)

end NineWire.Transport
