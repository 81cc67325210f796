import Mathlib.Data.List.Chain
import NineWire.Transport.Receiver

/-! `recv` among malformed datagrams. It throws them away, unless a short one
completes a new nonce out of older bytes of the buffer, or an empty one takes the
place of the message that the call would have gone on with. -/
namespace NineWire.Transport
open NineWire.Transition
open NineWire.Wire (Bytes)

/-- What a `recv` does, and what happens to it, while it is left alone on a
connection that lives. -/
def RecvAction.Undisturbed : RecvAction → Prop
  | .arrive _ | .event | .examine | .wake => True
  | .tryRecv link | .register link => link = .connected
  | .recv _ _ | .drop => False

def RecvAction.IsArrival : RecvAction → Prop
  | .arrive _ => True
  | _ => False

def Receiver.called (accepted : Finset UInt64) (size : Nat) (tmp : Bytes) : Receiver where
  accepted := accepted
  queue := []
  phase := .trying size tmp
  due := 0
  signalled := false
  arrived := []
  dequeued := []
  returned := []

def Receiver.Still (crypto : Crypto) (s : Receiver) : Prop :=
  ∀ a : RecvAction, a.Undisturbed → ¬a.IsArrival → s.step crypto a = none

/-- How far a `recv` gets with the messages that are queued: it waits, with what
is still queued, panics or returns. -/
inductive Outcome where
  | waiting (tmp : Bytes) (rest : List Message)
  | panicked
  | returned (payload : Bytes) (accepted : Finset UInt64) (rest : List Message)

/-- Nothing that can be accepted: too short for a nonce, a nonce that was
accepted before, or a ciphertext that `read_message` refuses. -/
def Malformed (crypto : Crypto) (size : Nat) (accepted : Finset UInt64) (incoming : Bytes) : Prop :=
  incoming.length < 8 ∨ nonceOf incoming ∈ accepted ∨
    readInto crypto size (nonceOf incoming) (messageOf incoming) = none

/-- Where a datagram of one to seven bytes completes a nonce out of older bytes
of the buffer, that nonce was accepted before. -/
def StaleNoncesAccepted (accepted : Finset UInt64) (tmp : Bytes) (ds : List Message) : Prop :=
  ∀ before d after, ds = before ++ d :: after → 0 < d.bytes.length → d.bytes.length < 8 →
    nonceOf (overlay (before.foldl overlay tmp) d) ∈ accepted

section Recv
variable (crypto : Crypto) (size : Nat)

/-- The loops of `recv` along messages that are all queued when it is called.
An empty one is taken for a queue with nothing in it: once it makes a waiter,
and twice it waits. -/
def recvFrom (accepted : Finset UInt64) : Bool → Bytes → List Message → Outcome
  | _, tmp, [] => .waiting tmp []
  | registered, tmp, d :: ds =>
    if (d.handed tmp.length).length = 0 then
      if registered then .waiting tmp ds else recvFrom accepted true tmp ds
    else
      match examine crypto size accepted (overlay tmp d) (d.handed tmp.length).length with
      | .duplicate | .undecryptable => recvFrom accepted false (overlay tmp d) ds
      | .panics => .panicked
      | .returns nonce payload => .returned payload (insert nonce accepted) ds

/-- Whenever they arrive, the datagrams `ds` are thrown away, and a genuine one
behind them comes through. -/
structure Harmless (accepted : Finset UInt64) (tmp : Bytes) (ds : List Message) (d : Message)
    (nonce : UInt64) (payload : Bytes) : Prop where
  discards : ∀ s, Steps (Receiver.step crypto) (fun _ a => a.Undisturbed)
    (.called accepted size tmp) s → s.arrived <+: ds →
      s.phase ≠ .idle ∧ s.phase ≠ .panicked ∧ s.accepted = accepted ∧ s.returned = []
  delivers : ∀ s rest, Steps (Receiver.step crypto) (fun _ a => a.Undisturbed)
    (.called accepted size tmp) s → s.arrived = ds ++ d :: rest → s.Still crypto →
      s.phase = .idle ∧ s.accepted = insert nonce accepted ∧ s.returned = [payload]

structure HarmlessQueued (accepted : Finset UInt64) (tmp : Bytes) (ds : List Message) (d : Message)
    (nonce : UInt64) (payload : Bytes) : Prop where
  waits : ∃ tmp', recvFrom crypto size accepted false tmp ds = .waiting tmp' []
  delivers : ∀ rest, recvFrom crypto size accepted false tmp (ds ++ d :: rest) =
    .returned payload (insert nonce accepted) rest

end Recv

section Verdicts
variable {crypto : Crypto} {size : Nat} {accepted : Finset UInt64} {tmp : Bytes} {d : Message}
  {ds : List Message} {nonce : UInt64} {payload : Bytes}

theorem handed_short (htmp : 8 ≤ tmp.length) :
    (d.handed tmp.length).length < 8 ↔ d.bytes.length < 8 := by
  rw [handed_length, i32Max]
  omega

theorem handed_empty (htmp : 0 < tmp.length) :
    (d.handed tmp.length).length = 0 ↔ d.bytes = [] := by
  rw [handed_length, i32Max, ← List.length_eq_zero_iff]
  omega

theorem examine_genuine (h : Genuine crypto size d nonce payload) (hfresh : nonce ∉ accepted)
    (htmp : size + 24 ≤ tmp.length) :
    examine crypto size accepted (overlay tmp d) (d.handed tmp.length).length =
      .returns nonce payload := by
  obtain ⟨hlen, hnonce, hread⟩ := h.read
  have hhanded := h.handed_eq htmp
  rw [examine_overlay (by rw [hhanded]; exact hlen), hhanded, hnonce, if_neg hfresh, hread]

def Verdict.Discards (verdict : Verdict) : Prop := verdict = .duplicate ∨ verdict = .undecryptable

theorem examine_malformed (htmp : 8 ≤ tmp.length)
    (h : Malformed crypto size accepted (d.handed tmp.length))
    (hnonce : d.bytes.length < 8 → nonceOf (overlay tmp d) ∈ accepted) :
    (examine crypto size accepted (overlay tmp d) (d.handed tmp.length).length).Discards := by
  by_cases hlong : 8 ≤ (d.handed tmp.length).length
  · rw [examine_overlay hlong]
    by_cases hseen : nonceOf (d.handed tmp.length) ∈ accepted
    · exact .inl (if_pos hseen)
    · have hrefused := (h.resolve_left (Nat.not_lt.mpr hlong)).resolve_left hseen
      rw [if_neg hseen, hrefused]
      exact .inr rfl
  · have hshort := Nat.not_le.mp hlong
    rw [examine_short hshort]
    exact .inl (if_pos (hnonce ((handed_short htmp).mp hshort)))

theorem overlay_empty (h : (d.handed tmp.length).length = 0) : overlay tmp d = tmp := by
  rw [overlay, h, List.length_eq_zero_iff.mp h, List.nil_append, List.drop_zero]

theorem foldl_overlay_length (ds : List Message) (tmp : Bytes) :
    (ds.foldl overlay tmp).length = tmp.length := by
  induction ds generalizing tmp with
  | nil => rfl
  | cons d ds ih => rw [List.foldl_cons, ih, overlay_length]

theorem staleNoncesAccepted_cons : StaleNoncesAccepted accepted tmp (d :: ds) ↔
    (0 < d.bytes.length → d.bytes.length < 8 → nonceOf (overlay tmp d) ∈ accepted) ∧
      StaleNoncesAccepted accepted (overlay tmp d) ds := by
  constructor
  · intro h
    refine ⟨h [] d ds rfl, fun before d' after heq => ?_⟩
    exact h (d :: before) d' after (by rw [heq, List.cons_append])
  · rintro ⟨hhead, htail⟩ before d' after heq
    cases before with
    | nil =>
      obtain ⟨rfl, -⟩ := List.cons.inj heq
      exact hhead
    | cons d₀ before =>
      obtain ⟨rfl, hds⟩ := List.cons.inj heq
      exact htail before d' after hds

end Verdicts

section Queued
variable {crypto : Crypto} {size : Nat} {accepted : Finset UInt64} {tmp : Bytes} {d : Message}
  {ds : List Message} {nonce : UInt64} {payload : Bytes} {registered : Bool}

def Message.Apart (d d' : Message) : Prop := d.bytes ≠ [] ∨ d'.bytes ≠ []

def Spaced (registered : Bool) (ds : List Message) : Prop :=
  (registered → ∀ d ∈ ds.head?, d.bytes ≠ []) ∧ ds.IsChain Message.Apart

theorem spaced_cons_empty (hempty : d.bytes = []) :
    Spaced registered (d :: ds) ↔ registered = false ∧ Spaced true ds := by
  have hhead : (registered → ∀ d' ∈ (d :: ds).head?, d'.bytes ≠ []) ↔ registered = false := by
    simp [hempty]
  rw [Spaced, hhead, List.isChain_cons, Spaced]
  simp [Message.Apart, hempty]

theorem spaced_cons_some (hsome : d.bytes ≠ []) :
    Spaced registered (d :: ds) ↔ Spaced false ds := by
  rw [Spaced, List.isChain_cons, Spaced]
  simp [Message.Apart, hsome]

theorem recvFrom_discard {rest : List Message} (hsome : (d.handed tmp.length).length ≠ 0)
    (h : (examine crypto size accepted (overlay tmp d) (d.handed tmp.length).length).Discards) :
    recvFrom crypto size accepted registered tmp (d :: rest) =
      recvFrom crypto size accepted false (overlay tmp d) rest := by
  rw [recvFrom, if_neg hsome]
  obtain hdup | hund := h
  · rw [hdup]
  · rw [hund]

/-- Along malformed datagrams a `recv` goes on to what is behind them, or it gets
no further: it waits behind a second empty one, or panics at the first short one
whose nonce is new. -/
theorem recvFrom_malformed (registered : Bool) (htmp : 8 ≤ tmp.length)
    (hbad : ∀ d ∈ ds, Malformed crypto size accepted (d.handed tmp.length)) :
    (StaleNoncesAccepted accepted tmp ds → Spaced registered ds → ∃ registered', ∀ rest,
      recvFrom crypto size accepted registered tmp (ds ++ rest) =
        recvFrom crypto size accepted registered' (ds.foldl overlay tmp) rest) ∧
    (¬(StaleNoncesAccepted accepted tmp ds ∧ Spaced registered ds) → ∀ rest payload accepted' rest',
      recvFrom crypto size accepted registered tmp (ds ++ rest) ≠ .returned payload accepted' rest') := by
  induction ds generalizing tmp registered with
  | nil =>
    refine ⟨fun _ _ => ⟨registered, fun rest => rfl⟩, fun h => (h ?_).elim⟩
    simp [StaleNoncesAccepted, Spaced]
  | cons d ds ih =>
    have htail : ∀ d' ∈ ds, Malformed crypto size accepted (d'.handed (overlay tmp d).length) := by
      intro d' hd'
      rw [overlay_length]
      exact hbad d' (List.mem_cons_of_mem d hd')
    have hlen : 8 ≤ (overlay tmp d).length := by rwa [overlay_length]
    have hsize : 0 < tmp.length := by omega
    rw [staleNoncesAccepted_cons]
    by_cases hempty : d.bytes = []
    · have hhanded := (handed_empty hsize).mpr hempty
      have hsame := overlay_empty hhanded
      have hpos : ¬0 < d.bytes.length := by simp [hempty]
      rw [spaced_cons_empty hempty, List.foldl_cons, hsame]
      rw [hsame] at htail hlen
      cases registered with
      | true =>
        refine ⟨fun _ h => (nomatch h.1), fun _ rest payload accepted' rest' => ?_⟩
        rw [List.cons_append, recvFrom, if_pos hhanded, if_pos rfl]
        nofun
      | false =>
        have hnext (rest : List Message) :
            recvFrom crypto size accepted false tmp (d :: ds ++ rest) =
              recvFrom crypto size accepted true tmp (ds ++ rest) := by
          rw [List.cons_append, recvFrom, if_pos hhanded, if_neg (by decide)]
        simp only [hnext, hpos, false_implies, true_and]
        exact ih true hlen htail
    · have hhanded := mt (handed_empty hsize).mp hempty
      have hpos : 0 < d.bytes.length := List.length_pos_iff.mpr hempty
      rw [spaced_cons_some hempty, List.foldl_cons]
      by_cases hnonce : d.bytes.length < 8 → nonceOf (overlay tmp d) ∈ accepted
      · have hdiscards := examine_malformed htmp (hbad d List.mem_cons_self) hnonce
        have hnext (rest : List Message) :
            recvFrom crypto size accepted registered tmp (d :: ds ++ rest) =
              recvFrom crypto size accepted false (overlay tmp d) (ds ++ rest) :=
          recvFrom_discard hhanded hdiscards
        simp only [hnext, and_iff_right fun _ : 0 < d.bytes.length => hnonce]
        exact ih false hlen htail
      · refine ⟨fun h => (hnonce (h.1 hpos)).elim, fun _ rest payload accepted' rest' => ?_⟩
        simp only [Classical.not_imp] at hnonce
        obtain ⟨hlt, hnew⟩ := hnonce
        rw [List.cons_append, recvFrom, if_neg hhanded,
          examine_short ((handed_short htmp).mpr hlt), if_neg hnew]
        nofun

/-- Of malformed datagrams that are all queued, `recv` stops at none exactly when
the short ones complete no new nonce and no two empty ones come in a row. -/
theorem harmlessQueued_iff (htmp : size + 24 ≤ tmp.length)
    (hbad : ∀ d ∈ ds, Malformed crypto size accepted (d.handed tmp.length))
    (hgenuine : Genuine crypto size d nonce payload) (hfresh : nonce ∉ accepted) :
    HarmlessQueued crypto size accepted tmp ds d nonce payload ↔
      StaleNoncesAccepted accepted tmp ds ∧ ds.IsChain Message.Apart := by
  have hspaced : Spaced false ds ↔ ds.IsChain Message.Apart := by simp [Spaced]
  obtain ⟨hgoes, hstops⟩ := recvFrom_malformed false (by omega) hbad
  rw [← hspaced]
  constructor
  · intro h
    by_contra hnot
    exact hstops hnot _ _ _ _ (h.delivers [])
  · rintro ⟨hstale, hapart⟩
    obtain ⟨registered', hgoes⟩ := hgoes hstale hapart
    refine ⟨⟨ds.foldl overlay tmp, ?_⟩, fun rest => ?_⟩
    · have hnil := hgoes []
      rwa [List.append_nil, recvFrom] at hnil
    · have hsome : (d.handed (ds.foldl overlay tmp).length).length ≠ 0 := by
        rw [foldl_overlay_length, hgenuine.handed_eq htmp]
        have hread := hgenuine.read.1
        omega
      rw [hgoes, recvFrom, if_neg hsome,
        examine_genuine hgenuine hfresh (by rwa [foldl_overlay_length])]

def Receiver.After (s : Receiver) (size : Nat) (s' : Receiver) : Outcome → Prop
  | .waiting tmp rest =>
    s'.phase = .awaiting size tmp ∧ s'.queue = rest ∧ s'.signalled = false ∧
      s'.accepted = s.accepted ∧ s'.returned = s.returned
  | .panicked => s'.phase = .panicked ∧ s'.accepted = s.accepted ∧ s'.returned = s.returned
  | .returned payload accepted rest =>
    s'.phase = .idle ∧ s'.queue = rest ∧ s'.accepted = accepted ∧
      s'.returned = s.returned ++ [payload]

def Phase.before (registered : Bool) (size : Nat) (tmp : Bytes) : Phase :=
  if registered then .retrying size tmp else .trying size tmp

/-- The loops of `recvFrom` are a run of the receiver, to which nothing arrives. -/
theorem recvFrom_run (crypto : Crypto) {s : Receiver}
    (hphase : s.phase = .before registered size tmp)
    (hsignalled : registered → s.signalled = false) :
    ∃ s', Steps (Receiver.step crypto) (fun _ a => a.Undisturbed) s s' ∧
      s'.arrived = s.arrived ∧ s'.due = s.due ∧
      s.After size s' (recvFrom crypto size s.accepted registered tmp s.queue) := by
  obtain ⟨accepted, queue, phase, due, signalled, arrived, dequeued, returned⟩ := s
  obtain rfl : phase = .before registered size tmp := hphase
  simp only at hsignalled ⊢
  induction queue generalizing tmp registered signalled dequeued with
  | nil =>
    let s : Receiver := ⟨accepted, [], .retrying size tmp, due, false, arrived, dequeued, returned⟩
    have hwaits : Steps (Receiver.step crypto) (fun _ a => a.Undisturbed) s
        { s with phase := .awaiting size tmp } := .tail (.tryRecv .connected) .refl rfl rfl
    cases registered with
    | true =>
      obtain rfl := hsignalled rfl
      exact ⟨_, hwaits, rfl, rfl, rfl, rfl, rfl, rfl, rfl⟩
    | false =>
      have hregisters : Steps (Receiver.step crypto) (fun _ a => a.Undisturbed)
          ⟨accepted, [], .trying size tmp, due, signalled, arrived, dequeued, returned⟩ s :=
        .tail (.register .connected) (.tail (.tryRecv .connected) .refl rfl rfl) rfl rfl
      exact ⟨_, hregisters.trans hwaits, rfl, rfl, rfl, rfl, rfl, rfl, rfl⟩
  | cons d rest ih =>
    let s : Receiver :=
      ⟨accepted, d :: rest, .before registered size tmp, due, signalled, arrived, dequeued, returned⟩
    let e : Dequeued := ⟨size, d, d.handed tmp.length⟩
    by_cases hempty : (d.handed tmp.length).length = 0
    · rw [recvFrom, if_pos hempty]
      let t (phase : Phase) : Receiver :=
        ⟨accepted, rest, phase, due, signalled, arrived, dequeued ++ [e], returned⟩
      cases registered with
      | true =>
        obtain rfl := hsignalled rfl
        have htry : s.step crypto (.tryRecv .connected) = some (t (.awaiting size tmp)) := by
          simp [Receiver.step, Receiver.tryRecv, Receiver.wouldBlock, Phase.before, hempty, s, t, e]
        exact ⟨_, .tail (.tryRecv .connected) .refl rfl htry, rfl, rfl, rfl, rfl, rfl, rfl, rfl⟩
      | false =>
        have htry : s.step crypto (.tryRecv .connected) = some (t (.registering size tmp)) := by
          simp [Receiver.step, Receiver.tryRecv, Receiver.wouldBlock, Phase.before, hempty, s, t, e]
        have hregisters : Steps (Receiver.step crypto) (fun _ a => a.Undisturbed) s
            { t (.retrying size tmp) with signalled := false } :=
          .tail (.register .connected) (.tail (.tryRecv .connected) .refl rfl htry) rfl rfl
        obtain ⟨s', hrun, hafter⟩ := @ih tmp true false (dequeued ++ [e]) fun _ => rfl
        exact ⟨s', hregisters.trans hrun, hafter⟩
    · rw [recvFrom, if_neg hempty]
      let t : Receiver := { s with
        queue := rest
        dequeued := dequeued ++ [e]
        phase := .received size (overlay tmp d) (d.handed tmp.length).length }
      have htry : s.step crypto (.tryRecv .connected) = some t := by
        cases registered <;> simp [Receiver.step, Receiver.tryRecv, Phase.before, hempty, s, t, e]
      have hexamine : Steps (Receiver.step crypto) (fun _ a => a.Undisturbed) s
          (t.examine crypto size (overlay tmp d) (d.handed tmp.length).length) :=
        .tail .examine (.tail (.tryRecv .connected) .refl rfl htry) trivial rfl
      unfold Receiver.examine at hexamine
      cases hverdict : examine crypto size accepted (overlay tmp d) (d.handed tmp.length).length with
      | panics =>
        simp only [t, s, hverdict] at hexamine
        exact ⟨_, hexamine, rfl, rfl, rfl, rfl, rfl⟩
      | returns nonce payload =>
        simp only [t, s, hverdict] at hexamine
        exact ⟨_, hexamine, rfl, rfl, rfl, rfl, rfl, rfl⟩
      | _ =>
        simp only [t, s, hverdict] at hexamine
        obtain ⟨s', hrun, hafter⟩ := @ih (overlay tmp d) false signalled (dequeued ++ [e]) (by simp)
        exact ⟨s', hexamine.trans hrun, hafter⟩

end Queued

section Schedules
variable {crypto : Crypto} {size : Nat} {accepted : Finset UInt64} {tmp : Bytes} {d : Message}
  {ds rest : List Message} {nonce : UInt64} {payload : Bytes} {s s' : Receiver} {a : RecvAction}

structure Benign (crypto : Crypto) (size : Nat) (accepted : Finset UInt64) (tmp : Bytes)
    (ds : List Message) (d : Message) (nonce : UInt64) (payload : Bytes) : Prop where
  roomy : size + 24 ≤ tmp.length
  malformed : ∀ d ∈ ds, Malformed crypto size accepted (d.handed tmp.length)
  stale : StaleNoncesAccepted accepted tmp ds
  nonempty : ∀ d ∈ ds, d.bytes ≠ []
  genuine : Genuine crypto size d nonce payload
  fresh : nonce ∉ accepted

def Phase.Between (size : Nat) (tmp : Bytes) : Phase → Prop
  | .trying size' tmp' | .registering size' tmp' | .retrying size' tmp' | .awaiting size' tmp' =>
    size' = size ∧ tmp' = tmp
  | _ => False

inductive Receiver.Took (size : Nat) (tmp : Bytes) (ds : List Message) (s : Receiver) : Prop
  | between {before} (hds : before <+: ds) (harrived : s.arrived = before ++ s.queue)
      (hphase : s.phase.Between size (before.foldl overlay tmp))
  | holding {before d} (hds : before <+: ds) (harrived : s.arrived = before ++ d :: s.queue)
      (hphase : s.phase = .received size (overlay (before.foldl overlay tmp) d)
        (d.handed (before.foldl overlay tmp).length).length)

/-- Where a waiter is awaited and the queue is not empty, an event has come since
it was made, or is still to come. -/
def Receiver.Minded (s : Receiver) : Prop :=
  ∀ size tmp, s.phase = .awaiting size tmp → s.queue ≠ [] → s.due ≠ 0 ∨ s.signalled

structure Receiver.Going (accepted : Finset UInt64) (size : Nat) (tmp : Bytes) (ds : List Message)
    (s : Receiver) : Prop where
  accepted : s.accepted = accepted
  returned : s.returned = []
  minded : s.Minded
  took : s.Took size tmp ds

structure Receiver.Done (accepted : Finset UInt64) (ds : List Message) (d : Message)
    (nonce : UInt64) (payload : Bytes) (s : Receiver) : Prop where
  phase : s.phase = .idle
  accepted : s.accepted = insert nonce accepted
  returned : s.returned = [payload]
  arrived : ds ++ [d] <+: s.arrived

theorem Phase.Tries.between {size' : Nat} {tmp' : Bytes} {phase next : Phase}
    (h : Phase.Tries size' tmp' phase next) (hphase : phase.Between size tmp) :
    size' = size ∧ tmp' = tmp ∧ next.Between size tmp := by
  cases h with
  | first => exact ⟨hphase.1, hphase.2, hphase⟩
  | second => exact ⟨hphase.1, hphase.2, hphase⟩

theorem Phase.Tries.not_received {size' n : Nat} {tmp' : Bytes} {phase next : Phase}
    (h : Phase.Tries size' tmp' phase next) : phase ≠ .received size tmp n := by
  cases h <;> nofun

/-- The next message is one of `ds`, or the genuine one behind them. -/
theorem next_message {before queue : List Message} {m : Message} (hds : before <+: ds)
    (h : before ++ m :: queue <+: ds ++ d :: rest) :
    before ++ [m] <+: ds ∨ before = ds ∧ m = d := by
  obtain ⟨after, rfl⟩ := hds
  rw [List.append_assoc, List.prefix_append_right_inj] at h
  cases after with
  | nil =>
    obtain ⟨rfl, -⟩ := List.cons_prefix_cons.mp h
    exact .inr ⟨(List.append_nil before).symm, rfl⟩
  | cons m' after =>
    obtain ⟨rfl, -⟩ := List.cons_prefix_cons.mp h
    exact .inl (by simp)

theorem Benign.discards (h : Benign crypto size accepted tmp ds d nonce payload)
    {before : List Message} {m : Message} (hds : before ++ [m] <+: ds) :
    (examine crypto size accepted (overlay (before.foldl overlay tmp) m)
      (m.handed (before.foldl overlay tmp).length).length).Discards := by
  obtain ⟨after, rfl⟩ := hds
  have hroomy := h.roomy
  have hmem : m ∈ before ++ [m] ++ after := by simp
  refine examine_malformed ?_ ?_ fun hshort => ?_
  · rw [foldl_overlay_length]
    omega
  · rw [foldl_overlay_length]
    exact h.malformed m hmem
  · refine h.stale before m after (by simp) ?_ hshort
    exact List.length_pos_iff.mpr (h.nonempty m hmem)

theorem Benign.next_nonempty (h : Benign crypto size accepted tmp ds d nonce payload)
    {before queue : List Message} {m : Message} (hds : before <+: ds)
    (hnext : before ++ m :: queue <+: ds ++ d :: rest) : m.bytes ≠ [] := by
  obtain hds' | ⟨-, rfl⟩ := next_message hds hnext
  · exact h.nonempty m (hds'.subset (by simp))
  · have hread := h.genuine.read.1
    rintro hempty
    simp [hempty] at hread

/-- The loop body throws a malformed message away, and returns the genuine one. -/
theorem Benign.examine (h : Benign crypto size accepted tmp ds d nonce payload)
    {before : List Message} {m : Message} (hgoing : s.Going accepted size tmp ds)
    (hds : before <+: ds) (harrived : s.arrived = before ++ m :: s.queue)
    (hall : s.arrived <+: ds ++ d :: rest) :
    (s.examine crypto size (overlay (before.foldl overlay tmp) m)
        (m.handed (before.foldl overlay tmp).length).length).Going accepted size tmp ds ∨
      (s.examine crypto size (overlay (before.foldl overlay tmp) m)
        (m.handed (before.foldl overlay tmp).length).length).Done accepted ds d nonce payload := by
  obtain rfl := hgoing.accepted
  unfold Receiver.examine
  obtain hds' | ⟨rfl, rfl⟩ := next_message hds (harrived ▸ hall)
  · have hgoes : ({ s with phase := .trying size (overlay (before.foldl overlay tmp) m) } :
        Receiver).Going s.accepted size tmp ds := by
      refine ⟨rfl, hgoing.returned, nofun, .between hds' ?_ ⟨rfl, ?_⟩⟩
      · rw [harrived]
        simp
      · rw [List.foldl_append]
        rfl
    refine .inl ?_
    obtain hdup | hund := h.discards hds'
    · rw [hdup]
      exact hgoes
    · rw [hund]
      exact hgoes
  · have hroomy : size + 24 ≤ (before.foldl overlay tmp).length := by
      rw [foldl_overlay_length]
      exact h.roomy
    rw [examine_genuine h.genuine h.fresh hroomy]
    refine .inr ⟨rfl, rfl, by simp [hgoing.returned], ?_⟩
    rw [harrived]
    simp

theorem Benign.step (h : Benign crypto size accepted tmp ds d nonce payload)
    (hgoing : s.Going accepted size tmp ds) (hall : s.arrived <+: ds ++ d :: rest)
    (hundisturbed : a.Undisturbed) (hstep : s.step crypto a = some s') :
    s'.Going accepted size tmp ds ∨ s'.Done accepted ds d nonce payload := by
  have hsize : 0 < tmp.length := by
    have hroomy := h.roomy
    omega
  cases receiver_cases hstep with
  | @arrive more =>
    refine .inl ⟨hgoing.accepted, hgoing.returned, fun _ _ _ _ => .inl (Nat.succ_ne_zero _), ?_⟩
    cases hgoing.took with
    | between hds harrived hphase => exact .between hds (by simp [harrived]) hphase
    | holding hds harrived hphase => exact .holding hds (by simp [harrived]) hphase
  | event hdue =>
    refine .inl ⟨hgoing.accepted, hgoing.returned, fun _ _ _ _ => .inr rfl, ?_⟩
    cases hgoing.took with
    | between hds harrived hphase => exact .between hds harrived hphase
    | holding hds harrived hphase => exact .holding hds harrived hphase
  | recv => exact hundisturbed.elim
  | drop => exact hundisturbed.elim
  | unregistered => exact nomatch hundisturbed
  | @blocked link size' tmp' next phase htries hqueue hblocked =>
    obtain rfl : link = .connected := hundisturbed
    have hnone := hqueue.resolve_right (· rfl)
    obtain rfl := hblocked.resolve_right fun h => h.1 rfl
    cases hgoing.took with
    | holding hds harrived hphase => exact (htries.not_received hphase).elim
    | between hds harrived hphase =>
      obtain ⟨-, -, hnext⟩ := htries.between hphase
      exact .inl ⟨hgoing.accepted, hgoing.returned, fun _ _ _ hsome => (hsome hnone).elim,
        .between hds harrived hnext⟩
  | @empty link size' tmp' next phase m queue htries hqueue hempty hblocked =>
    cases hgoing.took with
    | holding hds harrived hphase => exact (htries.not_received hphase).elim
    | between hds harrived hphase =>
      obtain ⟨-, rfl, -⟩ := htries.between hphase
      rw [hqueue] at harrived
      have hnonempty := h.next_nonempty hds (harrived ▸ hall)
      rw [handed_empty (by rwa [foldl_overlay_length])] at hempty
      exact (hnonempty hempty).elim
  | @received link size' tmp' next m queue htries hqueue hsome =>
    cases hgoing.took with
    | holding hds harrived hphase => exact (htries.not_received hphase).elim
    | between hds harrived hphase =>
      obtain ⟨rfl, rfl, -⟩ := htries.between hphase
      rw [hqueue] at harrived
      exact .inl ⟨hgoing.accepted, hgoing.returned, nofun, .holding hds harrived rfl⟩
  | @register link size' tmp' hphase =>
    cases hgoing.took with
    | holding hds harrived hphase' => cases hphase.symm.trans hphase'
    | between hds harrived hphase' =>
      rw [hphase] at hphase'
      exact .inl ⟨hgoing.accepted, hgoing.returned, nofun, .between hds harrived hphase'⟩
  | @wake size' tmp' hphase hsignalled =>
    cases hgoing.took with
    | holding hds harrived hphase' => cases hphase.symm.trans hphase'
    | between hds harrived hphase' =>
      rw [hphase] at hphase'
      exact .inl ⟨hgoing.accepted, hgoing.returned, nofun, .between hds harrived hphase'⟩
  | @examine size' tmp' n hphase =>
    cases hgoing.took with
    | between hds harrived hphase' =>
      rw [hphase] at hphase'
      exact hphase'.elim
    | holding hds harrived hphase' =>
      obtain ⟨rfl, rfl, rfl⟩ := Phase.received.inj (hphase.symm.trans hphase')
      exact h.examine hgoing hds harrived hall

theorem Receiver.Done.step (h : s.Done accepted ds d nonce payload) (hundisturbed : a.Undisturbed)
    (hstep : s.step crypto a = some s') : s'.Done accepted ds d nonce payload := by
  have hphase := h.phase
  cases a with
  | arrive more =>
    cases hstep
    exact ⟨hphase, h.accepted, h.returned, h.arrived.trans (List.prefix_append _ _)⟩
  | event =>
    simp only [Receiver.step] at hstep
    split at hstep <;> cases hstep
    exact ⟨hphase, h.accepted, h.returned, h.arrived⟩
  | recv => exact hundisturbed.elim
  | drop => exact hundisturbed.elim
  | _ => simp [Receiver.step, hphase] at hstep

theorem arrived_step (hstep : s.step crypto a = some s') : s.arrived <+: s'.arrived := by
  cases receiver_cases hstep with
  | arrive => exact List.prefix_append _ _
  | @examine size tmp n hphase =>
    unfold Receiver.examine
    split <;> exact List.prefix_refl _
  | _ => exact List.prefix_refl _

theorem Benign.run (h : Benign crypto size accepted tmp ds d nonce payload) (rest : List Message)
    (hrun : Steps (Receiver.step crypto) (fun _ a => a.Undisturbed) (.called accepted size tmp) s)
    (hall : s.arrived <+: ds ++ d :: rest) :
    s.Going accepted size tmp ds ∨ s.Done accepted ds d nonce payload := by
  let I : Receiver → Prop := fun s => s.arrived <+: ds ++ d :: rest →
    s.Going accepted size tmp ds ∨ s.Done accepted ds d nonce payload
  have hstart : I (.called accepted size tmp) := by
    refine fun _ => .inl ⟨rfl, rfl, nofun, ?_⟩
    exact .between (List.nil_prefix) rfl ⟨rfl, rfl⟩
  refine hrun.invariant (I := I) hstart (fun hI hundisturbed hstep hall => ?_) hall
  have hbefore := (arrived_step hstep).trans hall
  obtain hgoing | hdone := hI hbefore
  · exact h.step hgoing hbefore hundisturbed hstep
  · exact .inr (hdone.step hundisturbed hstep)

/-- A `recv` that has not got the genuine message goes on once it has arrived. -/
theorem Receiver.Going.not_still (h : s.Going accepted size tmp ds)
    (hall : s.arrived = ds ++ d :: rest) : ¬s.Still crypto := by
  intro hstill
  cases h.took with
  | holding hds harrived hphase =>
    have hstep := hstill .examine trivial id
    simp [Receiver.step, hphase] at hstep
  | between hds harrived hphase =>
    cases hat : s.phase with
    | trying size tmp =>
      have hstep := hstill (.tryRecv .connected) rfl id
      simp [Receiver.step, hat] at hstep
    | registering size tmp =>
      have hstep := hstill (.register .connected) rfl id
      simp [Receiver.step, hat] at hstep
    | retrying size tmp =>
      have hstep := hstill (.tryRecv .connected) rfl id
      simp [Receiver.step, hat] at hstep
    | awaiting size' tmp' =>
      have hsome : s.queue ≠ [] := by
        intro hnone
        rw [hall, hnone, List.append_nil] at harrived
        have hlen := hds.length_le
        rw [← harrived, List.length_append, List.length_cons] at hlen
        omega
      obtain hdue | hsignalled := h.minded _ _ hat hsome
      · have hstep := hstill .event trivial id
        simp [Receiver.step, hdue] at hstep
      · have hstep := hstill .wake trivial id
        simp [Receiver.step, hat, hsignalled] at hstep
    | _ => simp [hat, Phase.Between] at hphase

theorem Benign.harmless (h : Benign crypto size accepted tmp ds d nonce payload) :
    Harmless crypto size accepted tmp ds d nonce payload where
  discards s hrun hds := by
    obtain hgoing | hdone := h.run [] hrun (hds.trans (List.prefix_append _ _))
    · refine ⟨?_, ?_, hgoing.accepted, hgoing.returned⟩
      · intro hphase
        cases hgoing.took with
        | between _ _ hbetween => simp [hphase, Phase.Between] at hbetween
        | holding _ _ hreceived => cases hphase.symm.trans hreceived
      · intro hphase
        cases hgoing.took with
        | between _ _ hbetween => simp [hphase, Phase.Between] at hbetween
        | holding _ _ hreceived => cases hphase.symm.trans hreceived
    · have hlen := (hdone.arrived.trans hds).length_le
      rw [List.length_append, List.length_singleton] at hlen
      omega
  delivers s rest hrun hall hstill := by
    obtain hgoing | hdone := h.run rest hrun ⟨[], by simp [hall]⟩
    · exact (hgoing.not_still hall hstill).elim
    · exact ⟨hdone.phase, hdone.accepted, hdone.returned⟩

/-- Where nothing is due, a call that is over, or whose waiter was not signalled,
does not go on. -/
theorem still_of (hdue : s.due = 0) (h : s.phase = .idle ∨ s.phase = .panicked ∨
    (∃ size tmp, s.phase = .awaiting size tmp) ∧ s.signalled = false) : s.Still crypto := by
  intro a hundisturbed harrival
  cases a with
  | arrive => exact (harrival trivial).elim
  | event => simp [Receiver.step, hdue]
  | recv => exact hundisturbed.elim
  | drop => exact hundisturbed.elim
  | _ => obtain hidle | hpanicked | ⟨⟨size, tmp, hawaiting⟩, hsignalled⟩ := h <;> simp [Receiver.step, *]

theorem queued_run (crypto : Crypto) (accepted : Finset UInt64) (size : Nat) (tmp : Bytes) (all : List Message) :
    ∃ s, Steps (Receiver.step crypto) (fun _ a => a.Undisturbed) (.called accepted size tmp) s ∧
      s.arrived = all ∧ s.due = 0 ∧ (Receiver.called accepted size tmp).After size s
        (recvFrom crypto size accepted false tmp all) := by
  let s : Receiver :=
    { Receiver.called accepted size tmp with queue := all, arrived := all, signalled := true }
  have harrive : Steps (Receiver.step crypto) (fun _ a => a.Undisturbed)
      (.called accepted size tmp) s :=
    .tail .event (.tail (.arrive all) .refl trivial rfl) trivial rfl
  have hphase : s.phase = .before false size tmp := rfl
  obtain ⟨s', hrun, harrived, hdue, hafter⟩ := recvFrom_run crypto hphase nofun
  exact ⟨s', harrive.trans hrun, harrived, hdue, hafter⟩

/-- A run in which an empty datagram takes the place of what is behind it: it
arrives, with all of that, after the first try of the call and before its waiter. -/
theorem empty_stalls {before : List Message} {m : Message} {tmp' : Bytes} (after : List Message)
    (hwaits : recvFrom crypto size accepted false tmp before = .waiting tmp' [])
    (hempty : (m.handed tmp'.length).length = 0) :
    ∃ s, Steps (Receiver.step crypto) (fun _ a => a.Undisturbed) (.called accepted size tmp) s ∧
      s.arrived = before ++ m :: after ∧ s.phase = .awaiting size tmp' ∧ s.Still crypto := by
  obtain ⟨⟨accepted', queue, phase, due, signalled, arrived, dequeued, returned⟩, hrun, harrived,
    hdue, hafter⟩ := queued_run crypto accepted size tmp before
  rw [hwaits] at hafter
  obtain ⟨rfl, rfl, rfl, -, -⟩ := hafter
  obtain rfl : arrived = before := harrived
  obtain rfl : due = 0 := hdue
  let t (queue : List Message) (phase : Phase) (arrived : List Message) (signalled : Bool)
      (dequeued : List Dequeued) : Receiver :=
    ⟨accepted', queue, phase, 0, signalled, arrived, dequeued, returned⟩
  let all := arrived ++ m :: after
  -- an event that brings no message wakes the call
  have hwoken : Steps (Receiver.step crypto) (fun _ a => a.Undisturbed)
      (.called accepted size tmp) (t [] (.trying size tmp') (arrived ++ []) false dequeued) :=
    .tail .wake (.tail .event (.tail (.arrive []) hrun trivial rfl) trivial rfl) trivial rfl
  rw [List.append_nil] at hwoken
  have hcome : Steps (Receiver.step crypto) (fun _ a => a.Undisturbed)
      (.called accepted size tmp) (t (m :: after) (.registering size tmp') all true dequeued) :=
    .tail .event (.tail (.arrive (m :: after)) (.tail (.tryRecv .connected) hwoken rfl rfl)
      trivial rfl) trivial rfl
  have hregisters : Steps (Receiver.step crypto) (fun _ a => a.Undisturbed)
      (.called accepted size tmp) (t (m :: after) (.retrying size tmp') all false dequeued) :=
    .tail (.register .connected) hcome rfl rfl
  have htry : (t (m :: after) (.retrying size tmp') all false dequeued).step crypto
      (.tryRecv .connected) = some (t after (.awaiting size tmp') all false
        (dequeued ++ [⟨size, m, m.handed tmp'.length⟩])) := by
    simp [Receiver.step, Receiver.tryRecv, Receiver.wouldBlock, hempty, t]
  have hstalls : Steps (Receiver.step crypto) (fun _ a => a.Undisturbed)
      (.called accepted size tmp) _ := .tail (.tryRecv .connected) hregisters rfl htry
  exact ⟨_, hstalls, rfl, rfl, still_of rfl (.inr (.inr ⟨⟨size, tmp', rfl⟩, rfl⟩))⟩

/-- What is harmless whenever it arrives completes no new nonce, and has no empty
datagram. -/
theorem Harmless.benign (h : Harmless crypto size accepted tmp ds d nonce payload)
    (hroomy : size + 24 ≤ tmp.length)
    (hbad : ∀ d ∈ ds, Malformed crypto size accepted (d.handed tmp.length)) :
    StaleNoncesAccepted accepted tmp ds ∧ ∀ d ∈ ds, d.bytes ≠ [] := by
  have hlen : 8 ≤ tmp.length := by omega
  have hqueued : StaleNoncesAccepted accepted tmp ds ∧ Spaced false ds := by
    by_contra hnot
    obtain ⟨s, hrun, harrived, hdue, hafter⟩ :=
      queued_run crypto accepted size tmp (ds ++ [d])
    have hstops := (recvFrom_malformed false hlen hbad).2 hnot [d]
    cases houtcome : recvFrom crypto size accepted false tmp (ds ++ [d]) with
    | returned payload' accepted' rest' => exact hstops _ _ _ houtcome
    | panicked =>
      rw [houtcome] at hafter
      have hstill : s.Still crypto := still_of hdue (.inr (.inl hafter.1))
      cases (h.delivers s [] hrun harrived hstill).1.symm.trans hafter.1
    | waiting tmp' rest' =>
      rw [houtcome] at hafter
      obtain ⟨hawaiting, -, hsignalled, -⟩ := hafter
      have hstill : s.Still crypto := still_of hdue
        (.inr (.inr ⟨⟨size, tmp', hawaiting⟩, hsignalled⟩))
      cases (h.delivers s [] hrun harrived hstill).1.symm.trans hawaiting
  refine ⟨hqueued.1, fun m hm hempty => ?_⟩
  obtain ⟨before, after, rfl⟩ := List.append_of_mem hm
  have hstale : StaleNoncesAccepted accepted tmp before := by
    intro before' d' after' heq
    exact hqueued.1 before' d' (after' ++ m :: after) (by simp [heq])
  have hspaced : Spaced false before := ⟨nofun, hqueued.2.2.left_of_append⟩
  obtain ⟨registered, hgoes⟩ := (recvFrom_malformed false hlen
    fun d hd => hbad d (List.mem_append_left _ hd)).1 hstale hspaced
  have hwaits := hgoes []
  rw [List.append_nil, recvFrom] at hwaits
  have hhanded : (m.handed (before.foldl overlay tmp).length).length = 0 := by
    rw [handed_empty (by rw [foldl_overlay_length]; omega)]
    exact hempty
  obtain ⟨s, hrun, harrived, hawaiting, hstill⟩ :=
    empty_stalls (after ++ [d]) hwaits hhanded
  have hidle := (h.delivers s [] hrun (by simp [harrived]) hstill).1
  cases hidle.symm.trans hawaiting

def Phase.work : Phase → Nat
  | .idle | .panicked => 0
  | .awaiting _ _ => 1
  | .retrying _ _ => 2
  | .registering _ _ => 3
  | .trying _ _ => 4
  | .received _ _ _ => 5

def Receiver.work (s : Receiver) : Nat :=
  4 * s.queue.length + 5 * s.due + (if s.signalled then 4 else 0) + s.phase.work

theorem received_work (size : Nat) (tmp : Bytes) (n : Nat) :
    (Phase.received size tmp n).work = 5 := rfl

theorem Phase.Tries.work {size : Nat} {tmp : Bytes} {phase next : Phase}
    (h : Phase.Tries size tmp phase next) : next.work < phase.work ∧ 2 ≤ phase.work := by
  cases h <;> simp [Phase.work]

theorem work_step (hundisturbed : a.Undisturbed) (harrival : ¬a.IsArrival)
    (hstep : s.step crypto a = some s') : s'.work < s.work := by
  cases receiver_cases hstep with
  | arrive => exact (harrival trivial).elim
  | recv => exact hundisturbed.elim
  | drop => exact hundisturbed.elim
  | unregistered => exact nomatch hundisturbed
  | event hdue =>
    simp only [Receiver.work, if_pos]
    split <;> omega
  | blocked htries hqueue hblocked =>
    obtain rfl := hblocked.resolve_right fun h => h.1 hundisturbed
    exact Nat.add_lt_add_left htries.work.1 _
  | empty htries hqueue hempty hblocked =>
    obtain rfl := hblocked.resolve_right fun h => h.1 hundisturbed
    have hwork := htries.work.1
    simp only [Receiver.work, hqueue, List.length_cons]
    omega
  | received htries hqueue hsome =>
    have hwork := htries.work.2
    simp only [Receiver.work, hqueue, List.length_cons, received_work]
    omega
  | register hphase =>
    simp only [Receiver.work, hphase, Phase.work, Bool.false_eq_true, if_false]
    omega
  | examine hphase =>
    unfold Receiver.examine
    split <;> simp [Receiver.work, hphase, Phase.work]
  | wake hphase hsignalled =>
    simp [Receiver.work, hphase, hsignalled, Phase.work]

/-- With nothing arriving, a `recv` is over or waits within as many steps. -/
theorem recv_ends {as : List RecvAction} (has : ∀ a ∈ as, a.Undisturbed ∧ ¬a.IsArrival)
    (hexec : exec (Receiver.step crypto) s as = some s') : as.length ≤ s.work := by
  induction as generalizing s with
  | nil => exact Nat.zero_le _
  | cons a as ih =>
    obtain ⟨t, hstep, hexec⟩ := Option.bind_eq_some_iff.mp hexec
    obtain ⟨hundisturbed, harrival⟩ := has a List.mem_cons_self
    have hrest := ih (fun b hb => has b (List.mem_cons_of_mem a hb)) hexec
    have hlt := work_step hundisturbed harrival hstep
    rw [List.length_cons]
    omega

end Schedules

/-- Malformed datagrams are harmless, whenever they arrive, exactly when none of
them is empty and none so short that it completes a new nonce out of what lay in
the buffer before. Where all of them are queued when `recv` is called, it is
enough that no two empty ones come in a row. And a `recv` to which nothing
arrives does not go on for ever. -/
theorem malformed_harmless_iff (crypto : Crypto) (size : Nat) (pooled : Option Bytes)
    (accepted : Finset UInt64) (ds : List Message) (d : Message) (nonce : UInt64) (payload : Bytes)
    (hbad : ∀ d ∈ ds,
      Malformed crypto size accepted (d.handed (prepare pooled size).length))
    (hgenuine : Genuine crypto size d nonce payload) (hfresh : nonce ∉ accepted) :
    (Harmless crypto size accepted (prepare pooled size) ds d nonce payload ↔
      StaleNoncesAccepted accepted (prepare pooled size) ds ∧ ∀ d ∈ ds, d.bytes ≠ []) ∧
    (HarmlessQueued crypto size accepted (prepare pooled size) ds d nonce payload ↔
      StaleNoncesAccepted accepted (prepare pooled size) ds ∧ ds.IsChain Message.Apart) ∧
    ∀ s s' as, exec (Receiver.step crypto) s as = some s' →
      (∀ a ∈ as, a.Undisturbed ∧ ¬a.IsArrival) → as.length ≤ s.work := by
  have hroomy := prepare_length pooled size
  refine ⟨⟨fun h => h.benign hroomy hbad, fun h => ?_⟩,
    harmlessQueued_iff hroomy hbad hgenuine hfresh, fun s s' as hexec has => recv_ends has hexec⟩
  obtain ⟨hstale, hnonempty⟩ := h
  exact Benign.harmless ⟨hroomy, hbad, hstale, hnonempty, hgenuine, hfresh⟩

theorem malformed_harmless_iff_zeros : Harmless checked 4 {0} (prepare none 4)
    [⟨[0], by decide⟩, ⟨List.replicate 8 9, by decide⟩] second 1 [7] := by
  refine (malformed_harmless_iff checked 4 none {0} _ second 1 [7] ?_ second_genuine
    (by decide)).1.mpr ⟨?_, by decide⟩
  · intro d hd
    simp only [List.mem_cons, List.not_mem_nil, or_false] at hd
    obtain rfl | rfl := hd
    · exact .inl (by decide)
    · exact .inr (.inr (by decide))
  · simp only [staleNoncesAccepted_cons]
    refine ⟨fun _ _ => by decide, fun _ h => absurd h (by decide), ?_⟩
    intro before d after heq
    cases before <;> cases heq

def firstBuffer : Bytes := datagram 0 (6 :: List.replicate 19 0)

/-- One byte that is not zero, into the buffer of the first message: its nonce
is new, and behind it there are no eight bytes. -/
theorem malformed_harmless_counterexample : ¬∀ (crypto : Crypto) (size : Nat)
    (pooled : Option Bytes) (accepted : Finset UInt64) (ds : List Message) (d : Message)
    (nonce : UInt64) (payload : Bytes),
    (∀ d ∈ ds, Malformed crypto size accepted (d.handed (prepare pooled size).length)) →
    Genuine crypto size d nonce payload → nonce ∉ accepted →
    Harmless crypto size accepted (prepare pooled size) ds d nonce payload := by
  intro h
  have hbad : ∀ d ∈ [(⟨[5], by decide⟩ : Message)],
      Malformed checked 4 {0} (d.handed (prepare (some firstBuffer) 4).length) := by
    intro d hd
    obtain rfl := List.mem_singleton.mp hd
    exact .inl (by decide)
  have hharmless := h checked 4 (some firstBuffer) {0} _ second 1 [7] hbad second_genuine (by decide)
  have hpanics : Steps (Receiver.step checked) (fun _ a => a.Undisturbed)
      (.called {0} 4 (prepare (some firstBuffer) 4)) _ :=
    .tail .examine (.tail (.tryRecv .connected) (.tail (.arrive [⟨[5], by decide⟩]) .refl trivial rfl)
      rfl rfl) trivial rfl
  exact (hharmless.discards _ hpanics (List.prefix_refl _)).2.1 rfl

end NineWire.Transport
