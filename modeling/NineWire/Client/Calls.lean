import Std.Data.TreeMap.Lemmas
import NineWire.Client.Filesystem
import NineWire.Table
import NineWire.Transition
import NineWire.Wire.De

/-! Concurrent `transact` calls on one `Filesystem` and its receive task. Between
two awaits a call runs alone, the `inflight` lock is never held across one, and
a call can be dropped at either of its two. -/
namespace NineWire.Client
open NineWire.Wire NineWire.Transition NineWire.Table

/-- The tag search of `transact`, over the keys in ascending order. Running
into `!0` panics. -/
def pickTag : List UInt16 → UInt16 → Option UInt16
  | [], tag => some tag
  | key :: keys, tag =>
    if key = tag then
      if tag.toNat + 1 < 0xFFFF then pickTag keys (tag + 1) else none
    else some tag

/-- Where a call stands: at one of its two awaits, or over. -/
inductive Stage where
  | sending
  | waiting
  | returned (resp : RMessage)
  | failed
  | dropped
  | panicked
  deriving DecidableEq

/-- A call that picked a tag. `data` is what it gives to the transport, none
where the write bound underflows; `reply` is what its one-shot channel holds. -/
structure Call where
  tag : UInt16
  message : TMessage
  data : Option Bytes
  stage : Stage
  reply : Option RMessage
  deriving DecidableEq

def Call.start (maxlen : Nat) (tag : UInt16) (message : TMessage) : Call :=
  let data := requestData maxlen tag message
  { tag, message, data, stage := if data.isSome then .sending else .panicked, reply := none }

/-- `rcv` is still there to be sent to. -/
def Call.Live (call : Call) : Prop := call.stage = .sending ∨ call.stage = .waiting

instance (call : Call) : Decidable call.Live := inferInstanceAs (Decidable (_ ∨ _))

/-- `let _ = reply_to.send(resp)`. -/
def Call.answer (call : Call) (resp : RMessage) : Call :=
  if call.Live then { call with reply := some resp } else call

/-- The locals of `FilesystemInner`. `inflight` keeps, for each tag, the call
whose sender is stored there; `receiving` says that the receive task runs. -/
structure Calls where
  maxlen : Nat
  inflight : Std.TreeMap UInt16 Nat
  calls : List Call
  receiving : Bool

def Calls.start (maxlen : Nat) : Calls where
  maxlen
  inflight := ∅
  calls := []
  receiving := true

inductive Poll where
  | sent
  | sendFails
  | cancel
  | resume

inductive CallAction where
  | call (message : TMessage)
  | poll (c : Nat) (p : Poll)
  | recv (incoming : Bytes)
  | recvFails

/-- Up to the first await. A caller that finds no tag panics before it has
inserted anything. -/
def Calls.call (s : Calls) (message : TMessage) : Calls :=
  match pickTag s.inflight.keys 0 with
  | none => s
  | some tag =>
    { s with
      inflight := s.inflight.insert tag s.calls.length
      calls := s.calls ++ [.start s.maxlen tag message] }

def Calls.recv (s : Calls) (incoming : Bytes) : Calls :=
  match deserializeR incoming with
  | .error _ => s
  | .ok (tag, resp) =>
    match s.inflight[tag]? with
    | none => s
    | some c =>
      { s with
        inflight := s.inflight.erase tag
        calls := s.calls.modify c fun call => call.answer resp }

/-- `rcv.await`: the reply, or an error once the sender is gone without one. -/
def Calls.resume (s : Calls) (c : Nat) (call : Call) : Option Stage :=
  match call.reply with
  | some resp => some (.returned resp)
  | none => if s.inflight[call.tag]? = some c then none else some .failed

def Calls.next (s : Calls) (c : Nat) (call : Call) : Poll → Option Stage
  | .sent => if call.stage = .sending then some .waiting else none
  | .sendFails => if call.stage = .sending then some .failed else none
  | .cancel => if call.Live then some .dropped else none
  | .resume => if call.stage = .waiting then s.resume c call else none

def Calls.poll (s : Calls) (c : Nat) (p : Poll) : Option Calls := do
  let call ← s.calls[c]?
  let stage ← s.next c call p
  return { s with calls := s.calls.set c { call with stage } }

def Calls.step (s : Calls) : CallAction → Option Calls
  | .call message => some (s.call message)
  | .poll c p => s.poll c p
  | .recv incoming =>
    if s.receiving ∧ incoming.length ≤ maxMessageSize then some (s.recv incoming) else none
  | .recvFails => if s.receiving then some { s with receiving := false } else none

/-! The tag that is picked. -/

theorem pickTag_spec {keys : List UInt16} {tag picked : UInt16}
    (hkeys : keys.Pairwise (· < ·)) (hle : ∀ key ∈ keys, tag ≤ key)
    (h : pickTag keys tag = some picked) : tag ≤ picked ∧ picked ∉ keys := by
  induction keys generalizing tag with
  | nil =>
    obtain rfl := Option.some.inj h
    exact ⟨UInt16.le_refl tag, List.not_mem_nil⟩
  | cons key keys ih =>
    obtain ⟨hlt, hkeys⟩ := List.pairwise_cons.mp hkeys
    have hkey := hle key List.mem_cons_self
    rw [pickTag] at h
    by_cases heq : key = tag
    · rw [if_pos heq] at h
      by_cases hmax : tag.toNat + 1 < 0xFFFF
      · rw [if_pos hmax] at h
        have hnext : (tag + 1).toNat = tag.toNat + 1 := by
          rw [UInt16.toNat_add, UInt16.toNat_one]
          omega
        have hle' : ∀ key' ∈ keys, tag + 1 ≤ key' := by
          intro key' hmem
          have hlt' := UInt16.lt_iff_toNat_lt.mp (hlt key' hmem)
          rw [UInt16.le_iff_toNat_le, hnext, ← heq]
          exact hlt'
        obtain ⟨hpicked, hnot⟩ := ih hkeys hle' h
        rw [UInt16.le_iff_toNat_le, hnext] at hpicked
        refine ⟨UInt16.le_iff_toNat_le.mpr (by omega), ?_⟩
        intro hcase
        obtain _ | ⟨_, hmem⟩ := hcase
        · rw [heq] at hpicked
          omega
        · exact hnot hmem
      · rw [if_neg hmax] at h
        cases h
    · rw [if_neg heq] at h
      obtain rfl := Option.some.inj h
      refine ⟨UInt16.le_refl tag, ?_⟩
      intro hcase
      obtain _ | ⟨_, hmem⟩ := hcase
      · exact heq rfl
      · have hlt' := hlt tag hmem
        rw [UInt16.lt_iff_toNat_lt] at hlt'
        rw [UInt16.le_iff_toNat_le] at hkey
        omega

theorem keys_ordered {V : Type} (inflight : Std.TreeMap UInt16 V) :
    inflight.keys.Pairwise (· < ·) :=
  inflight.ordered_keys.imp fun hlt => compareOfLessAndEq_eq_lt.mp hlt

/-- `assert!(unique)` holds: the tag that is picked is free. -/
theorem pickTag_free {s : Calls} {tag : UInt16} (h : pickTag s.inflight.keys 0 = some tag) :
    s.inflight[tag]? = none := by
  obtain ⟨-, hnot⟩ := pickTag_spec (keys_ordered s.inflight) (fun key _ => UInt16.zero_le) h
  rw [Std.TreeMap.mem_keys] at hnot
  simpa using hnot

/-! What each step does. -/

section Steps
variable {s s' : Calls} {message : TMessage} {incoming : Bytes} {c : Nat} {p : Poll}

theorem call_cases (s : Calls) (message : TMessage) :
    (pickTag s.inflight.keys 0 = none ∧ s.call message = s) ∨
    ∃ tag, s.inflight[tag]? = none ∧ s.call message =
      { s with
        inflight := s.inflight.insert tag s.calls.length
        calls := s.calls ++ [.start s.maxlen tag message] } := by
  cases htag : pickTag s.inflight.keys 0 with
  | none => exact .inl ⟨rfl, by rw [Calls.call, htag]⟩
  | some tag => exact .inr ⟨tag, pickTag_free htag, by rw [Calls.call, htag]⟩

theorem recv_cases (s : Calls) (incoming : Bytes) :
    s.recv incoming = s ∨
    ∃ tag resp c, deserializeR incoming = .ok (tag, resp) ∧ s.inflight[tag]? = some c ∧
      s.recv incoming =
        { s with
          inflight := s.inflight.erase tag
          calls := s.calls.modify c fun call => call.answer resp } := by
  unfold Calls.recv
  cases hdes : deserializeR incoming with
  | error e => exact .inl rfl
  | ok r =>
    obtain ⟨tag, resp⟩ := r
    cases htag : s.inflight[tag]? with
    | none => exact .inl (by simp only [htag])
    | some c => exact .inr ⟨tag, resp, c, rfl, htag, by simp only [htag]⟩

theorem poll_cases (h : s.poll c p = some s') :
    ∃ call stage, s.calls[c]? = some call ∧ s.next c call p = some stage ∧
      s' = { s with calls := s.calls.set c { call with stage } } := by
  obtain ⟨call, hcall, h⟩ := Option.bind_eq_some_iff.mp h
  obtain ⟨stage, hstage, h⟩ := Option.bind_eq_some_iff.mp h
  exact ⟨call, stage, hcall, hstage, (Option.some.inj h).symm⟩

theorem step_recv (h : s.step (.recv incoming) = some s') :
    s.receiving ∧ s' = s.recv incoming := by
  obtain ⟨hrecv, h⟩ := Option.ite_none_right_eq_some.mp h
  exact ⟨hrecv.1, (Option.some.inj h).symm⟩

theorem step_recvFails (h : s.step .recvFails = some s') :
    s' = { s with receiving := false } := by
  obtain ⟨-, h⟩ := Option.ite_none_right_eq_some.mp h
  exact (Option.some.inj h).symm

/-- What stays of a call while it is polled. It returns only what it holds. -/
structure Call.Moved (call call' : Call) : Prop where
  tag : call'.tag = call.tag
  data : call'.data = call.data
  reply : call'.reply = call.reply
  returned : ∀ resp, call'.stage = .returned resp →
    call.stage = .returned resp ∨ call.reply = some resp

theorem next_returned {call : Call} {resp : RMessage}
    (h : s.next c call p = some (.returned resp)) : call.reply = some resp := by
  cases p with
  | resume =>
    simp only [Calls.next, Calls.resume] at h
    split at h
    · cases hreply : call.reply with
      | none =>
        rw [hreply] at h
        simp only at h
        split at h <;> cases h
      | some resp' =>
        rw [hreply] at h
        obtain rfl := Stage.returned.inj (Option.some.inj h)
        rfl
    · cases h
  | _ =>
    simp only [Calls.next] at h
    split at h <;> cases h

theorem poll_moves (h : s.poll c p = some s') :
    s'.inflight = s.inflight ∧ s'.calls.length = s.calls.length ∧
      (∀ (d : Nat) (call' : Call), s'.calls[d]? = some call' →
        ∃ call : Call, s.calls[d]? = some call ∧ call.Moved call') ∧
      ∀ (d : Nat) (call : Call), s.calls[d]? = some call →
        ∃ call' : Call, s'.calls[d]? = some call' ∧ call.Moved call' := by
  obtain ⟨call, stage, hcall, hstage, rfl⟩ := poll_cases h
  have hmoved : call.Moved { call with stage } :=
    ⟨rfl, rfl, rfl, fun resp hresp => .inr (next_returned (hstage.trans (congrArg some hresp)))⟩
  have hrefl (call : Call) : call.Moved call := ⟨rfl, rfl, rfl, fun _ hresp => .inl hresp⟩
  refine ⟨rfl, List.length_set, fun d call' hd => ?_, fun d call' hd => ?_⟩
  · obtain ⟨rfl, rfl⟩ | ⟨-, hold⟩ := set_cases hd
    · exact ⟨call, hcall, hmoved⟩
    · exact ⟨call', hold, hrefl call'⟩
  · by_cases hcd : c = d
    · subst hcd
      obtain rfl := Option.some.inj (hcall.symm.trans hd)
      exact ⟨_, set_get_self hcall, hmoved⟩
    · exact ⟨call', by rw [set_get_ne hcd, hd], hrefl call'⟩

@[simp] theorem Call.answer_tag (call : Call) (resp : RMessage) :
    (call.answer resp).tag = call.tag := by
  unfold Call.answer
  split <;> rfl

@[simp] theorem Call.answer_message (call : Call) (resp : RMessage) :
    (call.answer resp).message = call.message := by
  unfold Call.answer
  split <;> rfl

@[simp] theorem Call.answer_data (call : Call) (resp : RMessage) :
    (call.answer resp).data = call.data := by
  unfold Call.answer
  split <;> rfl

@[simp] theorem Call.answer_stage (call : Call) (resp : RMessage) :
    (call.answer resp).stage = call.stage := by
  unfold Call.answer
  split <;> rfl

theorem Call.answer_reply {call : Call} {resp resp' : RMessage}
    (h : (call.answer resp).reply = some resp') : resp' = resp ∨ call.reply = some resp' := by
  unfold Call.answer at h
  split at h
  · exact .inl (Option.some.inj h).symm
  · exact .inr h

end Steps

end NineWire.Client
