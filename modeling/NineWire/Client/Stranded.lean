import NineWire.Client.Routing

/-! Calls that wait for a reply that cannot come. The receive task passes over
what it cannot decode, and when it ends it leaves the senders in the map. -/
namespace NineWire.Client
open NineWire.Wire NineWire.LittleEndian NineWire.Transition

def Calls.Names (s : Calls) (incoming : Bytes) (tag : UInt16) (c : Nat) : Prop :=
  3 ≤ incoming.length ∧ tagBytes incoming = toLe 2 tag.toNat ∧ s.inflight[tag]? = some c

/-- A step from `s` to `s'` attends to every waiter: a datagram under its tag
lets it go on, and no sender outlives the receive task. -/
structure Attends (s : Calls) (a : CallAction) (s' : Calls) : Prop where
  completed : ∀ incoming tag c, a = .recv incoming → s.Names incoming tag c →
    s'.inflight[tag]? = none ∧ ∀ call : Call, s'.calls[c]? = some call → call.stage = .waiting →
      (s'.resume c call).isSome
  ended : s'.receiving = false → s'.inflight.isEmpty

/-- What the peer, the transport and the callers have to do: reply to a tag in
use with what decodes, fail only while nothing is in flight, and start nothing
once the receive task has ended. -/
def Orderly (s : Calls) : CallAction → Prop
  | .recv incoming => ∀ tag c, s.Names incoming tag c → (deserializeR incoming).isOk
  | .recvFails => s.inflight.isEmpty
  | .call _ => s.receiving
  | .poll _ _ => True

section Steps
variable {s s' : Calls} {a : CallAction}

theorem resume_of_reply {c : Nat} {call : Call} (h : call.reply.isSome) :
    (s.resume c call).isSome := by
  unfold Calls.resume
  split
  · rfl
  · rename_i hreply
    rw [hreply] at h
    cases h

/-- A datagram that decodes takes the sender out of the map and uses it. -/
theorem recv_completes {incoming : Bytes} {tag : UInt16} {c : Nat} (hnames : s.Names incoming tag c)
    (hok : (deserializeR incoming).isOk) :
    (s.recv incoming).inflight[tag]? = none ∧
      ∀ call : Call, (s.recv incoming).calls[c]? = some call → call.stage = .waiting →
        ((s.recv incoming).resume c call).isSome := by
  obtain ⟨-, hbytes, htag⟩ := hnames
  cases hdes : deserializeR incoming with
  | error e =>
    rw [hdes] at hok
    cases hok
  | ok r =>
    obtain ⟨tag', resp⟩ := r
    obtain rfl := toLe_tag_inj ((tagBytes_deserializeR hdes).symm.trans hbytes)
    have hrecv : s.recv incoming = { s with
        inflight := s.inflight.erase tag'
        calls := s.calls.modify c fun call => call.answer resp } := by
      simp only [Calls.recv, hdes, htag]
    refine ⟨by rw [hrecv]; exact Std.TreeMap.getElem?_erase_self, fun call hcall hwaiting => ?_⟩
    refine resume_of_reply ?_
    simp only [hrecv, List.getElem?_modify_eq, Option.map_eq_map, Option.map_eq_some_iff] at hcall
    obtain ⟨old, -, rfl⟩ := hcall
    have hlive : old.Live := .inr (by rwa [Call.answer_stage] at hwaiting)
    simp [Call.answer, hlive]

theorem recv_same_of_error {incoming : Bytes} (h : ¬(deserializeR incoming).isOk) :
    s.recv incoming = s := by
  unfold Calls.recv
  cases hdes : deserializeR incoming with
  | error e => rfl
  | ok r =>
    rw [hdes] at h
    exact (h rfl).elim

theorem call_of_isEmpty (h : s.inflight.isEmpty) (message : TMessage) :
    ¬(s.call message).inflight.isEmpty := by
  have hkeys : s.inflight.keys = [] := by
    rw [← List.isEmpty_iff, Std.TreeMap.isEmpty_keys, h]
  simp [Calls.call, hkeys, pickTag]

/-- From a state that no waiter is left behind in, a step attends to every
waiter exactly when it is orderly. -/
theorem attends_iff_orderly (hended : s.receiving = false → s.inflight.isEmpty)
    (hstep : s.step a = some s') : Attends s a s' ↔ Orderly s a := by
  cases a with
  | call message =>
    obtain rfl := Option.some.inj hstep
    have hreceiving : (s.call message).receiving = s.receiving := by
      rcases call_cases s message with ⟨-, heq⟩ | ⟨tag, -, heq⟩ <;> rw [heq]
    constructor
    · intro h
      by_contra hdone
      have hdone' : s.receiving = false := by simpa [Orderly] using hdone
      exact call_of_isEmpty (hended hdone') message (h.ended (hreceiving.trans hdone'))
    · intro h
      refine ⟨by rintro _ _ _ ⟨⟩, fun hdone => ?_⟩
      rw [hreceiving, h] at hdone
      cases hdone
  | poll c p =>
    obtain ⟨call, stage, -, -, rfl⟩ := poll_cases hstep
    exact ⟨fun _ => trivial, fun _ => ⟨by rintro _ _ _ ⟨⟩, hended⟩⟩
  | recv incoming =>
    obtain ⟨hrunning, rfl⟩ := step_recv hstep
    constructor
    · intro h tag c hnames
      by_contra herror
      have hnone := (h.completed incoming tag c rfl hnames).1
      rw [recv_same_of_error herror, hnames.2.2] at hnone
      cases hnone
    · intro h
      refine ⟨?_, fun hdone => ?_⟩
      · rintro _ tag c ⟨⟩ hnames
        exact recv_completes hnames (h tag c hnames)
      · have hreceiving : (s.recv incoming).receiving = s.receiving := by
          rcases recv_cases s incoming with heq | ⟨tag, resp, c, -, -, heq⟩ <;> rw [heq]
        rw [hreceiving, hrunning] at hdone
        cases hdone
  | recvFails =>
    obtain rfl := step_recvFails hstep
    exact ⟨fun h => h.ended rfl, fun h => ⟨by rintro _ _ _ ⟨⟩, fun _ => h⟩⟩

theorem orderly_run {maxlen : Nat} (h : Steps Calls.step Orderly (.start maxlen) s) :
    s.receiving = false → s.inflight.isEmpty := by
  let I : Calls → Prop := fun s => s.receiving = false → s.inflight.isEmpty
  have hstart : I (.start maxlen) := fun hdone => by cases hdone
  exact h.invariant hstart fun hI hok hstep => ((attends_iff_orderly hI hstep).mpr hok).ended

end Steps

/-- As long as a run has been orderly, its next step attends to every waiter
exactly when it is orderly too. -/
theorem waiters_attended_iff (maxlen : Nat) (s s' : Calls) (a : CallAction)
    (h : Steps Calls.step Orderly (.start maxlen) s) (hstep : s.step a = some s') :
    Attends s a s' ↔ Orderly s a :=
  attends_iff_orderly (orderly_run h) hstep

theorem waiters_attended_iff_reply : ∃ s s',
    exec Calls.step (.start 1192) [.call (.tclunk ⟨1⟩), .poll 0 .sent] = some s ∧
    s.Names [121, 0, 0] 0 0 ∧ s.step (.recv [121, 0, 0]) = some s' ∧
    Attends s (.recv [121, 0, 0]) s' := by
  let waiting : Calls := (Calls.start 1192).call (.tclunk ⟨1⟩)
  obtain ⟨s, hpoll⟩ : ∃ s, waiting.step (.poll 0 .sent) = some s := ⟨_, rfl⟩
  have hrun : Steps Calls.step Orderly (.start 1192) s :=
    .tail (.poll 0 .sent) (.tail (.call (.tclunk ⟨1⟩)) .refl rfl rfl) trivial hpoll
  obtain rfl := Option.some.inj hpoll
  refine ⟨_, _, rfl, ⟨by decide, by decide, by rfl⟩, rfl, ?_⟩
  exact (waiters_attended_iff 1192 _ _ (.recv [121, 0, 0]) hrun rfl).mpr fun _ _ _ => by decide

/-- A reply with a byte too many leaves its call waiting. -/
theorem waiter_stranded : ¬∀ (maxlen : Nat) (s s' : Calls) (a : CallAction),
    Reaches Calls.step (.start maxlen) s → s.step a = some s' → Attends s a s' := by
  intro h
  let s : Calls := (Calls.start 1192).call (.tclunk ⟨1⟩)
  have hreach : Reaches Calls.step (.start 1192) s :=
    .tail (.call (.tclunk ⟨1⟩)) .refl trivial rfl
  have hattends := h 1192 s s (.recv [121, 0, 0, 9]) hreach (by rfl)
  have hcompleted := hattends.completed [121, 0, 0, 9] 0 0 rfl ⟨by decide, by decide, by rfl⟩
  exact absurd hcompleted.1 (by decide)

end NineWire.Client
