import NineWire.Client.FailedSend

/-! The tag that `transact` gives to a call, over the map as it is while the
lock is held, and what the receive task leaves of the map. -/
namespace NineWire.Client
open NineWire.Wire NineWire.Transition NineWire.Table

section Map
variable {V : Type} {inflight : Std.TreeMap UInt16 V} {tag : UInt16}

def Tagged (inflight : Std.TreeMap UInt16 V) : Prop := ∀ tag ∈ inflight, tag ≠ 0xFFFF

structure FirstFree (inflight : Std.TreeMap UInt16 V) (tag : UInt16) : Prop where
  proper : tag ≠ 0xFFFF
  free : inflight[tag]? = none
  below : ∀ t < tag, t ∈ inflight

theorem proper_iff : tag ≠ 0xFFFF ↔ tag < 0xFFFF := by
  rw [UInt16.lt_iff_toNat_lt, Ne, ← UInt16.toNat_inj]
  have hlt := tag.toNat_lt
  have hmax : (0xFFFF : UInt16).toNat = 65535 := rfl
  omega

theorem firstFree_of_pick (h : pickTag inflight.keys 0 = some tag) : FirstFree inflight tag := by
  obtain ⟨-, hnot⟩ := pickTag_spec (keys_ordered inflight) (fun key _ => UInt16.zero_le) h
  refine ⟨?_, ?_, fun t hlt => ?_⟩
  · rw [proper_iff, UInt16.lt_iff_toNat_lt]
    exact pickTag_lt (by decide) h
  · rw [Std.TreeMap.mem_keys] at hnot
    simpa using hnot
  · exact Std.TreeMap.mem_keys.mp (pickTag_below h UInt16.zero_le hlt)

theorem FirstFree.not_mem (h : FirstFree inflight tag) : tag ∉ inflight := by
  simpa using h.free

theorem FirstFree.unique {tag' : UInt16} (h : FirstFree inflight tag)
    (h' : FirstFree inflight tag') : tag = tag' := by
  refine UInt16.le_antisymm (UInt16.not_lt.mp fun hlt => ?_) (UInt16.not_lt.mp fun hlt => ?_)
  · exact h'.not_mem (h.below tag' hlt)
  · exact h.not_mem (h'.below tag hlt)

theorem pick_none_iff : pickTag inflight.keys 0 = none ↔ ∀ t, t ≠ 0xFFFF → t ∈ inflight := by
  constructor
  · intro h t ht
    exact Std.TreeMap.mem_keys.mp (pickTag_none h UInt16.zero_le (proper_iff.mp ht))
  · intro hall
    cases hpick : pickTag inflight.keys 0 with
    | none => rfl
    | some tag =>
      have hfirst := firstFree_of_pick hpick
      exact absurd (hall tag hfirst.proper) hfirst.not_mem

/-- The loop picks the first free tag, and there is one unless the loop panics. -/
theorem pick_some_iff : pickTag inflight.keys 0 = some tag ↔ FirstFree inflight tag := by
  refine ⟨firstFree_of_pick, fun h => ?_⟩
  cases hpick : pickTag inflight.keys 0 with
  | none => exact absurd (pick_none_iff.mp hpick tag h.proper) h.not_mem
  | some tag' => rw [h.unique (firstFree_of_pick hpick)]

theorem Tagged.insert (h : Tagged inflight) (htag : tag ≠ 0xFFFF) (sender : V) :
    Tagged (inflight.insert tag sender) := by
  intro t ht
  rw [Std.TreeMap.mem_insert, Std.LawfulEqCmp.compare_eq_iff_eq] at ht
  obtain rfl | ht := ht
  · exact htag
  · exact h t ht

theorem Tagged.erase (h : Tagged inflight) (tag : UInt16) : Tagged (inflight.erase tag) :=
  fun t ht => h t (Std.TreeMap.mem_of_mem_erase ht)

end Map

/-! The map over a run. -/

theorem tagged_step {s s' : Calls} {a : CallAction} (h : Tagged s.inflight)
    (hstep : s.step a = some s') : Tagged s'.inflight := by
  cases a with
  | call message =>
    obtain rfl := Option.some.inj hstep
    cases hpick : pickTag s.inflight.keys 0 with
    | none => rwa [Calls.call, hpick]
    | some tag =>
      rw [Calls.call, hpick]
      exact h.insert (firstFree_of_pick hpick).proper _
  | poll c p =>
    obtain ⟨hsame, -⟩ := poll_moves hstep
    rwa [hsame]
  | recv incoming =>
    obtain ⟨-, rfl⟩ := step_recv hstep
    obtain hsame | ⟨tag, resp, c, -, -, heq⟩ := recv_cases s incoming
    · rwa [hsame]
    · rw [heq]
      exact h.erase tag
  | recvFails =>
    obtain rfl := step_recvFails hstep
    exact h

/-- On a map of proper tags the loop picks the smallest tag outside it, which is
not `!0` and has nothing stored under it, and panics exactly when all the proper
tags are taken. Storing a sender there, or taking one out, leaves a map of
proper tags; so does every step, and in every state reached the map is one. -/
theorem tag_allocation {V : Type} (inflight : Std.TreeMap UInt16 V) (hkeys : Tagged inflight) :
    (∀ tag, pickTag inflight.keys 0 = some tag ↔ FirstFree inflight tag) ∧
    (∀ tag, pickTag inflight.keys 0 = some tag →
      ∀ sender, Tagged (inflight.insert tag sender)) ∧
    (pickTag inflight.keys 0 = none ↔ ∀ tag : UInt16, tag ≠ 0xFFFF → tag ∈ inflight) ∧
    (∀ tag, Tagged (inflight.erase tag)) ∧
    (∀ s : Calls, Tagged s.inflight → ∀ a s', s.step a = some s' → Tagged s'.inflight) ∧
    ∀ maxlen s, Reaches Calls.step (.start maxlen) s → Tagged s.inflight := by
  refine ⟨fun tag => pick_some_iff, fun tag hpick sender => ?_, pick_none_iff, hkeys.erase,
    fun s h a s' hstep => tagged_step h hstep, fun maxlen s hreach => ?_⟩
  · exact hkeys.insert (firstFree_of_pick hpick).proper sender
  · have hstart : Tagged (Calls.start maxlen).inflight := by
      intro tag hmem
      simp [Calls.start] at hmem
    exact hreach.invariant hstart fun h _ hstep => tagged_step h hstep

/-- Tags 0 and 1 wait for replies, and so does 5: the next call gets 2. -/
theorem tag_allocation_gap : ∃ inflight : Std.TreeMap UInt16 Nat,
    inflight.keys = [0, 1, 5] ∧ FirstFree inflight 2 := by
  let inflight : Std.TreeMap UInt16 Nat := .ofList [(5, 0), (0, 1), (1, 2)] compare
  have hlist : inflight.keys = [0, 1, 5] := rfl
  have hkeys : Tagged inflight := by
    intro tag hmem
    rw [← Std.TreeMap.mem_keys, hlist] at hmem
    simp only [List.mem_cons, List.not_mem_nil, or_false] at hmem
    obtain rfl | rfl | rfl := hmem <;> decide
  exact ⟨inflight, hlist, ((tag_allocation inflight hkeys).1 2).mp rfl⟩

end NineWire.Client
