import Mathlib.Tactic.Common

/-! Lists used as growing tables: an entry keeps its index for good, new
entries come at the end, and an entry changes in place. General: what an entry
is does not matter. -/
namespace NineWire.Table
variable {α : Type} {l : List α} {a b : α} {i j : Nat}

theorem lt_of_get (h : l[i]? = some a) : i < l.length := (List.getElem?_eq_some_iff.mp h).1

theorem append_get (h : l[i]? = some b) : (l ++ [a])[i]? = some b := by
  rw [List.getElem?_append_left (lt_of_get h), h]

theorem append_cases (h : (l ++ [a])[i]? = some b) :
    l[i]? = some b ∨ (i = l.length ∧ b = a) := by
  rw [List.getElem?_append] at h
  by_cases hlt : i < l.length
  · rw [if_pos hlt] at h
    exact .inl h
  · rw [if_neg hlt] at h
    have hlen := lt_of_get h
    rw [List.length_singleton] at hlen
    have hi : i = l.length := by omega
    rw [hi, Nat.sub_self] at h
    exact .inr ⟨hi, (Option.some.inj h).symm⟩

theorem set_get_self (h : l[i]? = some b) : (l.set i a)[i]? = some a := by
  rw [List.getElem?_set_self (lt_of_get h)]

theorem set_get_ne (hne : i ≠ j) : (l.set i a)[j]? = l[j]? := List.getElem?_set_ne hne

theorem set_cases (h : (l.set i a)[j]? = some b) : (i = j ∧ b = a) ∨ (i ≠ j ∧ l[j]? = some b) := by
  by_cases hij : i = j
  · subst hij
    have hlt := lt_of_get h
    rw [List.length_set] at hlt
    rw [List.getElem?_set_self hlt] at h
    exact .inl ⟨rfl, (Option.some.inj h).symm⟩
  · rw [set_get_ne hij] at h
    exact .inr ⟨hij, h⟩

/-- An entry that stands in the table is there after an update too, updated or not. -/
theorem set_get (h : l[j]? = some b) : (l.set i a)[j]? = some (if i = j then a else b) := by
  by_cases hij : i = j
  · subst hij
    rw [if_pos rfl, set_get_self h]
  · rw [if_neg hij, set_get_ne hij, h]

theorem modify_get {f : α → α} (h : l[i]? = some a) : l.modify i f = l.set i (f a) := by
  apply List.ext_getElem?
  intro j
  rw [List.getElem?_modify]
  by_cases hij : i = j
  · subst hij
    simp only [h, set_get_self h, if_true, Option.map_eq_map, Option.map_some]
  · simp only [set_get_ne hij, if_neg hij, Option.map_eq_map, Option.map_id']

theorem modify_cases {f : α → α} (h : (l.modify i f)[j]? = some b) :
    ∃ a, l[j]? = some a ∧ b = if i = j then f a else a := by
  rw [List.getElem?_modify, Option.map_eq_map, Option.map_eq_some_iff] at h
  obtain ⟨a, ha, hb⟩ := h
  exact ⟨a, ha, hb.symm⟩

/-- What some entry satisfies, some entry of the updated table satisfies, if the
update keeps it. -/
theorem set_keeps {P : α → Prop} (hi : l[i]? = some a) (hkeep : P a → P b) {a' : α}
    (hj : l[j]? = some a') (ha' : P a') : ∃ b', (l.set i b)[j]? = some b' ∧ P b' := by
  refine ⟨_, set_get hj, ?_⟩
  by_cases hij : i = j
  · subst hij
    obtain rfl := Option.some.inj (hi.symm.trans hj)
    rw [if_pos rfl]
    exact hkeep ha'
  · rw [if_neg hij]
    exact ha'

end NineWire.Table
