import Mathlib.Tactic.Common
import Mathlib.Algebra.Order.Ring.Int

/-! Places of a ring buffer: the slot that a growing index falls on, and why the
indices of a window no longer than the ring keep apart. -/
namespace NineWire.Ring

/-- The slot of index `i` in a ring of `n` slots, with index 0 at slot `c`. -/
def slot (n c i : Int) : Int := (c + i) % n

variable {n c i j : Int}

theorem slot_nonneg (hn : 0 < n) : 0 ≤ slot n c i := Int.emod_nonneg _ (by omega)

theorem slot_lt (hn : 0 < n) : slot n c i < n := Int.emod_lt_of_pos _ hn

theorem slot_add (k : Int) : (slot n c i + k) % n = slot n c (i + k) := by
  rw [slot, slot, Int.emod_add_emod, Int.add_assoc]

theorem slot_slot (k : Int) : slot n (slot n c i) k = slot n c (i + k) := slot_add k

theorem slot_add_cycle (k : Int) : (slot n c i + k + n) % n = slot n c (i + k) := by
  rw [Int.add_emod_right, slot_add]

theorem slot_cycle : slot n c (i + n) = slot n c i := by
  rw [slot, slot, ← Int.add_assoc, Int.add_emod_right]

theorem slot_self (hc : 0 ≤ c) (hlt : c < n) : slot n c 0 = c := by
  rw [slot, Int.add_zero, Int.emod_eq_of_lt hc hlt]

/-- Two indices less than a ring apart have slots of their own. -/
theorem slot_inj (h : (i - j).natAbs < n) : slot n c i = slot n c j ↔ i = j := by
  constructor
  · intro hslot
    have hdvd : n ∣ (c + i) - (c + j) :=
      Int.dvd_of_emod_eq_zero (Int.emod_eq_emod_iff_emod_sub_eq_zero.mp hslot)
    have hdiff : (c + i) - (c + j) = i - j := by omega
    rw [hdiff] at hdvd
    have hzero : i - j = 0 := Int.eq_zero_of_abs_lt_dvd hdvd (by rw [Int.abs_eq_natAbs]; exact h)
    omega
  · rintro rfl
    rfl

end NineWire.Ring
