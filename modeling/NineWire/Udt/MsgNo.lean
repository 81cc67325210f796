import Mathlib.Tactic.Common
import Mathlib.Algebra.Order.Ring.Int

/-! The word of a data packet that tells which message it is of: two bits for
where in it, one for whether it is to be read in order, and its number. -/
namespace NineWire.Udt

def maxMsgNo : Nat := 0x1FFFFFFF

/-- The word of a packet, as `addBuffer` puts it together. -/
def msgWord (number : Nat) (order first last : Bool) : Nat :=
  let word := number ||| (if order then 1 <<< 29 else 0)
  let word := if first then word ||| 0x80000000 else word
  if last then word ||| 0x40000000 else word

def getMsgBoundary (word : Nat) : Nat := word >>> 30

def getMsgOrderFlag (word : Nat) : Bool := (word >>> 29) &&& 1 = 1

def getMsgSeq (word : Nat) : Nat := word &&& 0x1FFFFFFF

variable {number : Nat}

theorem or_two_pow {n i : Nat} (h : n < 2^i) : n ||| 2^i = n + 2^i := by
  have hor := Nat.two_pow_add_eq_or_of_lt h 1
  rw [Nat.mul_one] at hor
  rw [Nat.or_comm, ← hor, Nat.add_comm]

theorem msgWord_eq (h : number ≤ maxMsgNo) (order first last : Bool) :
    msgWord number order first last =
      number + 2^29*order.toNat + 2^31*first.toNat + 2^30*last.toNat := by
  have horder : number ||| (if order then 1 <<< 29 else 0) = number + 2^29*order.toNat := by
    cases order with
    | false => simp
    | true =>
      have hlt : number < 2^29 := Nat.lt_of_le_of_lt h (by decide)
      exact or_two_pow hlt
  have hlt : number + 2^29*order.toNat < 2^30 := by
    have ho := order.toNat_le
    simp only [maxMsgNo] at h
    omega
  have hlast : ∀ n, n < 2^30 → (if last then n ||| 0x40000000 else n) = n + 2^30*last.toNat := by
    intro n hn
    cases last with
    | false => simp
    | true => exact or_two_pow hn
  unfold msgWord
  rw [horder]
  cases first with
  | false => simpa using hlast _ hlt
  | true =>
    have hswap : (if last then (number + 2^29*order.toNat ||| 0x80000000) ||| 0x40000000
        else number + 2^29*order.toNat ||| 0x80000000) =
        (if last then number + 2^29*order.toNat ||| 0x40000000 else number + 2^29*order.toNat)
          ||| 2^31 := by
      cases last with
      | false => rfl
      | true =>
        have hpow : (0x80000000 : Nat) = 2^31 := by decide
        simp only [if_true]
        rw [Nat.or_assoc, Nat.or_comm 0x80000000 0x40000000, ← Nat.or_assoc, hpow]
    have hl := last.toNat_le
    simp only [if_true]
    rw [hswap, hlast _ hlt, or_two_pow (by omega)]
    simp only [Bool.toNat_true]
    omega

theorem getMsgBoundary_msgWord (h : number ≤ maxMsgNo) (order first last : Bool) :
    getMsgBoundary (msgWord number order first last) = 2*first.toNat + last.toNat := by
  rw [getMsgBoundary, msgWord_eq h, Nat.shiftRight_eq_div_pow]
  have ho := order.toNat_le
  simp only [maxMsgNo] at h
  omega

theorem getMsgOrderFlag_msgWord (h : number ≤ maxMsgNo) (order first last : Bool) :
    getMsgOrderFlag (msgWord number order first last) = order := by
  rw [getMsgOrderFlag, msgWord_eq h, Nat.shiftRight_eq_div_pow, Nat.and_one_is_mod]
  simp only [maxMsgNo] at h
  cases order <;> simp <;> omega

end NineWire.Udt
