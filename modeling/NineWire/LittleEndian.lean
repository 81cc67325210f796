import Mathlib.Tactic.Ring

/-! Little-endian natural numbers over bytes. General: no width or message
format is fixed here. -/
namespace NineWire.LittleEndian

/-- The low `k` bytes of `n`, least significant first. -/
def toLe : Nat → Nat → List UInt8
  | 0, _ => []
  | k+1, n => UInt8.ofNat n :: toLe k (n/256)

def ofLe : List UInt8 → Nat
  | [] => 0
  | b :: bs => b.toNat + 256*ofLe bs

@[simp] theorem toLe_length (k n : Nat) : (toLe k n).length = k := by
  induction k generalizing n with
  | zero => rfl
  | succ k ih => simp [toLe, ih]

/-- Reading back what was written, with no truncation inside the width. -/
theorem ofLe_toLe (k n : Nat) (h : n < 256^k) : ofLe (toLe k n) = n := by
  induction k generalizing n with
  | zero =>
    have hn : n = 0 := by simpa using h
    simp [toLe, ofLe, hn]
  | succ k ih =>
    have hk : n/256 < 256^k := by
      rw [pow_succ] at h
      omega
    simp only [toLe, ofLe, ih _ hk, UInt8.toNat_ofNat']
    omega

theorem ofLe_lt (bs : List UInt8) : ofLe bs < 256^bs.length := by
  induction bs with
  | nil => simp [ofLe]
  | cons b bs ih =>
    have hb := b.toNat_lt
    simp only [ofLe, List.length_cons, pow_succ]
    omega

theorem toLe_ofLe (bs : List UInt8) : toLe bs.length (ofLe bs) = bs := by
  induction bs with
  | nil => rfl
  | cons b bs ih =>
    have hb := b.toNat_lt
    have hdiv : (b.toNat + 256*ofLe bs)/256 = ofLe bs := by omega
    have hlow : UInt8.ofNat (b.toNat + 256*ofLe bs) = b := by
      apply UInt8.toNat_inj.mp
      rw [UInt8.toNat_ofNat']
      omega
    simp only [List.length_cons, ofLe, toLe, hdiv, hlow, ih]

end NineWire.LittleEndian
