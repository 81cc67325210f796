import Mathlib.Algebra.Ring.Nat
import Mathlib.Tactic.Tauto
import Std.Data.TreeSet.Lemmas

/-! `FidPool`: fids handed out lowest first, and taken back when their handle
is dropped. -/
namespace NineWire.Util

structure FidPool where
  next : UInt32
  freeList : Std.TreeSet UInt32

def FidPool.new : FidPool where
  next := 0
  freeList := ∅

/-- `pop_first`, or a new fid if `next` does not overflow. -/
def FidPool.get (pool : FidPool) : Option (UInt32 × FidPool) :=
  match pool.freeList.toList.head? with
  | some fid => some (fid, { pool with freeList := pool.freeList.erase fid })
  | none =>
    if pool.next.toNat + 1 < 2^32 then some (pool.next, { pool with next := pool.next + 1 })
    else none

/-- `Drop` for `FidHandle`, unless one of its assertions fails. -/
def FidPool.put (pool : FidPool) (fid : UInt32) : Option FidPool :=
  if fid < pool.next ∧ fid ∉ pool.freeList then
    some { pool with freeList := pool.freeList.insert fid }
  else none

def FidPool.Free (pool : FidPool) (fid : UInt32) : Prop := fid ∈ pool.freeList ∨ pool.next ≤ fid

def FidPool.Valid (pool : FidPool) : Prop := ∀ fid ∈ pool.freeList, fid < pool.next

theorem new_valid : FidPool.new.Valid := by
  intro fid hfid
  simp [FidPool.new] at hfid

section FidPool
variable {pool pool' : FidPool} {fid fid' : UInt32}

/-- A fid that is handed out was free, and the others are as they were. -/
theorem get_spec (hvalid : pool.Valid) (h : pool.get = some (fid, pool')) :
    pool'.Valid ∧ pool.Free fid ∧ ∀ fid', pool'.Free fid' ↔ pool.Free fid' ∧ fid' ≠ fid := by
  unfold FidPool.get at h
  split at h
  · rename_i first hfirst
    obtain ⟨rfl, rfl⟩ := Prod.mk.inj (Option.some.inj h)
    rw [← Std.TreeSet.min?_eq_head?_toList] at hfirst
    obtain ⟨hmem, -⟩ := Std.TreeSet.min?_eq_some_iff_mem_and_forall.mp hfirst
    have hlt := hvalid first hmem
    have herase (fid' : UInt32) :
        fid' ∈ pool.freeList.erase first ↔ fid' ≠ first ∧ fid' ∈ pool.freeList := by
      rw [Std.TreeSet.mem_erase, ne_eq, Std.LawfulEqCmp.compare_eq_iff_eq, eq_comm]
    refine ⟨fun fid' hfid' => hvalid fid' ((herase fid').mp hfid').2, .inl hmem, fun fid' => ?_⟩
    simp only [FidPool.Free, herase]
    constructor
    · intro hcase
      obtain ⟨hne, hfid'⟩ | hge := hcase
      · exact ⟨.inl hfid', hne⟩
      · refine ⟨.inr hge, ?_⟩
        intro heq
        subst heq
        exact UInt32.not_lt.mpr hge hlt
    · intro hcase
      obtain ⟨hfid' | hge, hne⟩ := hcase
      · exact .inl ⟨hne, hfid'⟩
      · exact .inr hge
  · split at h
    · rename_i hmax
      obtain ⟨rfl, rfl⟩ := Prod.mk.inj (Option.some.inj h)
      have hnext : (pool.next + 1).toNat = pool.next.toNat + 1 := by
        rw [UInt32.toNat_add, UInt32.toNat_one, Nat.mod_eq_of_lt hmax]
      refine ⟨fun fid' hfid' => ?_, .inr (UInt32.le_refl _), fun fid' => ?_⟩
      · have hlt := UInt32.lt_iff_toNat_lt.mp (hvalid fid' hfid')
        rw [UInt32.lt_iff_toNat_lt, hnext]
        omega
      · simp only [FidPool.Free, UInt32.le_iff_toNat_le, hnext, ne_eq, ← UInt32.toNat_inj]
        constructor
        · intro hcase
          obtain hfid' | hge := hcase
          · have hlt := UInt32.lt_iff_toNat_lt.mp (hvalid fid' hfid')
            exact ⟨.inl hfid', by omega⟩
          · exact ⟨.inr (by omega), by omega⟩
        · intro hcase
          obtain ⟨hfid' | hge, hne⟩ := hcase
          · exact .inl hfid'
          · exact .inr (by omega)
    · cases h

theorem put_spec (hvalid : pool.Valid) (h : pool.put fid = some pool') :
    pool'.Valid ∧ ∀ fid', pool'.Free fid' ↔ pool.Free fid' ∨ fid' = fid := by
  unfold FidPool.put at h
  split at h
  · rename_i hheld
    obtain rfl := Option.some.inj h
    have hinsert (fid' : UInt32) :
        fid' ∈ pool.freeList.insert fid ↔ fid' = fid ∨ fid' ∈ pool.freeList := by
      rw [Std.TreeSet.mem_insert, Std.LawfulEqCmp.compare_eq_iff_eq, eq_comm]
    refine ⟨fun fid' hfid' => ?_, fun fid' => ?_⟩
    · obtain rfl | hold := (hinsert fid').mp hfid'
      · exact hheld.1
      · exact hvalid fid' hold
    · simp only [FidPool.Free, hinsert]
      tauto
  · cases h

/-- The assertions of `Drop` hold for a fid that somebody has. -/
theorem put_isSome (h : ¬pool.Free fid) : (pool.put fid).isSome := by
  obtain ⟨hmem, hlt⟩ := not_or.mp h
  rw [FidPool.put, if_pos ⟨UInt32.not_le.mp hlt, hmem⟩]
  rfl

end FidPool

end NineWire.Util
