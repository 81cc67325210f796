import NineWire.Table
import NineWire.Transition
import NineWire.Util.FidPool

/-! Pools and the handles they give out, over any order of gets and drops. The
fids that are handed out and those on the free list are together all the fids
below `next`. -/
namespace NineWire.Util
open NineWire.Transition NineWire.Table

/-- `parent` is the number of a pool, none for `Weak::new()`. -/
structure FidHandle where
  fid : UInt32
  parent : Option Nat
  deriving DecidableEq

/-- What a pool and its handles share. It is `alive` until the pool is dropped. -/
structure Shared where
  inner : FidPool
  poisoned : Bool
  alive : Bool

/-- The pools made so far, and the handles: none once it is dropped. -/
structure Heap where
  pools : List Shared
  handles : List (Option FidHandle)
  panicked : Bool

def Heap.start : Heap where
  pools := []
  handles := []
  panicked := false

inductive HeapAction where
  | new
  | get (p : Nat)
  | default
  | drop (h : Nat)
  | dropPool (p : Nat)

/-- `lock().ok()?`, then `get`. -/
def Shared.get (pool : Shared) : Option (UInt32 × Shared) :=
  if pool.poisoned then none else pool.inner.get.map fun (fid, inner) => (fid, { pool with inner })

def FidHandle.default : FidHandle where
  fid := 0xFFFFFFFF
  parent := none

/-- `Drop` for `FidHandle`. A lock that is poisoned and an assertion that fails
panic, and the assertions fail under the lock. -/
def Heap.dropHandle (s : Heap) (handle : FidHandle) : Heap :=
  match handle.parent with
  | none => s
  | some p =>
    match s.pools[p]? with
    | none => s
    | some pool =>
      if !pool.alive then s
      else if pool.poisoned then { s with panicked := true }
      else
        match pool.inner.put handle.fid with
        | some inner => { s with pools := s.pools.set p { pool with inner } }
        | none => { s with pools := s.pools.set p { pool with poisoned := true }, panicked := true }

def Heap.step (s : Heap) : HeapAction → Option Heap
  | .new => some { s with pools := s.pools ++ [⟨.new, false, true⟩] }
  | .get p => do
    let pool ← s.pools[p]?
    if pool.alive then
      match pool.get with
      | some (fid, pool) =>
        some { s with pools := s.pools.set p pool, handles := s.handles ++ [some ⟨fid, some p⟩] }
      | none => some s
    else none
  | .default => some { s with handles := s.handles ++ [some .default] }
  | .drop h => do
    let handle ← (s.handles[h]?).join
    return { s with handles := s.handles.set h none }.dropHandle handle
  | .dropPool p => do
    let pool ← s.pools[p]?
    if pool.alive then some { s with pools := s.pools.set p { pool with alive := false } } else none

def Heap.Holds (s : Heap) (p h : Nat) (fid : UInt32) : Prop :=
  s.handles[h]? = some (some ⟨fid, some p⟩)

structure Heap.Agrees (s : Heap) : Prop where
  calm : s.panicked = false
  intact : ∀ (p : Nat) (pool : Shared), s.pools[p]? = some pool → pool.poisoned = false
  valid : ∀ (p : Nat) (pool : Shared), s.pools[p]? = some pool → pool.inner.Valid
  parent : ∀ {p h fid}, s.Holds p h fid → p < s.pools.length
  held : ∀ (p : Nat) (pool : Shared), s.pools[p]? = some pool → pool.alive →
    ∀ fid, (∃ h, s.Holds p h fid) ↔ ¬pool.inner.Free fid
  distinct : ∀ {p h h' fid}, s.Holds p h fid → s.Holds p h' fid → h = h'

section FidPool
variable {pool pool' : FidPool} {fid : UInt32}

/-- The fid that is handed out: the smallest on the free list, else `next`. -/
theorem get_least (h : pool.get = some (fid, pool')) :
    (fid ∈ pool.freeList ∧ ∀ other ∈ pool.freeList, fid ≤ other) ∨
      (pool.freeList.isEmpty ∧ fid = pool.next ∧ pool.next.toNat + 1 < 2^32) := by
  unfold FidPool.get at h
  split at h
  · rename_i first hfirst
    obtain ⟨rfl, -⟩ := Prod.mk.inj (Option.some.inj h)
    rw [← Std.TreeSet.min?_eq_head?_toList] at hfirst
    obtain ⟨hmem, hmin⟩ := Std.TreeSet.min?_eq_some_iff_mem_and_forall.mp hfirst
    refine .inl ⟨hmem, fun other hother => ?_⟩
    exact Std.isLE_compare.mp (hmin other hother)
  · rename_i hnone
    split at h
    · rename_i hmax
      obtain ⟨rfl, -⟩ := Prod.mk.inj (Option.some.inj h)
      refine .inr ⟨?_, rfl, hmax⟩
      rw [← Std.TreeSet.isEmpty_toList]
      simpa using hnone
    · cases h

theorem get_none (h : pool.get = none) (hfid : fid ≠ 0xFFFFFFFF) : ¬pool.Free fid := by
  unfold FidPool.get at h
  split at h
  · cases h
  · rename_i hnone
    split at h
    · cases h
    · rename_i hmax
      intro h
      obtain hfree | hge := h
      · rw [← Std.TreeSet.mem_toList, List.head?_eq_none_iff.mp hnone] at hfree
        cases hfree
      · rw [UInt32.le_iff_toNat_le] at hge
        have hlt := fid.toNat_lt
        refine hfid (UInt32.toNat_inj.mp ?_)
        show fid.toNat = 4294967295
        omega

end FidPool

section Heap
variable {s s' : Heap} {a : HeapAction} {p q h : Nat} {fid : UInt32} {pool pool' : Shared}

theorem holds_append {pools : List Shared} {handle : Option FidHandle} {panicked : Bool} :
    Heap.Holds ⟨pools, s.handles ++ [handle], panicked⟩ p h fid ↔
      s.Holds p h fid ∨ (h = s.handles.length ∧ handle = some ⟨fid, some p⟩) := by
  constructor
  · intro hholds
    obtain hold | ⟨rfl, rfl⟩ := append_cases hholds
    · exact .inl hold
    · exact .inr ⟨rfl, rfl⟩
  · intro h
    obtain hold | ⟨rfl, rfl⟩ := h
    · exact append_get hold
    · exact List.getElem?_concat_length

theorem holds_drop {pools : List Shared} {d : Nat} {panicked : Bool} :
    Heap.Holds ⟨pools, s.handles.set d none, panicked⟩ p h fid ↔ h ≠ d ∧ s.Holds p h fid := by
  constructor
  · intro hholds
    obtain ⟨-, hnone⟩ | ⟨hne, hold⟩ := set_cases hholds
    · cases hnone
    · exact ⟨fun heq => hne heq.symm, hold⟩
  · intro h
    obtain ⟨hne, hold⟩ := h
    exact (set_get_ne fun heq => hne heq.symm).trans hold

theorem Heap.Agrees.update (hs : s.Agrees) (hpool : s.pools[p]? = some pool) (hcalm : s'.panicked = false)
    (hpools : s'.pools = s.pools.set p pool') (hintact : pool'.poisoned = false)
    (hvalid : pool'.inner.Valid)
    (hothers : ∀ q h fid, q ≠ p → (s'.Holds q h fid ↔ s.Holds q h fid))
    (hheld : pool'.alive → ∀ fid, (∃ h, s'.Holds p h fid) ↔ ¬pool'.inner.Free fid)
    (hdistinct : ∀ h h' fid, s'.Holds p h fid → s'.Holds p h' fid → h = h') : s'.Agrees where
  calm := hcalm
  intact q pool₁ hq := by
    rw [hpools] at hq
    obtain ⟨rfl, rfl⟩ | ⟨-, hold⟩ := set_cases hq
    · exact hintact
    · exact hs.intact q pool₁ hold
  valid q pool₁ hq := by
    rw [hpools] at hq
    obtain ⟨rfl, rfl⟩ | ⟨-, hold⟩ := set_cases hq
    · exact hvalid
    · exact hs.valid q pool₁ hold
  parent {q h fid} hholds := by
    rw [hpools, List.length_set]
    by_cases hqp : q = p
    · rw [hqp]
      exact lt_of_get hpool
    · exact hs.parent ((hothers q h fid hqp).mp hholds)
  held q pool₁ hq halive fid := by
    rw [hpools] at hq
    obtain ⟨rfl, rfl⟩ | ⟨hne, hold⟩ := set_cases hq
    · exact hheld halive fid
    · rw [← hs.held q pool₁ hold halive fid]
      exact exists_congr fun h => hothers q h fid (fun heq => hne heq.symm)
  distinct {q h h' fid} hh hh' := by
    by_cases hqp : q = p
    · subst hqp
      exact hdistinct h h' fid hh hh'
    · exact hs.distinct ((hothers q h fid hqp).mp hh) ((hothers q h' fid hqp).mp hh')

theorem Heap.Agrees.new (hs : s.Agrees) :
    Heap.Agrees { s with pools := s.pools ++ [⟨.new, false, true⟩] } where
  calm := hs.calm
  intact q pool₁ hq := by
    obtain hold | ⟨-, rfl⟩ := append_cases hq
    · exact hs.intact q pool₁ hold
    · rfl
  valid q pool₁ hq := by
    obtain hold | ⟨-, rfl⟩ := append_cases hq
    · exact hs.valid q pool₁ hold
    · exact new_valid
  parent hholds := by
    rw [List.length_append]
    exact Nat.lt_add_right 1 (hs.parent hholds)
  held q pool₁ hq halive fid := by
    obtain hold | ⟨rfl, rfl⟩ := append_cases hq
    · exact hs.held q pool₁ hold halive fid
    · have hfree : FidPool.new.Free fid := .inr UInt32.zero_le
      refine ⟨fun ⟨h, hholds⟩ => absurd (hs.parent hholds) (Nat.lt_irrefl _), fun h => ?_⟩
      exact (h hfree).elim
  distinct hh hh' := hs.distinct hh hh'

/-- A fid that is handed out is held by the new handle alone. -/
theorem Heap.Agrees.get (hs : s.Agrees) (hpool : s.pools[p]? = some pool) (halive : pool.alive)
    (hget : pool.get = some (fid, pool')) : Heap.Agrees
      { s with pools := s.pools.set p pool', handles := s.handles ++ [some ⟨fid, some p⟩] } := by
  have hintact := hs.intact p pool hpool
  rw [Shared.get, hintact] at hget
  obtain ⟨⟨fid', inner⟩, hinner, heq⟩ := Option.map_eq_some_iff.mp hget
  obtain ⟨rfl, rfl⟩ := Prod.mk.inj heq
  obtain ⟨hvalid, hfree, hfrees⟩ := get_spec (hs.valid p pool hpool) hinner
  have hheld := hs.held p pool hpool halive
  refine hs.update hpool hs.calm rfl rfl hvalid (fun q h fid hne => ?_) (fun _ fid => ?_)
    (fun h h' fid hh hh' => ?_)
  · rw [holds_append, or_iff_left]
    intro h
    obtain ⟨-, heq⟩ := h
    cases heq
    exact hne rfl
  · simp only [holds_append, exists_or, hheld, hfrees, Option.some.injEq, FidHandle.mk.injEq,
      and_true, exists_eq_left]
    tauto
  · have hnew {h : Nat} (hold : s.Holds p h fid') : False := (hheld fid').mp ⟨h, hold⟩ hfree
    obtain hold | ⟨rfl, heq⟩ := holds_append.mp hh
    · obtain hold' | ⟨rfl, heq⟩ := holds_append.mp hh'
      · exact hs.distinct hold hold'
      · cases heq
        exact (hnew hold).elim
    · cases heq
      obtain hold' | ⟨rfl, -⟩ := holds_append.mp hh'
      · exact (hnew hold').elim
      · rfl

theorem Heap.Agrees.default (hs : s.Agrees) :
    Heap.Agrees { s with handles := s.handles ++ [some .default] } := by
  have hsame (p h : Nat) (fid : UInt32) :
      Heap.Holds { s with handles := s.handles ++ [some .default] } p h fid ↔ s.Holds p h fid := by
    rw [holds_append, or_iff_left]
    intro h
    obtain ⟨-, heq⟩ := h
    cases heq
  refine ⟨hs.calm, hs.intact, hs.valid, fun hholds => hs.parent ((hsame ..).mp hholds),
    fun p pool hpool halive fid => ?_, fun hh hh' => ?_⟩
  · rw [← hs.held p pool hpool halive fid]
    exact exists_congr fun h => hsame p h fid
  · exact hs.distinct ((hsame ..).mp hh) ((hsame ..).mp hh')

/-- A handle whose pool is gone, or that never had one, goes without a trace. -/
theorem Heap.Agrees.forget (hs : s.Agrees) {d : Nat} {handle : FidHandle}
    (hhandle : s.handles[d]? = some (some handle))
    (hgone : ∀ p pool, handle.parent = some p → s.pools[p]? = some pool → pool.alive = false) :
    Heap.Agrees { s with handles := s.handles.set d none } := by
  refine ⟨hs.calm, hs.intact, hs.valid, fun hholds => hs.parent (holds_drop.mp hholds).2,
    fun p pool hpool halive fid => ?_, fun hh hh' => ?_⟩
  · rw [← hs.held p pool hpool halive fid]
    refine exists_congr fun h => holds_drop.trans (and_iff_right_of_imp ?_)
    intro hholds heq
    subst heq
    cases hhandle.symm.trans hholds
    cases (hgone p pool rfl hpool).symm.trans halive
  · exact hs.distinct (holds_drop.mp hh).2 (holds_drop.mp hh').2

theorem dropHandle_gone {handle : FidHandle}
    (hgone : ∀ p pool, handle.parent = some p → s.pools[p]? = some pool → pool.alive = false) :
    s.dropHandle handle = s := by
  unfold Heap.dropHandle
  split
  · rfl
  · rename_i p hparent
    split
    · rfl
    · rename_i pool hpool
      rw [hgone p pool hparent hpool]
      rfl

theorem dropHandle_put {inner : FidPool} (hpool : s.pools[p]? = some pool) (halive : pool.alive)
    (hintact : pool.poisoned = false) (hput : pool.inner.put fid = some inner) :
    s.dropHandle ⟨fid, some p⟩ = { s with pools := s.pools.set p { pool with inner } } := by
  simp only [Heap.dropHandle, hpool, halive, hintact, hput, Bool.not_true, Bool.false_eq_true,
    if_false]

/-- A fid that is given back is free, and the assertions of `Drop` hold. -/
theorem Heap.Agrees.put (hs : s.Agrees) {d : Nat} (hhandle : s.Holds p d fid)
    (hpool : s.pools[p]? = some pool) (halive : pool.alive) :
    (Heap.dropHandle { s with handles := s.handles.set d none } ⟨fid, some p⟩).Agrees := by
  have hheld := hs.held p pool hpool halive
  have hintact := hs.intact p pool hpool
  obtain ⟨inner, hput⟩ := Option.isSome_iff_exists.mp (put_isSome ((hheld fid).mp ⟨d, hhandle⟩))
  obtain ⟨hvalid, hfrees⟩ := put_spec (hs.valid p pool hpool) hput
  rw [dropHandle_put (s := { s with handles := s.handles.set d none }) hpool halive hintact hput]
  refine hs.update hpool hs.calm rfl hintact hvalid (fun q h fid' hne => ?_)
    (fun _ fid' => ?_) (fun h h' fid' hh hh' => ?_)
  · refine holds_drop.trans (and_iff_right_of_imp ?_)
    intro hholds heq
    subst heq
    cases hhandle.symm.trans hholds
    exact hne rfl
  · rw [hfrees, not_or, ← hheld fid']
    constructor
    · intro h
      obtain ⟨h, hholds⟩ := h
      obtain ⟨hne, hold⟩ := holds_drop.mp hholds
      refine ⟨⟨h, hold⟩, ?_⟩
      intro heq
      subst heq
      exact hne (hs.distinct hold hhandle)
    · intro h
      obtain ⟨⟨h, hold⟩, hne⟩ := h
      refine ⟨h, holds_drop.mpr ⟨?_, hold⟩⟩
      intro heq
      subst heq
      cases hhandle.symm.trans hold
      exact hne rfl
  · exact hs.distinct (holds_drop.mp hh).2 (holds_drop.mp hh').2

theorem Heap.Agrees.drop (hs : s.Agrees) {d : Nat} {handle : FidHandle}
    (hhandle : s.handles[d]? = some (some handle)) :
    (Heap.dropHandle { s with handles := s.handles.set d none } handle).Agrees := by
  by_cases hgone : ∀ p pool, handle.parent = some p → s.pools[p]? = some pool → pool.alive = false
  · rw [dropHandle_gone (s := { s with handles := s.handles.set d none }) hgone]
    exact hs.forget hhandle hgone
  · push Not at hgone
    obtain ⟨p, pool, hparent, hpool, halive⟩ := hgone
    obtain ⟨fid, parent⟩ := handle
    obtain rfl : parent = some p := hparent
    exact hs.put hhandle hpool (Bool.not_eq_false _ ▸ halive)

theorem agrees_step (hs : s.Agrees) (hstep : s.step a = some s') : s'.Agrees := by
  cases a with
  | new =>
    cases hstep
    exact hs.new
  | get p =>
    obtain ⟨pool, hpool, hstep⟩ := Option.bind_eq_some_iff.mp hstep
    split at hstep
    · rename_i halive
      split at hstep
      · rename_i hget
        cases hstep
        exact hs.get hpool halive hget
      · cases hstep
        exact hs
    · cases hstep
  | default =>
    cases hstep
    exact hs.default
  | drop d =>
    obtain ⟨handle, hhandle, hstep⟩ := Option.bind_eq_some_iff.mp hstep
    cases hstep
    exact hs.drop (Option.join_eq_some_iff.mp hhandle)
  | dropPool p =>
    obtain ⟨pool, hpool, hstep⟩ := Option.bind_eq_some_iff.mp hstep
    split at hstep
    · cases hstep
      refine hs.update hpool hs.calm rfl (hs.intact p pool hpool) (hs.valid p pool hpool)
        (fun _ _ _ _ => Iff.rfl) nofun (fun h h' fid hh hh' => hs.distinct hh hh')
    · cases hstep

theorem reaches_agrees (h : Reaches Heap.step .start s) : s.Agrees := by
  have hstart : Heap.start.Agrees := by
    refine ⟨rfl, nofun, nofun, fun hholds => ?_, nofun, fun hholds => ?_⟩
    · cases hholds
    · cases hholds
  exact h.invariant hstart fun hs _ hstep => agrees_step hs hstep

/-- The law of the fid pool. Live handles of a pool have different fids; these
and the free list share out the fids below `next`; a drop never fails; a get
hands out the smallest free fid or `next`, never NOFID, and fails only when all
others are live. Default handles and those whose pool is gone alter no pool. -/
theorem fid_pool_law (s : Heap) (h : Reaches Heap.step .start s) :
    s.panicked = false ∧
    (∀ p pool, s.pools[p]? = some pool → pool.alive →
      (∀ h h' fid, s.Holds p h fid → s.Holds p h' fid → h = h') ∧
      (∀ fid, fid < pool.inner.next ↔ fid ∈ pool.inner.freeList ∨ ∃ h, s.Holds p h fid) ∧
      (∀ fid ∈ pool.inner.freeList, ¬∃ h, s.Holds p h fid) ∧
      (∀ h fid, s.Holds p h fid → fid < pool.inner.next ∧ fid ∉ pool.inner.freeList) ∧
      (∀ fid pool', pool.get = some (fid, pool') → fid ≠ 0xFFFFFFFF ∧
        ((fid ∈ pool.inner.freeList ∧ ∀ other ∈ pool.inner.freeList, fid ≤ other) ∨
          (pool.inner.freeList.isEmpty ∧ fid = pool.inner.next))) ∧
      (pool.get = none → ∀ fid, fid ≠ 0xFFFFFFFF → ∃ h, s.Holds p h fid)) ∧
    (∀ d handle s', s.handles[d]? = some (some handle) → s.step (.drop d) = some s' →
      (∀ p pool, handle.parent = some p → s.pools[p]? = some pool → pool.alive = false) →
      s'.pools = s.pools) ∧
    (∀ s', s.step .default = some s' → s'.pools = s.pools) := by
  have hs := reaches_agrees h
  refine ⟨hs.calm, fun p pool hpool halive => ?_, fun d handle s' hhandle hstep hgone => ?_, ?_⟩
  · have hheld := hs.held p pool hpool halive
    have hvalid := hs.valid p pool hpool
    have hlive {fid : UInt32} (hholds : ∃ h, s.Holds p h fid) :
        fid < pool.inner.next ∧ fid ∉ pool.inner.freeList := by
      obtain ⟨hfree, hge⟩ := not_or.mp ((hheld fid).mp hholds)
      exact ⟨UInt32.not_le.mp hge, hfree⟩
    refine ⟨fun _ _ _ => hs.distinct, fun fid => ⟨fun hlt => ?_, ?_⟩, fun fid hfree hholds => ?_,
      fun h fid hholds => hlive ⟨h, hholds⟩, fun fid pool' hget => ?_, fun hget fid hfid => ?_⟩
    · by_cases hfree : fid ∈ pool.inner.freeList
      · exact .inl hfree
      · exact .inr ((hheld fid).mpr (not_or.mpr ⟨hfree, UInt32.not_le.mpr hlt⟩))
    · intro h
      obtain hfree | hholds := h
      · exact hvalid fid hfree
      · exact (hlive hholds).1
    · exact (hlive hholds).2 hfree
    · rw [Shared.get, hs.intact p pool hpool] at hget
      obtain ⟨⟨fid', inner⟩, hinner, heq⟩ := Option.map_eq_some_iff.mp hget
      obtain ⟨rfl, -⟩ := Prod.mk.inj heq
      obtain ⟨hmem, hmin⟩ | ⟨hempty, rfl, hmax⟩ := get_least hinner
      · refine ⟨?_, .inl ⟨hmem, hmin⟩⟩
        intro hsame
        subst hsame
        have hlt := UInt32.lt_iff_toNat_lt.mp (hvalid _ hmem)
        have := pool.inner.next.toNat_lt
        have : (0xFFFFFFFF : UInt32).toNat = 4294967295 := rfl
        omega
      · refine ⟨?_, .inr ⟨hempty, rfl⟩⟩
        intro hmax'
        rw [hmax'] at hmax
        exact absurd hmax (by decide)
    · rw [Shared.get, hs.intact p pool hpool] at hget
      exact (hheld fid).mpr (get_none (Option.map_eq_none_iff.mp hget) hfid)
  · simp only [Heap.step, hhandle, Option.join_some, Option.bind_eq_bind, Option.bind_some] at hstep
    cases hstep
    rw [dropHandle_gone (s := { s with handles := s.handles.set d none }) hgone]
  · intro s' hstep
    cases hstep
    rfl

theorem fid_pool_law_reused : ∃ s,
    exec Heap.step .start [.new, .get 0, .get 0, .drop 0, .get 0] = some s ∧ s.Holds 0 2 0 ∧
      ∀ h, s.Holds 0 h 0 → h = 2 := by
  obtain ⟨s, pool, hexec, hholds, hpool, halive⟩ : ∃ s pool,
      exec Heap.step .start [.new, .get 0, .get 0, .drop 0, .get 0] = some s ∧ s.Holds 0 2 0 ∧
        s.pools[0]? = some pool ∧ pool.alive := ⟨_, _, rfl, rfl, rfl, rfl⟩
  obtain ⟨-, hlaw, -⟩ := fid_pool_law s (reaches_of_exec hexec)
  exact ⟨s, hexec, hholds, fun h hh => (hlaw 0 pool hpool halive).1 h 2 0 hh hholds⟩

end Heap

end NineWire.Util
