import Mathlib.Data.Finset.Image
import Mathlib.Data.Finset.Card
import Mathlib.Data.Finset.Max

/-! Ranges of integers in a list, as a representation of a finite set: which
numbers the ranges cover and how many there are, and what one more range comes
to once it has absorbed the ranges behind it. General. -/
namespace NineWire.Ranges

/-- The numbers from `lo` to `hi`, of which there is at least one. -/
structure Range where
  lo : Int
  hi : Int
  le : lo ≤ hi
  deriving DecidableEq

def interval (lo hi : Int) : Finset Int :=
  (Finset.range (hi - lo + 1).toNat).image fun k : Nat => lo + k

def Range.elems (r : Range) : Finset Int := interval r.lo r.hi

def Range.size (r : Range) : Int := r.hi - r.lo + 1

def elems : List Range → Finset Int
  | [] => ∅
  | r :: rs => r.elems ∪ elems rs

def total : List Range → Int
  | [] => 0
  | r :: rs => r.size + total rs

def Rising (rs : List Range) : Prop := rs.Pairwise fun r r' => r.lo < r'.lo

def Apart (rs : List Range) : Prop := rs.Pairwise fun r r' => r.hi < r'.lo

variable {r r' : Range} {rs rs' : List Range} {i : Int}

@[simp] theorem mem_interval {lo hi : Int} : i ∈ interval lo hi ↔ lo ≤ i ∧ i ≤ hi := by
  simp only [interval, Finset.mem_image, Finset.mem_range]
  constructor
  · rintro ⟨k, hk, rfl⟩
    omega
  · intro h
    exact ⟨(i - lo).toNat, by omega, by omega⟩

@[simp] theorem Range.mem_elems : i ∈ r.elems ↔ r.lo ≤ i ∧ i ≤ r.hi := mem_interval

theorem Range.lo_mem (r : Range) : r.lo ∈ r.elems := by simp [r.le]

theorem Range.hi_mem (r : Range) : r.hi ∈ r.elems := by simp [r.le]

@[simp] theorem mem_elems : i ∈ elems rs ↔ ∃ r ∈ rs, r.lo ≤ i ∧ i ≤ r.hi := by
  induction rs with
  | nil => simp [elems]
  | cons r rs ih => simp [elems, ih]

theorem elems_append : elems (rs ++ rs') = elems rs ∪ elems rs' := by
  ext i
  simp only [mem_elems, Finset.mem_union, List.mem_append, or_and_right, exists_or]

theorem elems_cons : elems (r :: rs) = r.elems ∪ elems rs := rfl

theorem elems_middle : elems (rs ++ r :: rs') = elems (rs ++ rs') ∪ r.elems := by
  rw [elems_append, elems_append, elems_cons, Finset.union_comm r.elems, Finset.union_assoc]

theorem total_cons : total (r :: rs) = r.size + total rs := rfl

theorem total_append : total (rs ++ rs') = total rs + total rs' := by
  induction rs with
  | nil => simp [total]
  | cons r rs ih =>
    rw [List.cons_append, total_cons, total_cons, ih]
    omega

theorem Range.card (r : Range) : (r.elems.card : Int) = r.size := by
  have h := r.le
  have hinj : Function.Injective fun k : Nat => r.lo + k := by
    intro k k' hk
    simp only at hk
    omega
  rw [Range.elems, interval, Finset.card_image_of_injective _ hinj, Finset.card_range, Range.size]
  omega

theorem total_cut : total (rs ++ r :: rs') = total rs + r.size + total rs' := by
  rw [total_append, total_cons]
  omega

theorem total_nonneg (rs : List Range) : 0 ≤ total rs := by
  induction rs with
  | nil => simp [total]
  | cons r rs ih =>
    have h := r.le
    rw [total_cons, Range.size]
    omega

theorem total_eq_zero : total rs = 0 ↔ rs = [] := by
  cases rs with
  | nil => simp [total]
  | cons r rs =>
    have h := r.le
    have hrs := total_nonneg rs
    rw [total_cons, Range.size]
    constructor
    · omega
    · simp

theorem Apart.rising (h : Apart rs) : Rising rs := by
  apply h.imp
  intro r r' hrr'
  have hle := r.le
  omega

theorem rising_cut : Rising (rs ++ r :: rs') ↔
    Rising rs ∧ Rising rs' ∧ (∀ x ∈ rs, x.lo < r.lo) ∧ ∀ y ∈ rs', r.lo < y.lo := by
  unfold Rising
  rw [List.pairwise_append, List.pairwise_cons]
  constructor
  · rintro ⟨hrs, ⟨hr, hrs'⟩, hx⟩
    exact ⟨hrs, hrs', fun x hxs => hx x hxs r List.mem_cons_self, hr⟩
  · rintro ⟨hrs, hrs', hx, hr⟩
    refine ⟨hrs, ⟨hr, hrs'⟩, ?_⟩
    intro x hxs y hy
    rcases List.mem_cons.mp hy with rfl | hy
    · exact hx x hxs
    · have h1 := hx x hxs
      have h2 := hr y hy
      omega

theorem Rising.length_le (h : Rising (r :: rs)) :
    ∃ x ∈ r :: rs, r.lo + rs.length ≤ x.lo := by
  induction rs generalizing r with
  | nil => exact ⟨r, List.mem_cons_self, by simp⟩
  | cons r' rs ih =>
    obtain ⟨hr, hrs⟩ := List.pairwise_cons.mp h
    obtain ⟨x, hx, hle⟩ := ih hrs
    have hlt := hr r' List.mem_cons_self
    refine ⟨x, List.mem_cons_of_mem r hx, ?_⟩
    rw [List.length_cons]
    omega

/-- The last range that begins before a number. -/
theorem Rising.last_before {k : Int} (h : Rising (r :: rs)) (hr : r.lo < k) :
    ∃ ps p ps', r :: rs = ps ++ p :: ps' ∧ p.lo < k ∧ ∀ x ∈ ps', k ≤ x.lo := by
  induction rs generalizing r with
  | nil => exact ⟨[], r, [], rfl, hr, by simp⟩
  | cons r' rs ih =>
    obtain ⟨-, hrs⟩ := List.pairwise_cons.mp h
    by_cases hr' : r'.lo < k
    · obtain ⟨ps, p, ps', hcut, hp, hps'⟩ := ih hrs hr'
      exact ⟨r :: ps, p, ps', by rw [hcut, List.cons_append], hp, hps'⟩
    · refine ⟨[], r, r' :: rs, rfl, hr, ?_⟩
      intro x hx
      rcases List.mem_cons.mp hx with rfl | hx
      · omega
      · have hlt := (List.pairwise_cons.mp hrs).1 x hx
        omega

theorem Rising.change (h : Rising (rs ++ r :: rs')) (hlo : r'.lo = r.lo) :
    Rising (rs ++ r' :: rs') := by
  rw [rising_cut] at *
  rwa [hlo]

theorem Rising.erase (h : Rising (rs ++ r :: rs')) : Rising (rs ++ rs') :=
  h.sublist ((List.Sublist.refl rs).append (List.sublist_cons_self r rs'))

theorem Apart.erase (h : Apart (rs ++ r :: rs')) : Apart (rs ++ rs') :=
  h.sublist ((List.Sublist.refl rs).append (List.sublist_cons_self r rs'))

theorem apart_cut : Apart (rs ++ r :: rs') ↔
    Apart rs ∧ Apart rs' ∧ (∀ x ∈ rs, x.hi < r.lo) ∧ ∀ y ∈ rs', r.hi < y.lo := by
  unfold Apart
  rw [List.pairwise_append, List.pairwise_cons]
  constructor
  · rintro ⟨hrs, ⟨hr, hrs'⟩, hx⟩
    exact ⟨hrs, hrs', fun x hxs => hx x hxs r List.mem_cons_self, hr⟩
  · rintro ⟨hrs, hrs', hx, hr⟩
    refine ⟨hrs, ⟨hr, hrs'⟩, ?_⟩
    intro x hxs y hy
    rcases List.mem_cons.mp hy with rfl | hy
    · exact hx x hxs
    · have h1 := hx x hxs
      have h2 := hr y hy
      have hle := r.le
      omega

/-- Where the ranges are apart, their sizes add up to the size of the set. -/
theorem Apart.total_eq (h : Apart rs) : total rs = ((elems rs).card : Int) := by
  induction rs with
  | nil => simp [total, elems]
  | cons r rs ih =>
    obtain ⟨hr, hrs⟩ := List.pairwise_cons.mp h
    have hdisj : Disjoint r.elems (elems rs) := by
      rw [Finset.disjoint_left]
      intro i hi hmem
      obtain ⟨r', hr', hlo, -⟩ := mem_elems.mp hmem
      have hlt := hr r' hr'
      have hhi := (Range.mem_elems.mp hi).2
      omega
    rw [total_cons, elems_cons, Finset.card_union_of_disjoint hdisj, ih hrs]
    have hcard := r.card
    omega

theorem Apart.head_least (h : Apart (r :: rs)) (hi : i ∈ elems (r :: rs)) : r.lo ≤ i := by
  obtain ⟨hr, -⟩ := List.pairwise_cons.mp h
  rw [elems_cons, Finset.mem_union] at hi
  rcases hi with hi | hi
  · exact (Range.mem_elems.mp hi).1
  · obtain ⟨r', hr', hlo, -⟩ := mem_elems.mp hi
    have hlt := hr r' hr'
    have hle := r.le
    omega

theorem Apart.min_eq (h : Apart (r :: rs)) (hne : (elems (r :: rs)).Nonempty) :
    (elems (r :: rs)).min' hne = r.lo := by
  have hlo : r.lo ∈ elems (r :: rs) := mem_elems.mpr ⟨r, List.mem_cons_self, le_refl _, r.le⟩
  apply le_antisymm
  · exact Finset.min'_le _ _ hlo
  · exact Finset.le_min' _ _ _ fun i hi => h.head_least hi

section cut
variable {new p : Range} {ps ps' : List Range} {j k : Int}

/-- The range from the beginning of `r` to the end of `new`. -/
def reach (r new : Range) (h : r.lo ≤ new.hi) : Range := ⟨r.lo, new.hi, h⟩

theorem elems_reach (h : r.lo ≤ new.hi) (hlo : r.lo ≤ new.lo)
    (htouch : new.lo ≤ r.hi + 1) (hmore : r.hi ≤ new.hi) :
    elems (rs ++ reach r new h :: rs') = elems (rs ++ r :: rs') ∪ new.elems := by
  have hreach : (reach r new h).elems = r.elems ∪ new.elems := by
    ext i
    simp only [Range.mem_elems, Finset.mem_union, reach]
    omega
  rw [elems_middle, elems_middle, hreach, Finset.union_assoc]

theorem elems_subset_of_mem (hr : r ∈ rs) (hlo : r.lo ≤ new.lo) (hhi : new.hi ≤ r.hi) :
    new.elems ⊆ elems rs := by
  intro i hi
  obtain ⟨h1, h2⟩ := Range.mem_elems.mp hi
  exact mem_elems.mpr ⟨r, hr, by omega, by omega⟩

theorem rising_insert (h : Rising (rs ++ r :: rs')) (hlo : r.lo < new.lo)
    (hbehind : ∀ x ∈ rs', new.lo < x.lo) : Rising ((rs ++ [r]) ++ new :: rs') := by
  rw [List.append_cons] at h
  obtain ⟨hrs, hrs', -⟩ := List.pairwise_append.mp h
  refine rising_cut.mpr ⟨hrs, hrs', ?_, hbehind⟩
  intro x hx
  rcases List.mem_append.mp hx with hx | hx
  · have hxr := (List.pairwise_append.mp hrs).2.2 x hx r (by simp)
    omega
  · obtain rfl := List.mem_singleton.mp hx
    exact hlo

/-- The numbers of `r` up to `k`, and those behind it. -/
def upTo (r : Range) (k : Int) (h : r.lo ≤ k) : Range := ⟨r.lo, k, h⟩

def above (r : Range) (k : Int) (h : k < r.hi) : Range := ⟨k + 1, r.hi, h⟩

theorem filter_cut (hapart : Apart (ps ++ p :: ps')) (hlo : p.lo ≤ k)
    (hbehind : ∀ x ∈ ps', k < x.lo) :
    (elems (ps ++ p :: ps')).filter (k < ·) = p.elems.filter (k < ·) ∪ elems ps' := by
  obtain ⟨-, -, hbefore, -⟩ := apart_cut.mp hapart
  have hps : (elems ps).filter (k < ·) = ∅ := by
    apply Finset.filter_false_of_mem
    intro i hi
    obtain ⟨x, hx, -, hhi⟩ := mem_elems.mp hi
    have hxp := hbefore x hx
    omega
  have hps' : (elems ps').filter (k < ·) = elems ps' := by
    apply Finset.filter_true_of_mem
    intro i hi
    obtain ⟨x, hx, hlo, -⟩ := mem_elems.mp hi
    have hkx := hbehind x hx
    omega
  rw [elems_append, elems_cons, Finset.filter_union, Finset.filter_union, hps, hps',
    Finset.empty_union]

theorem filter_skip (hapart : Apart (ps ++ p :: ps')) (hhi : p.hi ≤ k)
    (hbehind : ∀ x ∈ ps', k < x.lo) : (elems (ps ++ p :: ps')).filter (k < ·) = elems ps' := by
  have hle := p.le
  have hp : p.elems.filter (k < ·) = ∅ := by
    apply Finset.filter_false_of_mem
    intro i hi
    have hmem := Range.mem_elems.mp hi
    omega
  rw [filter_cut hapart (by omega) hbehind, hp, Finset.empty_union]

theorem filter_split (hapart : Apart (ps ++ p :: ps')) (hlo : p.lo ≤ k) (hhi : k < p.hi)
    (hbehind : ∀ x ∈ ps', k < x.lo) :
    (elems (ps ++ p :: ps')).filter (k < ·) = elems (above p k hhi :: ps') := by
  rw [filter_cut hapart hlo hbehind, elems_cons]
  congr 1
  ext i
  simp only [Finset.mem_filter, Range.mem_elems, above]
  omega

theorem rising_split (h : Rising (ps ++ p :: ps')) (hlo : p.lo ≤ j) (hjk : j ≤ k)
    (hhi : k < p.hi) (hbehind : ∀ x ∈ ps', p.hi < x.lo) :
    Rising ((ps ++ [upTo p j hlo]) ++ above p k hhi :: ps') := by
  have hupTo : Rising (ps ++ upTo p j hlo :: ps') := h.change rfl
  have hlt : (upTo p j hlo).lo < (above p k hhi).lo := by
    simp only [upTo, above]
    omega
  apply rising_insert hupTo hlt
  intro x hx
  have hpx := hbehind x hx
  simp only [above]
  omega

end cut

section absorb

def Range.cover (r r' : Range) : Range where
  lo := r.lo
  hi := max r.hi r'.hi
  le := by have h := r.le; omega

def absorb (r : Range) : List Range → List Range
  | [] => [r]
  | r' :: rs =>
    if r.lo < r.hi ∧ r'.lo ≤ r.hi + 1 then absorb (r.cover r') rs else r :: r' :: rs

/-- Nothing is lost and nothing added. -/
theorem elems_absorb (hlo : ∀ r' ∈ rs, r.lo < r'.lo) :
    elems (absorb r rs) = r.elems ∪ elems rs := by
  induction rs generalizing r with
  | nil => simp [absorb, elems]
  | cons r' rs ih =>
    rw [absorb]
    split_ifs with h
    · have hr' := hlo r' List.mem_cons_self
      have hcover : ∀ r'' ∈ rs, (r.cover r').lo < r''.lo :=
        fun r'' hr'' => hlo r'' (List.mem_cons_of_mem r' hr'')
      rw [ih hcover, elems_cons, ← Finset.union_assoc]
      congr 1
      ext i
      simp only [Range.mem_elems, Finset.mem_union, Range.cover]
      omega
    · simp [elems]

theorem mem_absorb (h : r' ∈ absorb r rs) : r'.lo = r.lo ∨ r' ∈ rs := by
  induction rs generalizing r with
  | nil =>
    obtain rfl := List.mem_singleton.mp h
    exact .inl rfl
  | cons x rs ih =>
    rw [absorb] at h
    split_ifs at h
    · rcases ih h with h | h
      · exact .inl h
      · exact .inr (List.mem_cons_of_mem x h)
    · rcases List.mem_cons.mp h with rfl | h
      · exact .inl rfl
      · exact .inr h

/-- Afterwards no two overlap. -/
theorem Apart.absorb (h : Apart rs) (hlo : ∀ r' ∈ rs, r.lo < r'.lo) : Apart (absorb r rs) := by
  induction rs generalizing r with
  | nil => simp [Ranges.absorb, Apart]
  | cons r' rs ih =>
    obtain ⟨hr', hrs⟩ := List.pairwise_cons.mp h
    rw [Ranges.absorb]
    split_ifs with hif
    · exact ih hrs fun r'' hr'' => hlo r'' (List.mem_cons_of_mem r' hr'')
    · refine List.pairwise_cons.mpr ⟨?_, h⟩
      intro r'' hr''
      have hfirst := hlo r' List.mem_cons_self
      have hle := r.le
      have hr'le := r'.le
      rcases List.mem_cons.mp hr'' with rfl | hr''
      · omega
      · have hlt := hr' r'' hr''
        omega

end absorb

end NineWire.Ranges
