import NineWire.Udt.SndLossList

/-! What the sender's loss list looks like between its calls, and that an
insertion leaves it so: a node that covers the new numbers takes its place, and
then takes over the nodes it reaches. -/
namespace NineWire.Udt
open NineWire.Ranges NineWire.Ring NineWire.Chain NineWire.Udt.SeqNo
namespace SndLossList

structure Layout (l : SndLossList) (c : Int) (ns : List Range) : Prop where
  cells : Cells l.size c l.data1 l.data2 ns
  links : Seg l.next l.head (ns.map (node l.size c)) (-1)
  total : l.length = total ns
  last : l.lastInsertPos = -1 ∨ ∃ r ∈ ns, l.lastInsertPos = node l.size c r
  rising : Rising ns
  fits : Fits l.size ns

variable {l : SndLossList} {c : Int} {r b : Range} {ns rs rs' : List Range}

theorem joined_eq {loc i : Int} (hfits : Fits l.size ns) (hr : r ∈ ns) (hb : b ∈ ns)
    (hloc : l.data2 loc = num r.hi) (hi : l.data1 i = num b.lo) (hi' : l.data2 i = endOf b)
    (htouch : b.lo ≤ r.hi + 1) :
    l.joined loc i = (num (r.cover b).hi, l.length - (r.size + b.size - (r.cover b).size)) := by
  have hble := b.le
  have hrle := r.le
  have hspan := hfits.span r hr b hb
  have hspan' := hfits.span b hb b hb
  have hlt := hfits.size_lt
  have hnear : Near b.hi r.hi := hfits.near hb hr hble (by omega) hrle (by omega)
  have hnear' : Near r.hi b.lo := hfits.near hr hb hrle (by omega) (by omega) (by omega)
  have hnear'' : Near b.lo (r.hi + 1) := hfits.near hb hr (by omega) (by omega) (by omega)
    (by omega)
  unfold joined
  rw [hloc, hi, hi']
  simp only [Range.cover, Range.size]
  by_cases hsingle : b.lo = b.hi
  · rw [if_neg (not_not.mpr (endOf_eq_neg.mpr hsingle)), incseq_num]
    split_ifs with hnext
    · rw [num_inj hnear''] at hnext
      exact Prod.ext (congrArg num (by omega)) (by simp only; omega)
    · rw [num_inj hnear''] at hnext
      exact Prod.ext (congrArg num (by omega)) (by simp only; omega)
  · have hend : endOf b = num b.hi := endOf_of_lt (by omega)
    rw [if_pos (mt endOf_eq_neg.mp hsingle), hend, seqlen_num hble (by omega)]
    split_ifs with hmore htouches
    · rw [seqcmp_pos hnear] at hmore
      rw [seqcmp_nonneg hnear'] at htouches
      rw [seqlen_num htouches (by omega)]
      exact Prod.ext (congrArg num (by omega)) (by simp only; omega)
    · rw [seqcmp_pos hnear] at hmore
      rw [seqcmp_nonneg hnear'] at htouches
      exact Prod.ext (congrArg num (by omega)) (by simp only; omega)
    · rw [seqcmp_pos hnear] at hmore
      exact Prod.ext (congrArg num (by omega)) (by simp only; omega)

/-- Taking over the next node leaves the nodes in order. -/
theorem Layout.merge (h : Layout l c (rs ++ r :: b :: rs')) (hlt : r.lo < r.hi)
    (htouch : b.lo ≤ r.hi + 1) (hlast : l.lastInsertPos = node l.size c r) :
    Layout (l.merge (node l.size c r) (node l.size c b)) c (rs ++ r.cover b :: rs') := by
  have hr : r ∈ rs ++ r :: b :: rs' := by simp
  have hb : b ∈ rs ++ r :: b :: rs' := by simp
  have hrle := r.le
  have hble := b.le
  have hrb : r.lo < b.lo := (rising_cut.mp h.rising).2.2.2 b List.mem_cons_self
  have hjoined := joined_eq h.fits hr hb ((h.cells.last r hr).trans (endOf_of_lt hlt))
    (h.cells.first b hb) (h.cells.last b hb) htouch
  have hend : endOf (r.cover b) = num (r.cover b).hi :=
    endOf_of_lt (lt_of_lt_of_le hlt (le_max_left r.hi b.hi))
  have hrising : Rising (rs ++ r.cover b :: b :: rs') := h.rising.change rfl
  have hfits : Fits l.size (rs ++ r.cover b :: b :: rs') := by
    refine h.fits.change (le_refl _) ?_
    rcases le_total r.hi b.hi with hle | hle
    · exact ⟨b, hb, by simp [Range.cover, hle]⟩
    · exact ⟨r, hr, by simp [Range.cover, hle]⟩
  have hcells : Cells l.size c l.data1 (Function.update l.data2 (node l.size c r)
      (endOf (r.cover b))) (rs ++ r.cover b :: b :: rs') :=
    h.cells.change_cut h.fits h.rising rfl
  have hlinks := h.links
  rw [List.map_append, List.map_cons, List.map_cons, seg_cut] at hlinks
  obtain ⟨hbefore, hnext, hafter⟩ := hlinks
  have hnot := Cells.not_mem_cut (c := c) h.fits h.rising
  rw [List.append_cons] at hcells hfits hrising
  have herase := hcells.erase_cut hfits hrising
  rw [List.append_assoc, List.singleton_append] at herase
  constructor
  · simpa only [SndLossList.merge, hjoined, hend] using herase
  · rw [List.map_append, List.map_cons]
    exact hbefore.redirect hafter hnot.1 (List.not_mem_of_not_mem_cons hnot.2)
  · simp only [SndLossList.merge, hjoined, h.total, total_cut, total_cons]
    omega
  · exact .inr ⟨r.cover b, by simp, hlast⟩
  · simpa using hrising.erase
  · rw [← List.singleton_append, ← List.append_assoc]
    exact hfits.erase

/-- The loop ends with no node left that `r` touches. -/
theorem Layout.coalesce (h : Layout l c (rs ++ r :: rs'))
    (hlast : l.lastInsertPos = node l.size c r)
    {fuel : Nat} (hfuel : rs'.length ≤ fuel) :
    Layout (SndLossList.coalesce (node l.size c r) fuel l) c (rs ++ absorb r rs') := by
  induction rs' generalizing l r fuel with
  | nil =>
    have hlinks := h.links
    rw [List.map_append, List.map_cons, seg_cut] at hlinks
    have hnext : l.next (node l.size c r) = -1 := hlinks.2
    cases fuel with
    | zero => exact h
    | succ fuel => simpa [SndLossList.coalesce, hnext, absorb] using h
  | cons b rs' ih =>
    obtain ⟨fuel, rfl⟩ := Nat.exists_eq_add_one_of_ne_zero (n := fuel) (by simp at hfuel; omega)
    have hr : r ∈ rs ++ r :: b :: rs' := by simp
    have hb : b ∈ rs ++ r :: b :: rs' := by simp
    have hlinks := h.links
    rw [List.map_append, List.map_cons, List.map_cons, seg_cut] at hlinks
    have hnext : l.next (node l.size c r) = node l.size c b := hlinks.2.1
    have hrb : r.lo < b.lo := (rising_cut.mp h.rising).2.2.2 b List.mem_cons_self
    have hrle := r.le
    have hble := b.le
    rw [SndLossList.coalesce, hnext, h.cells.last r hr, h.cells.first b hb, absorb]
    by_cases hlt : r.lo < r.hi
    · have hnear : Near b.lo (r.hi + 1) :=
        h.fits.near hb hr (le_refl _) (by omega) (by omega) (le_refl _)
      rw [if_pos ⟨h.fits.node_ne hb, mt endOf_eq_neg.mp (by omega)⟩, endOf_of_lt hlt, incseq_num]
      by_cases htouch : b.lo ≤ r.hi + 1
      · rw [if_pos ((seqcmp_nonpos hnear).mpr htouch), if_pos ⟨hlt, htouch⟩]
        exact ih (h.merge hlt htouch hlast) hlast (by simpa using hfuel)
      · rw [if_neg (mt (seqcmp_nonpos hnear).mp htouch), if_neg (by omega)]
        exact h
    · have hsingle : endOf r = -1 := endOf_eq_neg.mpr (by omega)
      rw [if_neg (by simp [hsingle]), if_neg (by omega)]
      exact h

theorem Layout.head (h : Layout l c (r :: ns)) : l.head = node l.size c r := h.links.1

theorem Layout.nil_of_length (h : Layout l c ns) : l.length = 0 ↔ ns = [] := by
  rw [h.total, total_eq_zero]

theorem loc_eq {size i k : Int} (hsize : 0 < size) (hk : -size < k) :
    (slot size c i + k + size).tmod size = slot size c (i + k) := by
  have hnonneg := slot_nonneg (c := c) (i := i) hsize
  rw [Int.tmod_eq_emod_of_nonneg (by omega), slot_add_cycle]

/-- The search stops at the last node that begins before the number. -/
theorem prior_spec {i : Int} (h : Layout l c (rs ++ r :: rs'))
    (hnear : ∀ x ∈ rs ++ r :: rs', Near x.lo i) (hlt : r.lo < i) {fuel : Nat}
    (hfuel : rs'.length ≤ fuel) :
    ∃ ps p ps', rs ++ r :: rs' = ps ++ p :: ps' ∧
      l.prior (num i) fuel (node l.size c r) = node l.size c p ∧ p.lo < i ∧ ∀ x ∈ ps',
        i ≤ x.lo := by
  induction rs' generalizing rs r fuel with
  | nil =>
    have hlinks := h.links
    rw [List.map_append, List.map_cons, seg_cut] at hlinks
    have hnext : l.next (node l.size c r) = -1 := hlinks.2
    refine ⟨rs, r, [], rfl, ?_, hlt, by simp⟩
    cases fuel with
    | zero => rfl
    | succ fuel => simp [prior, hnext]
  | cons b rs' ih =>
    obtain ⟨fuel, rfl⟩ := Nat.exists_eq_add_one_of_ne_zero (n := fuel) (by simp at hfuel; omega)
    have hb : b ∈ rs ++ r :: b :: rs' := by simp
    have hlinks := h.links
    rw [List.map_append, List.map_cons, List.map_cons, seg_cut] at hlinks
    have hnext : l.next (node l.size c r) = node l.size c b := hlinks.2.1
    have hfirst := h.cells.first b hb
    rw [prior, hnext, hfirst]
    by_cases hbi : b.lo < i
    · rw [if_pos ⟨h.fits.node_ne hb, (seqcmp_neg (hnear b hb)).mpr hbi⟩]
      rw [List.append_cons] at h hnear ⊢
      exact ih h hnear hbi (by simpa using hfuel)
    · rw [if_neg fun hif => hbi ((seqcmp_neg (hnear b hb)).mp hif.2)]
      refine ⟨rs, r, b :: rs', rfl, rfl, hlt, ?_⟩
      have hrising := (rising_cut.mp h.rising).2.1
      intro x hx
      rcases List.mem_cons.mp hx with rfl | hx
      · omega
      · have hbx := (List.pairwise_cons.mp hrising).1 x hx
        omega

inductive Placed (size c : Int) (ns : List Range) (new : Range) : Option Int × SndLossList → Prop
  | there {l : SndLossList} : Layout l c ns → l.size = size → new.elems ⊆ elems ns →
      Placed size c ns new (none, l)
  | covered {l : SndLossList} {rs rs' : List Range} {r : Range} :
      Layout l c (rs ++ r :: rs') → l.size = size → l.lastInsertPos = node size c r →
      Apart rs → Apart rs' → (∀ x ∈ rs, x.hi < r.lo) →
      elems (rs ++ r :: rs') = elems ns ∪ new.elems →
      Placed size c ns new (some (node size c r), l)

theorem Layout.lastInsert (h : Layout l c ns) (hr : r ∈ ns) :
    Layout { l with lastInsertPos := node l.size c r } c ns :=
  ⟨h.cells, h.links, h.total, .inr ⟨r, hr, rfl⟩, h.rising, h.fits⟩

theorem Layout.extend {new : Range} (h : Layout l c (rs ++ r :: rs')) (hlt : r.lo < new.hi)
    (hfits : Fits l.size (new :: (rs ++ r :: rs'))) (hlast : l.lastInsertPos = node l.size c r)
    {n : Int} (hn : n = new.hi - r.hi) :
    Layout { l with
      length := l.length + n
      data2 := Function.update l.data2 (node l.size c r) (num new.hi) } c
      (rs ++ reach r new (Int.le_of_lt hlt) :: rs') := by
  have hend : endOf (reach r new (Int.le_of_lt hlt)) = num new.hi := endOf_of_lt hlt
  constructor
  · rw [← hend]
    exact h.cells.change_cut h.fits h.rising rfl
  · change Seg l.next l.head ((rs ++ reach r new (Int.le_of_lt hlt) :: rs').map (node l.size c))
      (-1)
    have hnodes : (rs ++ reach r new (Int.le_of_lt hlt) :: rs').map (node l.size c) =
        (rs ++ r :: rs').map (node l.size c) := map_node_change rfl
    rw [hnodes]
    exact h.links
  · simp only [h.total, total_cut, Range.size, reach, hn]
    omega
  · exact .inr ⟨reach r new (Int.le_of_lt hlt), by simp, hlast⟩
  · exact h.rising.change rfl
  · exact fits_reach (Int.le_of_lt hlt) hfits

theorem Placed.extended {new : Range} (h : Layout l c (rs ++ r :: rs'))
    (hapart : Apart (rs ++ r :: rs'))
    (hlo : r.lo ≤ new.lo) (htouch : new.lo ≤ r.hi + 1) (hmore : r.hi ≤ new.hi) (hlt : r.lo < new.hi)
    (hfits : Fits l.size (new :: (rs ++ r :: rs'))) (hlast : l.lastInsertPos = node l.size c r)
    {n : Int} (hn : n = new.hi - r.hi) :
    Placed l.size c (rs ++ r :: rs') new (some (node l.size c r), { l with
      length := l.length + n
      data2 := Function.update l.data2 (node l.size c r) (num new.hi) }) := by
  obtain ⟨hrs, hrs', hbefore, -⟩ := apart_cut.mp hapart
  have hextend := h.extend hlt hfits hlast hn
  apply Placed.covered hextend rfl hlast hrs hrs' hbefore
    (elems_reach (Int.le_of_lt hlt) hlo htouch hmore)

theorem widen_spec {new : Range} (h : Layout l c (rs ++ r :: rs')) (hapart : Apart (rs ++ r :: rs'))
    (hlo : r.lo = new.lo) (hfits : Fits l.size (new :: (rs ++ r :: rs')))
    (hlast : l.lastInsertPos = node l.size c r) :
    Placed l.size c (rs ++ r :: rs') new (l.widen (node l.size c r) (num new.lo) (num new.hi)) := by
  have hr : r ∈ rs ++ r :: rs' := by simp
  have hnew : new ∈ new :: (rs ++ r :: rs') := List.mem_cons_self
  have hle := r.le
  have hle' := new.le
  have hspan := hfits.span new hnew r (List.mem_cons_of_mem new hr)
  have hsize := hfits.size_lt
  have hnear : Near new.hi r.hi :=
    hfits.near hnew (List.mem_cons_of_mem new hr) (by omega) (by omega) (by omega) (by omega)
  have hnear' : Near new.hi new.lo :=
    hfits.near hnew hnew (by omega) (by omega) (by omega) (by omega)
  unfold widen
  rw [h.cells.last r hr]
  by_cases hsingle : r.lo = r.hi
  · rw [if_pos (endOf_eq_neg.mpr hsingle)]
    by_cases hne : new.hi = new.lo
    · obtain ⟨hrs, hrs', hbefore, -⟩ := apart_cut.mp hapart
      have hsub : new.elems ⊆ elems (rs ++ r :: rs') := elems_subset_of_mem hr hlo.le (by omega)
      rw [if_neg (by simp [hne])]
      exact .covered h rfl hlast hrs hrs' hbefore (Finset.union_eq_left.mpr hsub).symm
    · rw [if_pos (by rwa [Ne, num_inj hnear']), seqlen_num hle' (by omega)]
      exact .extended h hapart hlo.le (by omega) (by omega) (by omega) hfits hlast (by omega)
  · rw [if_neg (mt endOf_eq_neg.mp hsingle), endOf_of_lt (by omega)]
    by_cases hmore : r.hi < new.hi
    · rw [if_pos ((seqcmp_pos hnear).mpr hmore), seqlen_num hmore.le (by omega)]
      exact .extended h hapart hlo.le (by omega) (by omega) (by omega) hfits hlast (by omega)
    · rw [if_neg (mt (seqcmp_pos hnear).mp hmore)]
      exact .there h rfl (elems_subset_of_mem hr hlo.le (by omega))

theorem Layout.behind {new : Range} (h : Layout l c (rs ++ r :: rs')) (hlo : r.lo < new.lo)
    (hbehind : ∀ x ∈ rs', new.lo < x.lo) (hfits : Fits l.size (new :: (rs ++ r :: rs'))) :
    Layout { l.put (node l.size c new) (num new.lo) (num new.hi) with
      lastInsertPos := node l.size c new
      next := Function.update (Function.update l.next (node l.size c new)
        (l.next (node l.size c r))) (node l.size c r) (node l.size c new)
      length := l.length + new.size } c ((rs ++ [r]) ++ new :: rs') := by
  have hle := new.le
  have hrising := rising_insert h.rising hlo hbehind
  have hfits' : Fits l.size ((rs ++ [r]) ++ new :: rs') := by
    rw [List.append_cons rs r rs'] at hfits
    exact hfits.of_subset fun x hx => List.perm_middle.mem_iff.mp hx
  have hnot := Cells.not_mem_cut (c := c) hfits' hrising
  have hnot' := Cells.not_mem_cut (c := c) h.fits h.rising
  have hne : node l.size c r ≠ node l.size c new := Cells.node_ne hfits' hrising r (by simp)
  have hlinks := h.links
  rw [List.map_append, List.map_cons, seg_cut] at hlinks
  rw [List.map_append, List.mem_append, not_or] at hnot
  constructor
  · rw [List.append_cons] at h
    exact h.cells.put_cut hfits' hrising
  · have hseg : Seg (Function.update l.next (node l.size c new) (l.next (node l.size c r)))
        (node l.size c new) (node l.size c new :: rs'.map (node l.size c)) (-1) :=
      hlinks.2.push hnot.2
    have hmem : node l.size c r ∉ node l.size c new :: rs'.map (node l.size c) := by
      rw [List.mem_cons, not_or]
      exact ⟨hne, hnot'.2⟩
    simpa [put] using (hlinks.1.update hnot.1.1).redirect hseg hnot'.1 hmem
  · rw [List.append_assoc, List.singleton_append]
    simp only [h.total, total_cut, total_cons]
    omega
  · exact .inr ⟨new, by simp, rfl⟩
  · exact hrising
  · exact hfits'

theorem insertAfter_spec {new : Range} (h : Layout l c (rs ++ r :: rs'))
    (hapart : Apart (rs ++ r :: rs'))
    (hlo : r.lo < new.lo) (hbehind : ∀ x ∈ rs', new.lo < x.lo)
    (hfits : Fits l.size (new :: (rs ++ r :: rs'))) :
    Placed l.size c (rs ++ r :: rs') new
      (l.insertAfter (node l.size c r) (node l.size c new) (num new.lo) (num new.hi)) := by
  have hr : r ∈ rs ++ r :: rs' := by simp
  have hnew : new ∈ new :: (rs ++ r :: rs') := List.mem_cons_self
  have hle := r.le
  have hle' := new.le
  have hspan := hfits.span new hnew r (List.mem_cons_of_mem new hr)
  have hsize := hfits.size_lt
  have hnear : Near r.hi new.lo :=
    hfits.near (List.mem_cons_of_mem new hr) hnew hle (by omega) (by omega) (by omega)
  have hnear' : Near r.hi new.hi :=
    hfits.near (List.mem_cons_of_mem new hr) hnew hle (by omega) hle' (by omega)
  unfold insertAfter
  rw [h.cells.last r hr]
  by_cases hapart' : r.hi < new.lo
  · have hcond : endOf r = -1 ∨ seqcmp (endOf r) (num new.lo) < 0 := by
      by_cases hsingle : r.lo = r.hi
      · exact .inl (endOf_eq_neg.mpr hsingle)
      · rw [endOf_of_lt (by omega), seqcmp_neg hnear]
        exact .inr hapart'
    have hbehind' := h.behind hlo hbehind hfits
    rw [Range.size] at hbehind'
    rw [if_pos hcond, seqlen_num hle' (by omega)]
    apply Placed.covered hbehind' rfl rfl
    · rw [List.append_cons] at hapart
      exact (List.pairwise_append.mp hapart).1
    · exact (apart_cut.mp hapart).2.1
    · intro x hx
      rcases List.mem_append.mp hx with hx | hx
      · have hlt := (apart_cut.mp hapart).2.2.1 x hx
        omega
      · obtain rfl := List.mem_singleton.mp hx
        exact hapart'
    · rw [elems_middle, List.append_assoc, List.singleton_append]
  · have hcond : ¬(endOf r = -1 ∨ seqcmp (endOf r) (num new.lo) < 0) := by
      rw [endOf_eq_neg, endOf_of_lt (by omega), seqcmp_neg hnear]
      omega
    rw [if_neg hcond, endOf_of_lt (by omega)]
    by_cases hmore : r.hi < new.hi
    · rw [if_pos ((seqcmp_neg hnear').mpr hmore), seqlen_num hmore.le (by omega)]
      exact Placed.extended (n := new.hi - r.hi + 1 - 1) (h.lastInsert hr) hapart hlo.le (by omega)
        (by omega) (by omega) hfits rfl (by omega)
    · rw [if_neg (mt (seqcmp_neg hnear').mp hmore)]
      exact .there (h.lastInsert hr) rfl (elems_subset_of_mem hr hlo.le (by omega))

theorem Layout.before {new : Range} (h : Layout l c (r :: ns)) (hlo : new.lo < r.lo)
    (hfits : Fits l.size (new :: r :: ns)) :
    Layout { l.put (node l.size c new) (num new.lo) (num new.hi) with
      next := Function.update l.next (node l.size c new) l.head
      head := node l.size c new
      lastInsertPos := node l.size c new
      length := l.length + new.size } c (new :: r :: ns) := by
  have hle := new.le
  have hrising : Rising (new :: r :: ns) := by
    refine List.pairwise_cons.mpr ⟨?_, h.rising⟩
    intro x hx
    rcases List.mem_cons.mp hx with rfl | hx
    · exact hlo
    · have hrx := (List.pairwise_cons.mp h.rising).1 x hx
      omega
  have hcells := h.cells
  rw [← List.nil_append (r :: ns)] at hcells
  have hnot : node l.size c new ∉ (r :: ns).map (node l.size c) :=
    hfits.node_not_mem List.mem_cons_self (fun x hx => List.mem_cons_of_mem new hx)
      fun x hx => ne_of_gt ((List.pairwise_cons.mp hrising).1 x hx)
  constructor
  · exact hcells.put_cut hfits hrising
  · exact h.links.push hnot
  · simp only [h.total, total_cons]
    omega
  · exact .inr ⟨new, List.mem_cons_self, rfl⟩
  · exact hrising
  · exact hfits

theorem Layout.start (h : Layout l c (r :: ns)) {i : Int} (hlo : r.lo < i)
    (hnear : ∀ x ∈ r :: ns, Near x.lo i) :
    ∃ x ∈ r :: ns, x.lo < i ∧
      (if l.lastInsertPos ≠ -1 ∧ seqcmp (l.data1 l.lastInsertPos) (num i) < 0 then l.lastInsertPos
        else l.head) = node l.size c x := by
  split_ifs with hstart
  · obtain ⟨hne, hcmp⟩ := hstart
    rcases h.last with hlast | ⟨x, hx, hlast⟩
    · exact absurd hlast hne
    · rw [hlast, h.cells.first x hx, seqcmp_neg (hnear x hx)] at hcmp
      exact ⟨x, hx, hcmp, hlast⟩
  · exact ⟨r, List.mem_cons_self, hlo, h.head⟩

theorem place_spec {new : Range} (h : Layout l c (r :: ns)) (hapart : Apart (r :: ns))
    (hfits : Fits l.size (new :: r :: ns)) :
    Placed l.size c (r :: ns) new (l.place (num new.lo) (num new.hi)) := by
  have hr : r ∈ new :: r :: ns := by simp
  have hnew : new ∈ new :: r :: ns := List.mem_cons_self
  have hrle := r.le
  have hle := new.le
  have hspan := hfits.span r hr new hnew
  have hsize := hfits.size_lt
  have hpos := hfits.pos hnew
  have hnear : ∀ x ∈ r :: ns, Near x.lo new.lo := by
    intro x hx
    have hxle := x.le
    exact hfits.near (List.mem_cons_of_mem new hx) hnew (by omega) (by omega) (by omega) (by omega)
  have hoff : seqoff (l.data1 l.head) (num new.lo) = new.lo - r.lo := by
    rw [h.head, h.cells.first r List.mem_cons_self, seqoff_num (hnear r List.mem_cons_self)]
  have hloc : (l.head + (new.lo - r.lo) + l.size).tmod l.size = node l.size c new := by
    rw [h.head, loc_eq hpos (by omega), add_sub_cancel]
  unfold place
  simp only [hoff, hloc]
  by_cases hbefore : new.lo - r.lo < 0
  · have hspan' := hfits.span new hnew new hnew
    have hlayout := h.before (by omega) hfits
    rw [Range.size] at hlayout
    rw [if_pos hbefore, seqlen_num hle (by omega)]
    rw [← List.nil_append (new :: r :: ns)] at hlayout
    apply Placed.covered hlayout rfl rfl List.Pairwise.nil hapart (by simp)
    rw [List.nil_append, elems_cons, Finset.union_comm]
  rw [if_neg hbefore]
  by_cases hafter : 0 < new.lo - r.lo
  · rw [if_pos hafter]
    by_cases hthere : num new.lo = l.data1 (node l.size c new)
    · rw [if_pos hthere]
      obtain ⟨x, hx, hxlo, hslot⟩ := h.cells.begins hthere.symm hnear
      obtain ⟨rs, rs', hns⟩ := List.append_of_mem hx
      have hlast := h.lastInsert hx
      rw [hns] at hlast hapart hfits ⊢
      rw [← hslot]
      apply widen_spec hlast hapart hxlo hfits rfl
    · rw [if_neg hthere]
      obtain ⟨x, hx, hxlo, hstart⟩ := h.start (by omega) hnear
      obtain ⟨xs, xs', hns⟩ := List.append_of_mem hx
      have hrounds : xs'.length ≤ l.rounds := by
        have hlen := h.fits.length_le h.rising
        rw [hns, List.length_append, List.length_cons] at hlen
        unfold rounds
        omega
      rw [hns] at h hnear
      obtain ⟨ps, p, ps', hps, hprior, hplo, hpbehind⟩ := prior_spec h hnear hxlo hrounds
      rw [← hns] at hps
      rw [hstart, hprior]
      have hstrict : ∀ x ∈ ps', new.lo < x.lo := by
        intro y hy
        have hle := hpbehind y hy
        have hy' : y ∈ r :: ns := by rw [hps]; simp [hy]
        by_contra hnot
        have heq : y.lo = new.lo := by omega
        apply hthere
        rw [← heq, ← h.cells.first y (hns ▸ hy'), node, node, heq]
      rw [← hns] at h
      rw [hps] at h hapart hfits ⊢
      exact insertAfter_spec h hapart hplo hstrict hfits
  · rw [if_neg hafter]
    have hlo : r.lo = new.lo := by omega
    have hloc' : node l.size c new = node l.size c r := by rw [node, node, hlo]
    have hlast : Layout { l with lastInsertPos := l.head } c (r :: ns) :=
      ⟨h.cells, h.links, h.total, .inr ⟨r, List.mem_cons_self, h.head⟩, h.rising, h.fits⟩
    split_ifs with hne
    · rw [hloc']
      rw [← List.nil_append (r :: ns)] at hlast hapart hfits ⊢
      apply widen_spec hlast hapart hlo hfits h.head
    · have hnear' : Near new.hi new.lo := hfits.near hnew hnew hle (by omega) (by omega) (by omega)
      rw [not_not, num_inj hnear'] at hne
      exact .there hlast rfl (elems_subset_of_mem List.mem_cons_self hlo.le (by omega))

end SndLossList
end NineWire.Udt
