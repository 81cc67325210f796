import NineWire.Ranges
import NineWire.Ring
import NineWire.Udt.SeqNo

/-! How both loss lists keep ranges of sequence numbers in arrays: the node of a
range lies where its first number falls, with the last number beside it unless
there is only the one. -/
namespace NineWire.Udt
open NineWire.Ranges NineWire.Ring NineWire.Udt.SeqNo

def endOf (r : Range) : Int := if r.lo = r.hi then -1 else num r.hi

abbrev node (size c : Int) (r : Range) : Int := slot size c r.lo

/-- The arrays hold the ranges, with -1 where no node is. -/
structure Cells (size c : Int) (data1 data2 : Int → Int) (ns : List Range) : Prop where
  first : ∀ r ∈ ns, data1 (node size c r) = num r.lo
  last : ∀ r ∈ ns, data2 (node size c r) = endOf r
  free1 : ∀ p, (∀ r ∈ ns, node size c r ≠ p) → data1 p = -1
  free2 : ∀ p, (∀ r ∈ ns, node size c r ≠ p) → data2 p = -1

/-- Ranges that fit in the arrays, and whose numbers can be told apart. -/
structure Fits (size : Int) (ns : List Range) : Prop where
  size_lt : size < seqNoTH
  span : ∀ r ∈ ns, ∀ r' ∈ ns, r.hi - r'.lo < size

def Within (size : Int) (S : Finset Int) : Prop := ∀ i ∈ S, ∀ j ∈ S, i - j < size

instance {size : Int} {S : Finset Int} : Decidable (Within size S) :=
  inferInstanceAs (Decidable (∀ i ∈ S, ∀ j ∈ S, i - j < size))

variable {size c : Int} {data1 data2 : Int → Int} {ns ns' : List Range} {r r' : Range}

theorem endOf_eq_neg : endOf r = -1 ↔ r.lo = r.hi := by
  unfold endOf
  split_ifs with h
  · simp [h]
  · simp [h, num_ne]

theorem endOf_of_lt (h : r.lo < r.hi) : endOf r = num r.hi := by
  rw [endOf, if_neg (by omega)]

theorem Fits.near (h : Fits size ns) (hr : r ∈ ns) (hr' : r' ∈ ns) {i j : Int}
    (hi : r.lo ≤ i) (hi' : i ≤ r.hi + 1) (hj : r'.lo ≤ j) (hj' : j ≤ r'.hi + 1) : Near i j := by
  have h1 := h.span r hr r' hr'
  have h2 := h.span r' hr' r hr
  have hlt := h.size_lt
  apply near_of_lt <;> omega

theorem Fits.node_inj (h : Fits size ns) (hr : r ∈ ns) (hr' : r' ∈ ns) :
    node size c r = node size c r' ↔ r.lo = r'.lo := by
  have h1 := h.span r hr r' hr'
  have h2 := h.span r' hr' r hr
  have hle := r.le
  have hle' := r'.le
  apply Ring.slot_inj
  omega

theorem Fits.node_not_mem (h : Fits size ns) (hr : r ∈ ns) (hsub : ∀ x ∈ ns', x ∈ ns)
    (hne : ∀ x ∈ ns', x.lo ≠ r.lo) : node size c r ∉ ns'.map (node size c) := by
  intro hmem
  obtain ⟨x, hx, hnode⟩ := List.mem_map.mp hmem
  exact hne x hx ((h.node_inj (hsub x hx) hr).mp hnode)

theorem Fits.pos (h : Fits size ns) (hr : r ∈ ns) : 0 < size := by
  have hspan := h.span r hr r hr
  have hle := r.le
  omega

theorem Fits.node_nonneg (h : Fits size ns) (hr : r ∈ ns) : 0 ≤ node size c r :=
  slot_nonneg (h.pos hr)

theorem Fits.node_ne (h : Fits size ns) (hr : r ∈ ns) : node size c r ≠ -1 := by
  have hnonneg := h.node_nonneg (c := c) hr
  omega

theorem Fits.neg_not_mem (h : Fits size ns) : -1 ∉ ns.map (node size c) := by
  intro hmem
  obtain ⟨x, hx, hnode⟩ := List.mem_map.mp hmem
  exact h.node_ne hx hnode

theorem Fits.nodup (h : Fits size ns) (hrising : Rising ns) : (ns.map (node size c)).Nodup := by
  apply List.pairwise_map.mpr
  apply List.Pairwise.imp_of_mem _ hrising
  intro x y hx hy hlt hnode
  have hlo := (h.node_inj hx hy).mp hnode
  omega

/-- There is a slot for each range. -/
theorem Fits.length_le (h : Fits size ns) (hrising : Rising ns) : ns.length ≤ size.toNat := by
  cases ns with
  | nil => simp
  | cons r ns =>
    obtain ⟨x, hx, hle⟩ := hrising.length_le
    have hspan := h.span x hx r List.mem_cons_self
    have hxle := x.le
    rw [List.length_cons]
    omega

theorem Fits.of_within (h : Fits size ns) (hlo : ∀ x ∈ ns', ∃ r ∈ ns, r.lo ≤ x.lo)
    (hhi : ∀ x ∈ ns', ∃ r ∈ ns, x.hi ≤ r.hi) : Fits size ns' where
  size_lt := h.size_lt
  span x hx x' hx' := by
    obtain ⟨r, hr, hle⟩ := hhi x hx
    obtain ⟨r', hr', hle'⟩ := hlo x' hx'
    have hspan := h.span r hr r' hr'
    omega

theorem Fits.of_subset (h : Fits size ns) (hsub : ∀ r ∈ ns', r ∈ ns) : Fits size ns' :=
  h.of_within (fun x hx => ⟨x, hsub x hx, le_refl _⟩) fun x hx => ⟨x, hsub x hx, le_refl _⟩

theorem Fits.erase {rs rs' : List Range} (h : Fits size (rs ++ r :: rs')) :
    Fits size (rs ++ rs') :=
  h.of_subset fun _ hx => List.perm_middle.mem_iff.mpr (List.mem_cons_of_mem r hx)

theorem Fits.change {rs rs' : List Range} (h : Fits size (rs ++ r :: rs')) (hlo : r.lo ≤ r'.lo)
    (hhi : ∃ x ∈ rs ++ r :: rs', r'.hi ≤ x.hi) : Fits size (rs ++ r' :: rs') := by
  refine h.of_within ?_ ?_
  · intro x hx
    rcases List.mem_cons.mp (List.perm_middle.mem_iff.mp hx) with rfl | hx
    · exact ⟨r, by simp, hlo⟩
    · exact ⟨x, List.perm_middle.mem_iff.mpr (List.mem_cons_of_mem r hx), le_refl _⟩
  · intro x hx
    rcases List.mem_cons.mp (List.perm_middle.mem_iff.mp hx) with rfl | hx
    · exact hhi
    · exact ⟨x, List.perm_middle.mem_iff.mpr (List.mem_cons_of_mem r hx), le_refl _⟩

theorem fits_reach {new : Range} {rs rs' : List Range} (h : r.lo ≤ new.hi)
    (hfits : Fits size (new :: (rs ++ r :: rs'))) :
    Fits size (rs ++ reach r new h :: rs') := by
  refine hfits.of_within ?_ ?_
  · intro x hx
    rcases List.mem_cons.mp (List.perm_middle.mem_iff.mp hx) with rfl | hx
    · exact ⟨r, by simp, le_refl _⟩
    · exact ⟨x, by simp at *; tauto, le_refl _⟩
  · intro x hx
    rcases List.mem_cons.mp (List.perm_middle.mem_iff.mp hx) with rfl | hx
    · exact ⟨new, by simp, le_refl _⟩
    · exact ⟨x, by simp at *; tauto, le_refl _⟩

theorem fits_split {p : Range} {ps ps' : List Range} {j k : Int} (h : Fits size (ps ++ p :: ps'))
    (hlo : p.lo ≤ j) (hjk : j ≤ k)
    (hhi : k < p.hi) :
    Fits size ((ps ++ [upTo p j hlo]) ++ above p k hhi :: ps') := by
  have hp : p ∈ ps ++ p :: ps' := by simp
  have hmem : ∀ x ∈ (ps ++ [upTo p j hlo]) ++ above p k hhi :: ps',
      x = above p k hhi ∨ x = upTo p j hlo ∨ x ∈ ps ++ p :: ps' := by
    intro x hx
    simp only [List.mem_append, List.mem_cons, List.not_mem_nil, or_false] at hx ⊢
    tauto
  refine h.of_within ?_ ?_
  · intro x hx
    rcases hmem x hx with rfl | rfl | hx
    · exact ⟨p, hp, by simp only [above]; omega⟩
    · exact ⟨p, hp, le_refl _⟩
    · exact ⟨x, hx, le_refl _⟩
  · intro x hx
    rcases hmem x hx with rfl | rfl | hx
    · exact ⟨p, hp, le_refl _⟩
    · exact ⟨p, hp, by simp only [upTo]; omega⟩
    · exact ⟨x, hx, le_refl _⟩

/-- It is the numbers of the ranges that have to fit. -/
theorem fits_iff {S : Finset Int} (hS : elems ns = S) :
    Fits size ns ↔ size < seqNoTH ∧ Within size S := by
  subst hS
  constructor
  · refine fun h => ⟨h.size_lt, ?_⟩
    intro i hi j hj
    obtain ⟨r, hr, hlo, hhi⟩ := mem_elems.mp hi
    obtain ⟨r', hr', hlo', hhi'⟩ := mem_elems.mp hj
    have hspan := h.span r hr r' hr'
    omega
  · rintro ⟨hlt, h⟩
    refine ⟨hlt, ?_⟩
    intro r hr r' hr'
    exact h r.hi (mem_elems.mpr ⟨r, hr, r.le, le_refl _⟩) r'.lo
      (mem_elems.mpr ⟨r', hr', le_refl _, r'.le⟩)

theorem map_node_change {rs rs' : List Range} (hlo : r'.lo = r.lo) :
    (rs ++ r' :: rs').map (node size c) = (rs ++ r :: rs').map (node size c) := by
  have hnode : node size c r' = node size c r := congrArg (slot size c) hlo
  simp [hnode]

namespace Cells

theorem empty : Cells size c (fun _ => -1) (fun _ => -1) [] where
  first := by simp
  last := by simp
  free1 _ _ := rfl
  free2 _ _ := rfl

/-- The order of the ranges does not matter. -/
theorem perm (h : Cells size c data1 data2 ns) (hperm : ns.Perm ns') :
    Cells size c data1 data2 ns' where
  first r hr := h.first r (hperm.mem_iff.mpr hr)
  last r hr := h.last r (hperm.mem_iff.mpr hr)
  free1 p hp := h.free1 p fun r hr => hp r (hperm.mem_iff.mp hr)
  free2 p hp := h.free2 p fun r hr => hp r (hperm.mem_iff.mp hr)

theorem recenter (h : Cells size c data1 data2 []) (c' : Int) : Cells size c' data1 data2 [] where
  first := by simp
  last := by simp
  free1 p _ := h.free1 p (by simp)
  free2 p _ := h.free2 p (by simp)

theorem insert (h : Cells size c data1 data2 ns)
    (hr : ∀ r' ∈ ns, node size c r' ≠ node size c r) :
    Cells size c (Function.update data1 (node size c r) (num r.lo))
      (Function.update data2 (node size c r) (endOf r)) (r :: ns) where
  first r' hr' := by
    rcases List.mem_cons.mp hr' with rfl | hr'
    · rw [Function.update_self]
    · rw [Function.update_of_ne (hr r' hr'), h.first r' hr']
  last r' hr' := by
    rcases List.mem_cons.mp hr' with rfl | hr'
    · rw [Function.update_self]
    · rw [Function.update_of_ne (hr r' hr'), h.last r' hr']
  free1 p hp := by
    have hne := hp r List.mem_cons_self
    rw [Function.update_of_ne hne.symm, h.free1 p fun r' hr' => hp r' (List.mem_cons_of_mem r hr')]
  free2 p hp := by
    have hne := hp r List.mem_cons_self
    rw [Function.update_of_ne hne.symm, h.free2 p fun r' hr' => hp r' (List.mem_cons_of_mem r hr')]

theorem erase (h : Cells size c data1 data2 (r :: ns))
    (hr : ∀ r' ∈ ns, node size c r' ≠ node size c r) :
    Cells size c (Function.update data1 (node size c r) (-1))
      (Function.update data2 (node size c r) (-1)) ns where
  first r' hr' := by
    rw [Function.update_of_ne (hr r' hr'), h.first r' (List.mem_cons_of_mem r hr')]
  last r' hr' := by
    rw [Function.update_of_ne (hr r' hr'), h.last r' (List.mem_cons_of_mem r hr')]
  free1 p hp := by
    by_cases hpr : node size c r = p
    · rw [← hpr, Function.update_self]
    · rw [Function.update_of_ne (Ne.symm hpr)]
      exact h.free1 p (List.forall_mem_cons.mpr ⟨hpr, hp⟩)
  free2 p hp := by
    by_cases hpr : node size c r = p
    · rw [← hpr, Function.update_self]
    · rw [Function.update_of_ne (Ne.symm hpr)]
      exact h.free2 p (List.forall_mem_cons.mpr ⟨hpr, hp⟩)

/-- A node keeps its slot when its range ends elsewhere. -/
theorem change (h : Cells size c data1 data2 (r :: ns)) (hlo : r'.lo = r.lo)
    (hr : ∀ r' ∈ ns, node size c r' ≠ node size c r) :
    Cells size c data1 (Function.update data2 (node size c r) (endOf r')) (r' :: ns) := by
  have hnode : node size c r' = node size c r := congrArg (slot size c) hlo
  have hslots : ∀ p, (∀ x ∈ r' :: ns, node size c x ≠ p) → ∀ x ∈ r :: ns, node size c x ≠ p := by
    intro p hp
    obtain ⟨hne, hns⟩ := List.forall_mem_cons.mp hp
    exact List.forall_mem_cons.mpr ⟨hnode ▸ hne, hns⟩
  constructor
  · intro x hx
    rcases List.mem_cons.mp hx with rfl | hx
    · rw [hnode, hlo, h.first r List.mem_cons_self]
    · exact h.first x (List.mem_cons_of_mem r hx)
  · intro x hx
    rcases List.mem_cons.mp hx with rfl | hx
    · rw [hnode, Function.update_self]
    · rw [Function.update_of_ne (hr x hx), h.last x (List.mem_cons_of_mem r hx)]
  · intro p hp
    exact h.free1 p (hslots p hp)
  · intro p hp
    have hne := hslots p hp r List.mem_cons_self
    rw [Function.update_of_ne hne.symm, h.free2 p (hslots p hp)]

/-- Where a number stands that is near a node's, that node begins with it. -/
theorem begins (h : Cells size c data1 data2 ns) {p i : Int} (hp : data1 p = num i)
    (hnear : ∀ r ∈ ns, Near r.lo i) : ∃ r ∈ ns, r.lo = i ∧ node size c r = p := by
  by_contra hnot
  have hfree : ∀ r ∈ ns, node size c r ≠ p := by
    intro r hr hslot
    have hlo : num r.lo = num i := by rw [← h.first r hr, hslot, hp]
    exact hnot ⟨r, hr, (num_inj (hnear r hr)).mp hlo, hslot⟩
  exact num_ne i (hp.symm.trans (h.free1 p hfree))

section cut
variable {rs rs' : List Range}

theorem node_ne (hfits : Fits size (rs ++ r :: rs')) (hrising : Rising (rs ++ r :: rs')) :
    ∀ x ∈ rs ++ rs', node size c x ≠ node size c r := by
  obtain ⟨-, -, hrs, hrs'⟩ := rising_cut.mp hrising
  intro x hx
  have hmem : x ∈ rs ++ r :: rs' :=
    List.perm_middle.mem_iff.mpr (List.mem_cons_of_mem r hx)
  rw [Ne, hfits.node_inj hmem (by simp)]
  rcases List.mem_append.mp hx with hx | hx
  · exact ne_of_lt (hrs x hx)
  · exact ne_of_gt (hrs' x hx)

theorem node_ne_head (hfits : Fits size (r :: ns)) (hrising : Rising (r :: ns)) :
    ∀ x ∈ ns, node size c x ≠ node size c r := by
  intro x hx
  have hlt := (List.pairwise_cons.mp hrising).1 x hx
  rw [Ne, hfits.node_inj (List.mem_cons_of_mem r hx) List.mem_cons_self]
  omega

theorem not_mem_cut (hfits : Fits size (rs ++ r :: rs')) (hrising : Rising (rs ++ r :: rs')) :
    node size c r ∉ rs.map (node size c) ∧ node size c r ∉ rs'.map (node size c) := by
  have hne := node_ne (c := c) hfits hrising
  constructor
  · intro hmem
    obtain ⟨x, hx, hnode⟩ := List.mem_map.mp hmem
    exact hne x (List.mem_append_left rs' hx) hnode
  · intro hmem
    obtain ⟨x, hx, hnode⟩ := List.mem_map.mp hmem
    exact hne x (List.mem_append_right rs hx) hnode

theorem put_last {d : Int → Int} {p : Int} (h : d p = -1) :
    (if r.lo < r.hi then Function.update d p (num r.hi) else d) =
      Function.update d p (endOf r) := by
  have hle := r.le
  split_ifs with hlt
  · rw [endOf_of_lt hlt]
  · rw [endOf_eq_neg.mpr (by omega), Function.update_eq_self_iff.mpr h.symm]

theorem insert_cut (h : Cells size c data1 data2 (rs ++ rs'))
    (hfits : Fits size (rs ++ r :: rs')) (hrising : Rising (rs ++ r :: rs')) :
    Cells size c (Function.update data1 (node size c r) (num r.lo))
      (Function.update data2 (node size c r) (endOf r)) (rs ++ r :: rs') :=
  (h.insert (node_ne hfits hrising)).perm List.perm_middle.symm

theorem erase_cut (h : Cells size c data1 data2 (rs ++ r :: rs'))
    (hfits : Fits size (rs ++ r :: rs')) (hrising : Rising (rs ++ r :: rs')) :
    Cells size c (Function.update data1 (node size c r) (-1))
      (Function.update data2 (node size c r) (-1)) (rs ++ rs') :=
  (h.perm List.perm_middle).erase (node_ne hfits hrising)

theorem change_cut (h : Cells size c data1 data2 (rs ++ r :: rs'))
    (hfits : Fits size (rs ++ r :: rs')) (hrising : Rising (rs ++ r :: rs'))
    (hlo : r'.lo = r.lo) :
    Cells size c data1 (Function.update data2 (node size c r) (endOf r')) (rs ++ r' :: rs') :=
  ((h.perm List.perm_middle).change hlo (node_ne hfits hrising)).perm List.perm_middle.symm

/-- A new node, where the second number is only kept if it is another one. -/
theorem put_cut (h : Cells size c data1 data2 (rs ++ rs')) (hfits : Fits size (rs ++ r :: rs'))
    (hrising : Rising (rs ++ r :: rs')) :
    Cells size c (Function.update data1 (node size c r) (num r.lo))
      (if num r.hi ≠ num r.lo then Function.update data2 (node size c r) (num r.hi) else data2)
      (rs ++ r :: rs') := by
  have hr : r ∈ rs ++ r :: rs' := by simp
  have hle := r.le
  have hnear : Near r.hi r.lo := hfits.near hr hr hle (by omega) (le_refl _) (by omega)
  have hcells := h.insert_cut hfits hrising
  rw [← put_last (h.free2 _ (node_ne hfits hrising))] at hcells
  have hiff : num r.hi ≠ num r.lo ↔ r.lo < r.hi := by
    rw [Ne, num_inj hnear]
    omega
  simpa only [hiff] using hcells

/-- A node without its numbers between `j` and `k`. -/
theorem split_cut {j k : Int} (h : Cells size c data1 data2 (rs ++ r :: rs'))
    (hfits : Fits size (rs ++ r :: rs')) (hrising : Rising (rs ++ r :: rs')) (hlo : r.lo ≤ j)
    (hjk : j ≤ k) (hhi : k < r.hi) (hbehind : ∀ x ∈ rs', r.hi < x.lo) :
    Cells size c (Function.update data1 (slot size c (k + 1)) (num (k + 1)))
      (Function.update
        (if 0 < seqcmp (num r.hi) (num (k + 1)) then
          Function.update data2 (slot size c (k + 1)) (num r.hi) else data2)
        (node size c r) (endOf (upTo r j hlo)))
      ((rs ++ [upTo r j hlo]) ++ above r k hhi :: rs') := by
  have hr : r ∈ rs ++ r :: rs' := by simp
  have hnear : Near r.hi (k + 1) := hfits.near hr hr r.le (by omega) (by omega) (by omega)
  have hrising' := rising_split hrising hlo hjk hhi hbehind
  have hfits' := fits_split hfits hlo hjk hhi
  have hne := node_ne (c := c) hfits' hrising'
  have hrne : node size c r ≠ node size c (above r k hhi) := hne (upTo r j hlo) (by simp)
  have hcells : Cells size c data1 (Function.update data2 (node size c r) (endOf (upTo r j hlo)))
      (rs ++ upTo r j hlo :: rs') := h.change_cut hfits hrising rfl
  rw [List.append_cons] at hcells
  have hfree := hcells.free2 _ hne
  rw [Function.update_of_ne hrne.symm] at hfree
  have hinsert := hcells.insert_cut hfits' hrising'
  rw [Function.update_comm hrne, ← put_last hfree] at hinsert
  have hiff : 0 < seqcmp (num r.hi) (num (k + 1)) ↔ (above r k hhi).lo < (above r k hhi).hi := by
    rw [seqcmp_pos hnear, above]
  simp only [hiff]
  exact hinsert

theorem advance_cut (h : Cells size c data1 data2 (rs ++ r :: rs'))
    (hfits : Fits size (rs ++ r :: rs')) (hrising : Rising (rs ++ r :: rs')) (hlt : r.lo < r.hi)
    (hbehind : ∀ x ∈ rs', r.hi < x.lo) :
    Cells size c
      (Function.update (Function.update data1 (slot size c (r.lo + 1)) (num (r.lo + 1)))
        (node size c r) (-1))
      (Function.update
        (if 0 < seqcmp (num r.hi) (num (r.lo + 1)) then
          Function.update data2 (slot size c (r.lo + 1)) (num r.hi) else data2)
        (node size c r) (-1))
      (rs ++ above r r.lo hlt :: rs') := by
  have hle := le_refl r.lo
  have hrising' := rising_split hrising hle hle hlt hbehind
  have hfits' := fits_split hfits hle hle hlt
  have hsplit := h.split_cut hfits hrising hle hle hlt hbehind
  rw [List.append_assoc, List.singleton_append] at hrising' hfits' hsplit
  have herase := hsplit.erase_cut hfits' hrising'
  have hnode : node size c (upTo r r.lo hle) = node size c r := rfl
  rw [hnode, Function.update_idem] at herase
  exact herase

theorem erase_single_cut (h : Cells size c data1 data2 (rs ++ r :: rs'))
    (hfits : Fits size (rs ++ r :: rs')) (hrising : Rising (rs ++ r :: rs'))
      (hsingle : r.lo = r.hi) :
    Cells size c (Function.update data1 (node size c r) (-1)) data2 (rs ++ rs') := by
  have herase := h.erase_cut hfits hrising
  have hlast : data2 (node size c r) = -1 :=
    (h.last r (by simp)).trans (endOf_eq_neg.mpr hsingle)
  rwa [← hlast, Function.update_eq_self, hlast] at herase

end cut

end Cells

end NineWire.Udt
