import NineWire.Udt.SndLossInsert

/-! Removing numbers from the sender's loss list: the head moves on to what is
behind them, and the nodes that it left are dropped one by one. -/
namespace NineWire.Udt
open NineWire.Ranges NineWire.Ring NineWire.Chain NineWire.Udt.SeqNo
namespace SndLossList

variable {l : SndLossList} {c : Int} {r : Range} {ns : List Range}

structure Dropping (l : SndLossList) (c i : Int) (ds ns : List Range) : Prop where
  cells : Cells l.size c l.data1 l.data2 (ds ++ ns)
  drops : Seg l.next i (ds.map (node l.size c)) l.head
  links : Seg l.next l.head (ns.map (node l.size c)) (-1)
  total : l.length = total (ds ++ ns)
  last : l.lastInsertPos = -1 ∨ ∃ r ∈ ds ++ ns, l.lastInsertPos = node l.size c r
  rising : Rising (ds ++ ns)
  fits : Fits l.size (ds ++ ns)

variable {ds ps ps' : List Range} {p : Range} {i k : Int}

theorem Dropping.ne_head (h : Dropping l c i (r :: ds) ns) : node l.size c r ≠ l.head := by
  have hr : r ∈ (r :: ds) ++ ns := by simp
  have hlinks := h.links
  cases ns with
  | nil =>
    have hhead : l.head = -1 := hlinks
    rw [hhead]
    exact h.fits.node_ne hr
  | cons b ns =>
    have hhead : l.head = node l.size c b := hlinks.1
    have hrb := (List.pairwise_cons.mp h.rising).1 b (by simp)
    rw [hhead, Ne, h.fits.node_inj hr (by simp)]
    omega

theorem dropTo_spec (h : Dropping l c i ds ns) {fuel : Nat} (hfuel : ds.length ≤ fuel) :
    Layout (dropTo fuel i l) c ns ∧ (dropTo fuel i l).size = l.size := by
  induction ds generalizing l i fuel with
  | nil =>
    have hhead : i = l.head := h.drops
    have hlayout : Layout l c ns := ⟨h.cells, h.links, h.total, h.last, h.rising, h.fits⟩
    cases fuel with
    | zero => exact ⟨hlayout, rfl⟩
    | succ fuel => simpa [dropTo, hhead] using hlayout
  | cons r ds ih =>
    obtain ⟨fuel, rfl⟩ := Nat.exists_eq_add_one_of_ne_zero (n := fuel) (by simp at hfuel; omega)
    have hr : r ∈ (r :: ds) ++ ns := by simp
    have hle := r.le
    have hspan := h.fits.span r hr r hr
    have hsize := h.fits.size_lt
    obtain ⟨hi, hdrops⟩ := h.drops
    subst hi
    rw [dropTo, if_pos h.ne_head, h.cells.first r hr, h.cells.last r hr]
    have hdata2 : (if endOf r ≠ -1 then Function.update l.data2 (node l.size c r) (-1) else l.data2)
      =
        Function.update l.data2 (node l.size c r) (-1) := by
      split_ifs with hend
      · rfl
      · rw [not_not, ← h.cells.last r hr] at hend
        rw [Function.update_eq_self_iff.mpr hend.symm]
    have hlength : (if endOf r ≠ -1 then l.length - seqlen (num r.lo) (endOf r) else l.length - 1) =
        Ranges.total (ds ++ ns) := by
      have htotal := h.total
      rw [List.cons_append, total_cons, Range.size] at htotal
      split_ifs with hend
      · rw [Ne, endOf_eq_neg] at hend
        rw [endOf_of_lt (by omega), seqlen_num hle (by omega)]
        omega
      · rw [not_not, endOf_eq_neg] at hend
        omega
    rw [hdata2, hlength]
    apply ih _ (by simpa using hfuel)
    have hcells := h.cells
    have hfits := h.fits
    have hrising := h.rising
    have hne := Cells.node_ne_head (c := c) hfits hrising
    refine ⟨hcells.erase hne, hdrops, h.links, rfl, ?_, (List.pairwise_cons.mp hrising).2,
      hfits.of_subset fun x hx => List.mem_cons_of_mem r hx⟩
    split_ifs with hlast
    · exact .inl rfl
    · rcases h.last with hneg | ⟨x, hx, hnode⟩
      · exact .inl hneg
      · rcases List.mem_cons.mp hx with rfl | hx
        · exact absurd hnode hlast
        · exact .inr ⟨x, hx, hnode⟩

theorem Layout.skip (h : Layout l c (ps ++ p :: ps')) :
    Dropping { l with head := l.next (node l.size c p) } c l.head (ps ++ [p]) ps' := by
  have hlinks := h.links
  rw [List.map_append, List.map_cons, seg_cut] at hlinks
  rw [List.append_cons] at h
  refine ⟨h.cells, ?_, hlinks.2, h.total, h.last, h.rising, h.fits⟩
  rw [List.map_append, List.map_cons, List.map_nil, seg_snoc]
  exact ⟨hlinks.1, rfl⟩

theorem Layout.split (h : Layout l c (ps ++ p :: ps')) (hlo : p.lo ≤ k) (hhi : k < p.hi)
    (hbehind : ∀ x ∈ ps', p.hi < x.lo) :
    Dropping (l.cutAt (node l.size c p) (slot l.size c (k + 1)) (num k) (endOf (upTo p k hlo))) c
      l.head
      (ps ++ [upTo p k hlo]) (above p k hhi :: ps') := by
  have hp : p ∈ ps ++ p :: ps' := by simp
  have hrising := rising_split h.rising hlo (le_refl k) hhi hbehind
  have hfits := fits_split h.fits hlo (le_refl k) hhi
  have hnot := Cells.not_mem_cut (c := c) hfits hrising
  have hnot' := Cells.not_mem_cut (c := c) h.fits h.rising
  have hpne : node l.size c p ≠ node l.size c (above p k hhi) :=
    Cells.node_ne hfits hrising (upTo p k hlo) (by simp)
  have hlinks := h.links
  rw [List.map_append, List.map_cons, seg_cut] at hlinks
  rw [List.map_append, List.mem_append, not_or] at hnot
  constructor
  · rw [cutAt, h.cells.last p hp, endOf_of_lt (by omega), incseq_num]
    exact h.cells.split_cut h.fits h.rising hlo (le_refl k) hhi hbehind
  · rw [List.map_append, List.map_cons, List.map_nil, seg_snoc]
    refine ⟨(hlinks.1.update hnot.1.1).update hnot'.1, ?_⟩
    exact Function.update_self _ _ _
  · have hseg : Seg (Function.update l.next (node l.size c (above p k hhi)) (l.next (node l.size c
    p)))
        (node l.size c (above p k hhi)) (node l.size c (above p k hhi) :: ps'.map (node l.size c))
        (-1) := hlinks.2.push hnot.2
    apply hseg.update
    rw [List.mem_cons, not_or]
    exact ⟨hpne, hnot'.2⟩
  · have htotal := h.total
    rw [total_cut] at htotal
    rw [List.append_assoc, List.singleton_append, total_cut, total_cons]
    simp only [cutAt, Range.size, upTo, above] at htotal ⊢
    omega
  · rcases h.last with hneg | ⟨x, hx, hlast⟩
    · exact .inl hneg
    · rcases List.mem_cons.mp (List.perm_middle.mem_iff.mp hx) with rfl | hx
      · exact .inr ⟨upTo x k hlo, by simp, hlast⟩
      · rcases List.mem_append.mp hx with hx | hx
        · exact .inr ⟨x, by simp [hx], hlast⟩
        · exact .inr ⟨x, by simp [hx], hlast⟩
  · exact hrising
  · exact hfits

def Cuts (l : SndLossList) (c : Int) (S : Finset Int) (l' : SndLossList) : Prop :=
  ∃ ds ns, Dropping l' c l.head ds ns ∧ ds.length ≤ l.rounds ∧ Apart ns ∧ elems ns = S

theorem Layout.cuts_skip (h : Layout l c (ps ++ p :: ps')) (hapart : Apart (ps ++ p :: ps'))
    (hhi : p.hi ≤ k) (hbehind : ∀ x ∈ ps', k < x.lo) :
    Cuts l c ((elems (ps ++ p :: ps')).filter (k < ·)) { l with head := l.next (node l.size c p) }
      := by
  have hrounds : (ps ++ p :: ps').length ≤ l.rounds := h.fits.length_le h.rising
  rw [filter_skip hapart hhi hbehind]
  refine ⟨ps ++ [p], ps', h.skip, ?_, (apart_cut.mp hapart).2.1, rfl⟩
  simp at hrounds ⊢
  omega

theorem Layout.cuts_split (h : Layout l c (ps ++ p :: ps')) (hapart : Apart (ps ++ p :: ps'))
    (hlo : p.lo ≤ k) (hhi : k < p.hi) {last : Int} (hlast : last = endOf (upTo p k hlo)) :
    Cuts l c ((elems (ps ++ p :: ps')).filter (k < ·))
      (l.cutAt (node l.size c p) (slot l.size c (k + 1)) (num k) last) := by
  have hrounds : (ps ++ p :: ps').length ≤ l.rounds := h.fits.length_le h.rising
  obtain ⟨-, hps', -, hbehind⟩ := apart_cut.mp hapart
  rw [hlast, filter_split hapart hlo hhi fun x hx => lt_trans hhi (hbehind x hx)]
  refine ⟨_, _, h.split hlo hhi hbehind, ?_, List.pairwise_cons.mpr ⟨hbehind, hps'⟩, rfl⟩
  simp at hrounds ⊢
  omega

theorem cut_spec (h : Layout l c (r :: ns)) (hapart : Apart (r :: ns)) (hlt : r.lo < k)
    (hnear : ∀ x ∈ r :: ns, Near x.lo k ∧ Near x.hi k) :
    Cuts l c ((elems (r :: ns)).filter (k < ·)) (l.cut (slot l.size c k) (num k)) := by
  have hrounds : (r :: ns).length ≤ l.rounds := h.fits.length_le h.rising
  have hpos := h.fits.pos List.mem_cons_self
  have hnear' : ∀ x ∈ r :: ns, Near x.lo k := fun x hx => (hnear x hx).1
  have hloc : (slot l.size c k + 1).tmod l.size = slot l.size c (k + 1) := by
    have hnonneg := slot_nonneg (c := c) (i := k) hpos
    rw [Int.tmod_eq_emod_of_nonneg (by omega), slot_add]
  unfold cut
  simp only [hloc]
  by_cases hthere : num k = l.data1 (slot l.size c k)
  · rw [if_pos hthere]
    obtain ⟨p, hp, hplo, hslot⟩ := h.cells.begins hthere.symm hnear'
    have hlast := h.cells.last p hp
    obtain ⟨ps, ps', hns⟩ := List.append_of_mem hp
    rw [hns] at h hapart ⊢
    have hbehind := (apart_cut.mp hapart).2.2.2
    have hple := p.le
    rw [← hslot, hlast]
    split_ifs with hsingle
    · rw [endOf_eq_neg] at hsingle
      apply h.cuts_skip hapart (by omega)
      intro x hx
      have hpx := hbehind x hx
      omega
    · rw [endOf_eq_neg] at hsingle
      exact h.cuts_split hapart hplo.le (by omega) (endOf_eq_neg.mpr hplo).symm
  · have hfuel : ns.length ≤ l.rounds := le_trans (Nat.le_succ ns.length) hrounds
    rw [if_neg hthere, h.head]
    rw [← List.nil_append (r :: ns)] at h hnear'
    obtain ⟨ps, p, ps', hns, hprior, hplo, hbehind⟩ := prior_spec h hnear' hlt hfuel
    rw [List.nil_append] at h hnear' hns
    have hp : p ∈ r :: ns := by simp [hns]
    have hlast := h.cells.last p hp
    have hstrict : ∀ x ∈ ps', k < x.lo := by
      intro x hx
      have hle := hbehind x hx
      have hx' : x ∈ r :: ns := by simp [hns, hx]
      by_contra hnot
      have heq : x.lo = k := by omega
      apply hthere
      rw [← heq, ← h.cells.first x hx', node, heq]
    rw [hprior, hlast]
    have hple := p.le
    have hpnear := (hnear p hp).2
    rw [hns] at h hapart ⊢
    split_ifs with hsingle hmore
    · rw [endOf_eq_neg] at hsingle
      exact h.cuts_skip hapart (by omega) hstrict
    · rw [endOf_eq_neg] at hsingle
      rw [endOf_of_lt (by omega), seqcmp_pos hpnear] at hmore
      have hend : endOf (upTo p k hplo.le) = num k := endOf_of_lt hplo
      exact h.cuts_split hapart hplo.le hmore hend.symm
    · rw [endOf_eq_neg] at hsingle
      rw [endOf_of_lt (by omega), seqcmp_pos hpnear] at hmore
      exact h.cuts_skip hapart (by omega) hstrict

theorem Layout.last_behead (h : Layout l c (r :: ns)) :
    (if l.lastInsertPos = node l.size c r then -1 else l.lastInsertPos) = -1 ∨
      ∃ x ∈ ns, (if l.lastInsertPos = node l.size c r then -1 else l.lastInsertPos) =
        node l.size c x := by
  split_ifs with hlast
  · exact .inl rfl
  · rcases h.last with hneg | ⟨x, hx, hnode⟩
    · exact .inl hneg
    · rcases List.mem_cons.mp hx with rfl | hx
      · exact absurd hnode hlast
      · exact .inr ⟨x, hx, hnode⟩

theorem Layout.behead_single (h : Layout l c (r :: ns)) (hsingle : r.lo = r.hi) :
    Layout (l.behead (num r.lo)) c ns := by
  have hr : r ∈ r :: ns := List.mem_cons_self
  have hend : endOf r = -1 := endOf_eq_neg.mpr hsingle
  have hrising := h.rising
  have hfits := h.fits
  unfold behead
  simp only [h.head, h.cells.last r hr, hend, if_true]
  constructor
  · have hcells := h.cells
    rw [← List.nil_append (r :: ns)] at hcells hfits hrising
    exact hcells.erase_single_cut hfits hrising hsingle
  · exact h.links.2
  · have htotal := h.total
    rw [total_cons, Range.size] at htotal
    simp only
    omega
  · exact h.last_behead
  · exact (List.pairwise_cons.mp hrising).2
  · exact hfits.of_subset fun x hx => List.mem_cons_of_mem r hx

theorem Layout.behead_more (h : Layout l c (r :: ns)) (hlt : r.lo < r.hi)
    (hbehind : ∀ x ∈ ns, r.hi < x.lo) :
    Layout (l.behead (num r.lo)) c (above r r.lo hlt :: ns) := by
  have hr : r ∈ r :: ns := List.mem_cons_self
  have hend : endOf r = num r.hi := endOf_of_lt hlt
  have hneg : endOf r ≠ -1 := mt endOf_eq_neg.mp hlt.ne
  have hloc : (node l.size c r + 1).tmod l.size = node l.size c (above r r.lo hlt) := by
    have hnonneg := h.fits.node_nonneg (c := c) hr
    rw [Int.tmod_eq_emod_of_nonneg (by omega), slot_add]
    rfl
  have hle := le_refl r.lo
  have hcells := h.cells
  have hfits := h.fits
  have hrising := h.rising
  rw [← List.nil_append (r :: ns)] at hcells hfits hrising
  have hrising' := (List.pairwise_cons.mp (rising_split hrising hle hle hlt hbehind)).2
  have hfits' : Fits l.size (above r r.lo hlt :: ns) :=
    (fits_split hfits hle hle hlt).of_subset fun x hx => List.mem_cons_of_mem _ hx
  unfold behead
  simp only [h.head, h.cells.last r hr, hend, hloc]
  rw [if_neg (hend ▸ hneg), incseq_num]
  constructor
  · exact hcells.advance_cut hfits hrising hlt hbehind
  · apply h.links.2.push
    exact hfits'.node_not_mem List.mem_cons_self (fun x hx => List.mem_cons_of_mem _ hx)
      fun x hx => ne_of_gt ((List.pairwise_cons.mp hrising').1 x hx)
  · have htotal := h.total
    rw [total_cons, Range.size] at htotal
    simp only [total_cons, Range.size, above]
    omega
  · rcases h.last_behead with hneg | ⟨x, hx, hnode⟩
    · exact .inl hneg
    · exact .inr ⟨x, List.mem_cons_of_mem _ hx, hnode⟩
  · exact hrising'
  · exact hfits'

/-- The first node gives up its first number. -/
theorem behead_spec (h : Layout l c (r :: ns)) (hapart : Apart (r :: ns)) :
    ∃ ns', Layout (l.behead (num r.lo)) c ns' ∧ Apart ns' ∧
      elems ns' = (elems (r :: ns)).filter (r.lo < ·) := by
  have hle := r.le
  obtain ⟨hbehind, hns⟩ := List.pairwise_cons.mp hapart
  have hbehind' : ∀ x ∈ ns, r.lo < x.lo := fun x hx => lt_of_le_of_lt hle (hbehind x hx)
  rw [← List.nil_append (r :: ns)] at hapart ⊢
  by_cases hsingle : r.lo = r.hi
  · rw [filter_skip hapart hsingle.ge hbehind']
    exact ⟨ns, h.behead_single hsingle, hns, rfl⟩
  · have hlt : r.lo < r.hi := by omega
    rw [filter_split hapart (le_refl _) hlt hbehind']
    exact ⟨_, h.behead_more hlt hbehind, List.pairwise_cons.mpr ⟨hbehind, hns⟩, rfl⟩

end SndLossList
end NineWire.Udt
