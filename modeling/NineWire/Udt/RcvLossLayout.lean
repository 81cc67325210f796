import NineWire.Udt.RcvLossList

/-! What the receiver's loss list looks like between its calls: the links of its
nodes both ways, and which node a removal finds and what becomes of it. -/
namespace NineWire.Udt
open NineWire.Ranges NineWire.Ring NineWire.Chain NineWire.Udt.SeqNo
namespace RcvLossList

structure Layout (l : RcvLossList) (c : Int) (ns : List Range) : Prop where
  cells : Cells l.size c l.data1 l.data2 ns
  empty : ns = [] → l.head = -1
  links : ns ≠ [] → DSeg l.next l.prior (-1) l.head (ns.map (node l.size c)) l.tail (-1)
  total : l.length = total ns
  apart : Apart ns
  fits : Fits l.size ns

variable {l : RcvLossList} {c k : Int} {r p : Range} {ns ps ps' : List Range}

theorem Layout.nil_of_length (h : Layout l c ns) : l.length = 0 ↔ ns = [] := by
  rw [h.total, total_eq_zero]

theorem Layout.head (h : Layout l c (r :: ns)) : l.head = node l.size c r :=
  (h.links (List.cons_ne_nil r ns)).1

theorem Layout.cut (h : Layout l c (ps ++ p :: ps')) :
    DSeg l.next l.prior (-1) l.head (ps.map (node l.size c)) (l.prior (node l.size c p))
        (node l.size c p) ∧
      DSeg l.next l.prior (node l.size c p) (l.next (node l.size c p)) (ps'.map (node l.size c))
        l.tail (-1) := by
  have hlinks := h.links (by simp)
  rwa [List.map_append, List.map_cons, dseg_cut] at hlinks

theorem Layout.tail (h : Layout l c (ps ++ [p])) : l.tail = node l.size c p := h.cut.2.2

theorem Layout.insertEmpty {new : Range} (h : Layout l c []) (hfits : Fits l.size [new]) :
    Layout (l.insert (num new.lo) (num new.hi)) (-new.lo) [new] := by
  have hle := new.le
  have hmem : new ∈ [new] := List.mem_cons_self
  have hspan := hfits.span new hmem new hmem
  have hsize := hfits.size_lt
  have hnode : node l.size (-new.lo) new = 0 := by
    rw [node, slot, neg_add_cancel, Int.zero_emod]
  have hcells : Cells l.size (-new.lo) l.data1 l.data2 ([] ++ []) := h.cells.recenter (-new.lo)
  have hput := hcells.put_cut hfits (List.pairwise_singleton _ new)
  rw [hnode] at hput
  have htotal := h.total
  unfold insert
  rw [if_pos (h.nil_of_length.mpr rfl)]
  constructor
  · exact hput
  · simp
  · intro _
    refine ⟨hnode.symm, ?_, ?_⟩
    · simp only [put, hnode]
      exact Function.update_self _ _ _
    · simp only [put, hnode]
      exact ⟨Function.update_self _ _ _, rfl⟩
  · simp only [htotal, seqlen_num hle (by omega)]
    simp [Ranges.total, Range.size]
  · exact List.pairwise_singleton _ new
  · exact hfits

theorem Layout.insertJoined {new : Range} (h : Layout l c (ps ++ [p])) (hlt : p.lo < p.hi)
    (hnext : p.hi + 1 = new.lo) (hfits : Fits l.size (new :: (ps ++ [p]))) :
    Layout { l with
      data2 := Function.update l.data2 l.tail (num new.hi)
      length := l.length + new.size } c (ps ++ [reach p new (by have := new.le; omega)]) := by
  have hle := new.le
  have hreach : p.lo < (reach p new (by omega)).hi := by simp only [reach]; omega
  have hend : endOf (reach p new (by omega)) = num new.hi := endOf_of_lt hreach
  have hnodes : (ps ++ [reach p new (by omega)]).map (node l.size c) =
      (ps ++ [p]).map (node l.size c) := map_node_change rfl
  obtain ⟨hps, -, hbefore, -⟩ := apart_cut.mp h.apart
  constructor
  · rw [h.tail, ← hend]
    exact h.cells.change_cut h.fits h.apart.rising rfl
  · simp
  · intro _
    change DSeg l.next l.prior (-1) l.head
      ((ps ++ [reach p new (by omega)]).map (node l.size c)) l.tail (-1)
    rw [hnodes]
    exact h.links (by simp)
  · simp only [h.total, total_append, total_cons, Range.size, reach]
    omega
  · exact apart_cut.mpr ⟨hps, List.Pairwise.nil, hbefore, by simp⟩
  · exact fits_reach (by omega) hfits

theorem Layout.insertLast {new : Range} (h : Layout l c (ps ++ [p])) (hlt : p.hi < new.lo)
    (hfits : Fits l.size (new :: (ps ++ [p]))) :
    Layout { l.put (node l.size c new) (num new.lo) (num new.hi) with
      next := Function.update (Function.update l.next l.tail (node l.size c new))
        (node l.size c new) (-1)
      prior := Function.update l.prior (node l.size c new) l.tail
      tail := node l.size c new
      length := l.length + new.size } c ((ps ++ [p]) ++ [new]) := by
  have hle := p.le
  have hrising : Rising ((ps ++ [p]) ++ [new]) :=
    rising_insert h.apart.rising (by omega) (by simp)
  have hfits' : Fits l.size ((ps ++ [p]) ++ [new]) :=
    hfits.of_subset fun x hx => List.perm_append_comm.mem_iff.mp hx
  obtain ⟨-, -, hbefore, -⟩ := apart_cut.mp h.apart
  have hnodup : (((ps ++ [p]).map (node l.size c)) ++ node l.size c new :: []).Nodup := by
    simpa using hfits'.nodup (c := c) hrising
  have hbehind : DSeg l.next l.prior (-1) (-1) [] (-1) (-1) := ⟨rfl, rfl⟩
  have hlinks := h.links (by simp)
  have htail := h.tail
  rw [← List.append_nil (ps ++ [p])] at h
  constructor
  · exact h.cells.put_cut hfits' hrising
  · simp
  · intro _
    have hbetween := hlinks.between hbehind hnodup
    have hne : l.tail ≠ node l.size c new := by
      rw [htail]
      exact Cells.node_ne hfits' hrising p (by simp)
    rw [Function.update_comm hne]
    simpa using hbetween
  · simp only [h.total, total_append, total_cons, Range.size]
    simp [Ranges.total]
  · refine apart_cut.mpr ⟨by simpa using h.apart, List.Pairwise.nil, ?_, by simp⟩
    intro x hx
    rcases List.mem_append.mp hx with hx | hx
    · have hxp := hbefore x hx
      omega
    · obtain rfl := List.mem_singleton.mp hx
      exact hlt
  · exact hfits'

/-- `insert` adds the numbers at the end. -/
theorem insert_spec {new : Range} (h : Layout l c ns) (hbefore : ∀ x ∈ ns, x.hi < new.lo)
    (hfits : Fits l.size (new :: ns)) :
    ∃ c' ns', Layout (l.insert (num new.lo) (num new.hi)) c' ns' ∧
      elems ns' = elems ns ∪ new.elems ∧ (l.insert (num new.lo) (num new.hi)).size = l.size := by
  have hnew : new ∈ new :: ns := List.mem_cons_self
  have hle := new.le
  have hspan := hfits.span new hnew new hnew
  have hsize := hfits.size_lt
  rcases List.eq_nil_or_concat ns with rfl | ⟨ps, p, rfl⟩
  · refine ⟨_, _, h.insertEmpty hfits, ?_, ?_⟩
    · rw [elems_cons, Finset.union_comm]
    · rw [insert, if_pos (h.nil_of_length.mpr rfl)]
      rfl
  · rw [List.concat_eq_append] at *
    have hp : p ∈ ps ++ [p] := by simp
    have hple := p.le
    have hlt := hbefore p hp
    have hcons : ps ++ [p] ≠ [] := by simp
    have hnear : Near (p.hi + 1) new.lo :=
      hfits.near (List.mem_cons_of_mem new hp) hnew (by omega) (le_refl _) (le_refl _) (by omega)
    have hloc : (l.head + seqoff (l.data1 l.head) (num new.lo)).tmod l.size = node l.size c new :=
      by
      obtain ⟨r, rs, hcut⟩ := List.exists_cons_of_ne_nil hcons
      rw [hcut] at h hfits hbefore
      have hr : r ∈ r :: rs := List.mem_cons_self
      have hrle := r.le
      have hrnew := hbefore r hr
      have hnear' : Near r.lo new.lo :=
        hfits.near (List.mem_cons_of_mem new hr) List.mem_cons_self (le_refl _) (by omega)
          (le_refl _)
          (by omega)
      have hnonneg := h.fits.node_nonneg (c := c) hr
      rw [h.head, h.cells.first r hr, seqoff_num hnear', Int.tmod_eq_emod_of_nonneg (by omega),
        slot_add, add_sub_cancel]
    unfold insert
    rw [if_neg (mt h.nil_of_length.mp hcons), h.tail, h.cells.last p hp]
    simp only [hloc, seqlen_num hle (by omega : new.hi - new.lo < seqNoTH)]
    split_ifs with hif
    · obtain ⟨hne, hinc⟩ := hif
      rw [Ne, endOf_eq_neg] at hne
      rw [endOf_of_lt (by omega), incseq_num, num_inj hnear] at hinc
      have hjoined := h.insertJoined (by omega) hinc hfits
      rw [h.tail, Range.size] at hjoined
      exact ⟨c, _, hjoined, elems_reach (by omega) (by omega) (by omega) (by omega), rfl⟩
    · have hlast := h.insertLast hlt hfits
      rw [h.tail, Range.size] at hlast
      refine ⟨c, _, hlast, ?_, rfl⟩
      rw [elems_append, elems_cons]
      simp [elems]

theorem erase_cut (hapart : Apart (ps ++ p :: ps')) (hlo : p.lo ≤ k) (hhi : k ≤ p.hi) :
    (elems (ps ++ p :: ps')).erase k = elems (ps ++ ps') ∪ p.elems.erase k := by
  obtain ⟨-, -, hbefore, hbehind⟩ := apart_cut.mp hapart
  have hothers : k ∉ elems (ps ++ ps') := by
    rw [mem_elems]
    rintro ⟨x, hx, hxlo, hxhi⟩
    rcases List.mem_append.mp hx with hx | hx
    · have hxp := hbefore x hx
      omega
    · have hpx := hbehind x hx
      omega
  rw [elems_middle, Finset.erase_union_distrib, Finset.erase_eq_of_notMem hothers]

def Removes (l : RcvLossList) (c k : Int) (ns : List Range) (l' : RcvLossList) : Prop :=
  ∃ ns', Layout l' c ns' ∧ elems ns' = (elems ns).erase k ∧ l'.size = l.size

/-- Which of the branches `unlink` takes depends on where the node is. -/
theorem Layout.unlink_eq (h : Layout l c (ps ++ p :: ps')) :
    l.unlink (node l.size c p) = { l with
      data1 := Function.update l.data1 (node l.size c p) (-1)
      head := if ps = [] then l.next (node l.size c p) else l.head
      next := if ps = [] then l.next
        else Function.update l.next (l.prior (node l.size c p)) (l.next (node l.size c p))
      prior := if ps' = [] then l.prior
        else Function.update l.prior (l.next (node l.size c p)) (l.prior (node l.size c p))
      tail := if ps ≠ [] ∧ ps' = [] then l.prior (node l.size c p) else l.tail } := by
  obtain ⟨hlinks, hlinks'⟩ := h.cut
  have hneg := h.fits.neg_not_mem (c := c)
  rw [List.map_append] at hneg
  have hhead := hlinks.first_eq (Cells.not_mem_cut h.fits h.apart.rising).1
  have hnext := hlinks'.first_eq fun hmem =>
    hneg (List.mem_append_right _ (List.mem_cons_of_mem _ hmem))
  rw [List.map_eq_nil_iff] at hhead hnext
  unfold RcvLossList.unlink
  by_cases hps : ps = []
  · have hprior : l.prior (node l.size c p) = -1 := by
      rw [hps] at hlinks
      exact hlinks.2
    by_cases hps' : ps' = []
    · simp [hhead.mpr hps, hps, hps', hnext.mpr hps']
    · simp [hhead.mpr hps, hps, hps', mt hnext.mp hps', hprior]
  · by_cases hps' : ps' = []
    · simp [mt hhead.mp hps, hps, hps', hnext.mpr hps']
    · simp [mt hhead.mp hps, hps, hps', mt hnext.mp hps']

theorem Layout.unlink (h : Layout l c (ps ++ p :: ps')) (hlo : p.lo = k) (hhi : p.hi = k) :
    Removes l c k (ps ++ p :: ps')
      { l.unlink (node l.size c p) with length := l.length - 1 } := by
  obtain ⟨hps, hps', hbefore, hbehind⟩ := apart_cut.mp h.apart
  obtain ⟨hlinks, hlinks'⟩ := h.cut
  have hnodup := h.fits.erase.nodup (c := c) h.apart.rising.erase
  rw [List.map_append] at hnodup
  have hjoin := hlinks.join hlinks' hnodup
  have hcells := h.cells.erase_single_cut h.fits h.apart.rising (hlo.trans hhi.symm)
  rw [h.unlink_eq]
  refine ⟨ps ++ ps', ?_, ?_, rfl⟩
  · constructor
    · exact hcells
    · intro hempty
      obtain ⟨rfl, rfl⟩ := List.append_eq_nil_iff.mp hempty
      exact hlinks'.1
    · intro hcons
      have htail : (ps ≠ [] ∧ ps' = []) ↔ ps' = [] := by
        constructor
        · exact And.right
        · rintro rfl
          exact ⟨by simpa using hcons, rfl⟩
      simp only [htail, List.map_append]
      simpa only [List.map_eq_nil_iff] using hjoin
    · have htotal := h.total
      rw [total_cut, Range.size] at htotal
      simp only [total_append]
      omega
    · exact h.apart.erase
    · exact h.fits.erase
  · have hempty : p.elems.erase k = ∅ := by
      ext i
      simp
      omega
    rw [erase_cut h.apart hlo.le hhi.ge, hempty, Finset.union_empty]

theorem Layout.advance (h : Layout l c (ps ++ p :: ps')) (hlo : p.lo = k) (hlt : k < p.hi) :
    Removes l c k (ps ++ p :: ps')
      { l.advance (node l.size c p) (slot l.size c (k + 1)) with length := l.length - 1 } := by
  subst hlo
  have hp : p ∈ ps ++ p :: ps' := by simp
  have hle := le_refl p.lo
  obtain ⟨hps, hps', hbefore, hbehind⟩ := apart_cut.mp h.apart
  obtain ⟨hlinks, hlinks'⟩ := h.cut
  have hrising := rising_split h.apart.rising hle hle hlt hbehind
  have hfits := fits_split h.fits hle hle hlt
  rw [List.append_assoc, List.singleton_append] at hrising hfits
  have hfits' := hfits.erase
  have hnodup := hfits'.nodup (c := c) hrising.erase
  rw [List.map_append, List.map_cons] at hnodup
  have hbetween := hlinks.between hlinks' hnodup
  have hnot := Cells.not_mem_cut (c := c) h.fits h.apart.rising
  have hhead := hlinks.first_eq hnot.1
  have htail := hlinks'.last_eq hnot.2
  refine ⟨ps ++ above p p.lo hlt :: ps', ?_, ?_, rfl⟩
  · unfold RcvLossList.advance
    simp only [h.cells.first p hp, h.cells.last p hp, endOf_of_lt hlt, incseq_num,
      Function.update_self, hhead, htail]
    constructor
    · exact h.cells.advance_cut h.fits h.apart.rising hlt hbehind
    · simp
    · intro _
      rw [List.map_append, List.map_cons]
      exact hbetween
    · have htotal := h.total
      rw [total_cut, Range.size] at htotal
      simp only [total_cut, Range.size, above]
      omega
    · refine apart_cut.mpr ⟨hps, hps', ?_, hbehind⟩
      intro x hx
      have hxp := hbefore x hx
      simp only [above]
      omega
    · exact hfits'
  · have habove : p.elems.erase p.lo = (above p p.lo hlt).elems := by
      ext i
      simp only [Finset.mem_erase, Range.mem_elems, above]
      omega
    rw [erase_cut h.apart hle hlt.le, habove, elems_middle]

theorem endBefore_eq (h : Layout l c (ps ++ p :: ps')) (hlo : p.lo < k) (hhi : k ≤ p.hi) :
    l.endBefore (node l.size c p) (num k) = endOf (upTo p (k - 1) (by omega)) := by
  have hp : p ∈ ps ++ p :: ps' := by simp
  have hnear : Near k (p.lo + 1) := h.fits.near hp hp hlo.le (by omega) (by omega) (by omega)
  unfold endBefore endOf
  rw [h.cells.first p hp, incseq_num, decseq_num]
  simp only [num_inj hnear, upTo]
  split_ifs <;> first | rfl | omega

/-- The last number of a range goes. -/
theorem Layout.shorten (h : Layout l c (ps ++ p :: ps')) (hlo : p.lo < k) (hhi : p.hi = k) :
    Removes l c k (ps ++ p :: ps') { l with
      data2 := Function.update l.data2 (node l.size c p) (l.endBefore (node l.size c p) (num k))
      length := l.length - 1 } := by
  have hp : p ∈ ps ++ p :: ps' := by simp
  obtain ⟨hps, hps', hbefore, hbehind⟩ := apart_cut.mp h.apart
  have hnodes : (ps ++ upTo p (k - 1) (by omega) :: ps').map (node l.size c) =
      (ps ++ p :: ps').map (node l.size c) := map_node_change rfl
  rw [endBefore_eq h hlo hhi.ge]
  refine ⟨ps ++ upTo p (k - 1) (by omega) :: ps', ?_, ?_, rfl⟩
  · constructor
    · exact h.cells.change_cut h.fits h.apart.rising rfl
    · simp
    · intro _
      simp only [hnodes]
      exact h.links (by simp)
    · have htotal := h.total
      rw [total_cut, Range.size] at htotal
      simp only [total_cut, Range.size, upTo]
      omega
    · refine apart_cut.mpr ⟨hps, hps', hbefore, ?_⟩
      intro x hx
      have hpx := hbehind x hx
      simp only [upTo]
      omega
    · exact h.fits.change (le_refl _) ⟨p, hp, by simp only [upTo]; omega⟩
  · have hupTo : p.elems.erase k = (upTo p (k - 1) (by omega)).elems := by
      ext i
      simp only [Finset.mem_erase, Range.mem_elems, upTo]
      omega
    rw [erase_cut h.apart hlo.le hhi.ge, hupTo, elems_middle]

/-- A number inside goes. -/
theorem Layout.split (h : Layout l c (ps ++ p :: ps')) (hlo : p.lo < k) (hhi : k < p.hi) :
    Removes l c k (ps ++ p :: ps')
      { l.split (node l.size c p) (slot l.size c (k + 1)) (num k) with length := l.length - 1 } :=
        by
  have hp : p ∈ ps ++ p :: ps' := by simp
  have hlo' : p.lo ≤ k - 1 := by omega
  have hjk : k - 1 ≤ k := by omega
  obtain ⟨hps, hps', hbefore, hbehind⟩ := apart_cut.mp h.apart
  have hrising := rising_split h.apart.rising hlo' hjk hhi hbehind
  have hfits := fits_split h.fits hlo' hjk hhi
  have hnodup := hfits.nodup (c := c) hrising
  rw [List.map_append, List.map_append, List.map_cons, List.map_cons] at hnodup
  obtain ⟨hlinks, hlinks'⟩ := h.cut
  have hfirst : DSeg l.next l.prior (-1) l.head (ps.map (node l.size c) ++ [node l.size c p])
      (node l.size c p) (l.next (node l.size c p)) := dseg_cut.mpr ⟨hlinks, rfl, rfl⟩
  have hnot := Cells.not_mem_cut (c := c) h.fits h.apart.rising
  have htail := hlinks'.last_eq hnot.2
  have hne : node l.size c p ≠ slot l.size c (k + 1) :=
    Cells.node_ne hfits hrising (upTo p (k - 1) hlo') (by simp)
  refine ⟨(ps ++ [upTo p (k - 1) hlo']) ++ above p k hhi :: ps', ?_, ?_, rfl⟩
  · unfold RcvLossList.split
    simp only [endBefore_eq h hlo hhi.le, h.cells.last p hp, endOf_of_lt (hlo.trans hhi),
      incseq_num,
      Function.update_self, Function.update_of_ne hne.symm, htail]
    constructor
    · exact h.cells.split_cut h.fits h.apart.rising hlo' hjk hhi hbehind
    · simp
    · intro _
      rw [List.map_append, List.map_append, List.map_cons, List.map_cons]
      have hbetween := hfirst.between hlinks' hnodup
      simp only [List.append_eq_nil_iff, List.cons_ne_nil, and_false, if_false] at hbetween
      exact hbetween
    · have htotal := h.total
      rw [total_cut, Range.size] at htotal
      rw [List.append_assoc, List.singleton_append]
      simp only [total_cut, total_cons, Range.size, above, upTo]
      omega
    · refine apart_cut.mpr ⟨apart_cut.mpr ⟨hps, List.Pairwise.nil, hbefore, by simp⟩, hps', ?_,
      hbehind⟩
      intro x hx
      rcases List.mem_append.mp hx with hx | hx
      · have hxp := hbefore x hx
        simp only [above]
        omega
      · obtain rfl := List.mem_singleton.mp hx
        simp only [upTo, above]
        omega
    · exact hfits
  · have hboth : p.elems.erase k = (upTo p (k - 1) hlo').elems ∪ (above p k hhi).elems := by
      ext i
      simp only [Finset.mem_erase, Finset.mem_union, Range.mem_elems, upTo, above]
      omega
    rw [erase_cut h.apart hlo.le hhi.le, hboth, elems_middle, List.append_assoc,
      List.singleton_append,
      elems_middle, Finset.union_assoc]

/-- The search goes down to the slot of the last node that begins before `k`. -/
theorem previous_spec (h : Layout l c (ps ++ p :: ps')) {j : Int} (hlo : p.lo ≤ j) (hjk : j < k)
    (hbehind : ∀ x ∈ ps', k ≤ x.lo) (hwithin : ∀ x ∈ ps ++ p :: ps', k - x.lo < l.size) {fuel : Nat}
    (hfuel : j - p.lo ≤ fuel) : l.previous fuel (slot l.size c j) = node l.size c p := by
  have hp : p ∈ ps ++ p :: ps' := by simp
  have hpos := h.fits.pos hp
  induction fuel generalizing j with
  | zero =>
    have hj : j = p.lo := by omega
    rw [previous, hj]
  | succ fuel ih =>
    rw [previous]
    by_cases hj : j = p.lo
    · rw [hj, h.cells.first p hp, if_neg (num_ne p.lo)]
    · have hfree : l.data1 (slot l.size c j) = -1 := by
        apply h.cells.free1
        intro x hx hslot
        have hkx := hwithin x hx
        have hxp := h.fits.span x hx p hp
        have hxle := x.le
        rw [slot_inj (by omega)] at hslot
        rcases List.mem_cons.mp (List.perm_middle.mem_iff.mp hx) with rfl | hx
        · omega
        · rcases List.mem_append.mp hx with hx | hx
          · have hxlo := (rising_cut.mp h.apart.rising).2.2.1 x hx
            omega
          · have hxlo := hbehind x hx
            omega
      have hdown : (slot l.size c j - 1 + l.size).tmod l.size = slot l.size c (j - 1) := by
        have hnonneg := slot_nonneg (c := c) (i := j) hpos
        rw [Int.tmod_eq_emod_of_nonneg (by omega), sub_eq_add_neg, slot_add_cycle, ← sub_eq_add_neg]
      rw [if_pos hfree, hdown]
      exact ih (by omega) (by omega) (by omega)

theorem Layout.keeps (h : Layout l c ns) (hk : k ∉ elems ns) : Removes l c k ns l :=
  ⟨ns, h, (Finset.erase_eq_of_notMem hk).symm, rfl⟩

/-- `remove` takes a number away, and says whether it was there. -/
theorem remove_spec (h : Layout l c ns) (hnear : ∀ x ∈ ns, Near x.lo k ∧ Near x.hi k)
    (hwithin : ∀ x ∈ ns, k - x.lo < l.size) :
    (l.remove (num k)).1 = decide (k ∈ elems ns) ∧ Removes l c k ns (l.remove (num k)).2 := by
  unfold remove
  cases ns with
  | nil =>
    rw [if_pos (h.nil_of_length.mpr rfl)]
    exact ⟨by simp, h.keeps (by simp)⟩
  | cons r rs =>
    have hcons : r :: rs ≠ [] := List.cons_ne_nil r rs
    have hr : r ∈ r :: rs := List.mem_cons_self
    have hpos := h.fits.pos hr
    have hnonneg := h.fits.node_nonneg (c := c) hr
    have hoff : seqoff (l.data1 l.head) (num k) = k - r.lo := by
      rw [h.head, h.cells.first r hr, seqoff_num (hnear r hr).1]
    rw [if_neg (mt h.nil_of_length.mp hcons)]
    simp only [hoff]
    by_cases hbefore : k - r.lo < 0
    · have hk : k ∉ elems (r :: rs) := fun hk => by
        have hle := h.apart.head_least hk
        omega
      rw [if_pos hbefore]
      exact ⟨by simp [hk], h.keeps hk⟩
    have hloc : (l.head + (k - r.lo)).tmod l.size = slot l.size c k := by
      rw [h.head, Int.tmod_eq_emod_of_nonneg (by omega), slot_add, add_sub_cancel]
    have hslot := slot_nonneg (c := c) (i := k) hpos
    have hloc' : (slot l.size c k + 1).tmod l.size = slot l.size c (k + 1) := by
      rw [Int.tmod_eq_emod_of_nonneg (by omega), slot_add]
    have hdown : (slot l.size c k - 1 + l.size).tmod l.size = slot l.size c (k - 1) := by
      rw [Int.tmod_eq_emod_of_nonneg (by omega), sub_eq_add_neg, slot_add_cycle, ← sub_eq_add_neg]
    rw [if_neg hbefore, hloc, hloc', hdown]
    by_cases hthere : num k = l.data1 (slot l.size c k)
    · obtain ⟨p, hp, hplo, hpslot⟩ := h.cells.begins hthere.symm fun x hx => (hnear x hx).1
      have hk : k ∈ elems (r :: rs) := mem_elems.mpr ⟨p, hp, hplo.le, hplo ▸ p.le⟩
      have hple := p.le
      have hlast := h.cells.last p hp
      obtain ⟨ps, ps', hcut⟩ := List.append_of_mem hp
      rw [hcut] at h hk ⊢
      rw [if_pos hthere, ← hpslot, hlast]
      refine ⟨by simp only [hk, decide_true], ?_⟩
      split_ifs with hend
      · rw [endOf_eq_neg] at hend
        exact h.unlink hplo (by omega)
      · rw [endOf_eq_neg] at hend
        exact h.advance hplo (by omega)
    · have hrk : r.lo < k := by
        have hrk' : r.lo ≠ k := by
          rintro rfl
          exact hthere (h.cells.first r hr).symm
        omega
      obtain ⟨ps, p, ps', hcut, hplo, hbehind⟩ := h.apart.rising.last_before hrk
      have hp : p ∈ r :: rs := by simp [hcut]
      have hple := p.le
      have hpk := hwithin p hp
      have hpnear := (hnear p hp).2
      have hlast := h.cells.last p hp
      have hfuel : k - 1 - p.lo ≤ l.rounds := by
        unfold rounds
        omega
      have hstrict : ∀ x ∈ ps', k < x.lo := by
        intro x hx
        have hle := hbehind x hx
        have hx' : x ∈ r :: rs := by simp [hcut, hx]
        by_contra hnot
        have heq : x.lo = k := by omega
        apply hthere
        rw [← heq, ← h.cells.first x hx', node, heq]
      rw [hcut] at h hwithin ⊢
      rw [if_neg hthere, previous_spec h (by omega) (by omega) hbehind hwithin hfuel, hlast]
      by_cases hover : p.hi < k
      · have hif : endOf p = -1 ∨ 0 < seqcmp (num k) (endOf p) := by
          by_cases hsingle : p.lo = p.hi
          · exact .inl (endOf_eq_neg.mpr hsingle)
          · rw [endOf_of_lt (by omega), seqcmp_pos hpnear.symm]
            exact .inr hover
        have hk : k ∉ elems (ps ++ p :: ps') := by
          rw [mem_elems]
          rintro ⟨x, hx, hxlo, hxhi⟩
          rcases List.mem_cons.mp (List.perm_middle.mem_iff.mp hx) with rfl | hx
          · omega
          · rcases List.mem_append.mp hx with hx | hx
            · have hxp := (apart_cut.mp h.apart).2.2.1 x hx
              omega
            · have hkx := hstrict x hx
              omega
        rw [if_pos hif]
        exact ⟨by simp [hk], h.keeps hk⟩
      · have hif : ¬(endOf p = -1 ∨ 0 < seqcmp (num k) (endOf p)) := by
          rw [endOf_eq_neg, endOf_of_lt (by omega), seqcmp_pos hpnear.symm]
          omega
        have hk : k ∈ elems (ps ++ p :: ps') := mem_elems.mpr ⟨p, by simp, by omega, by omega⟩
        rw [if_neg hif, endOf_of_lt (by omega)]
        refine ⟨by simp only [hk, decide_true], ?_⟩
        split_ifs with hend
        · rw [num_inj hpnear.symm] at hend
          exact h.shorten hplo hend.symm
        · rw [num_inj hpnear.symm] at hend
          exact h.split hplo (by omega)

end RcvLossList
end NineWire.Udt
