import NineWire.Refinement
import NineWire.Udt.SndLossRemove

/-! The sender's loss list is a set of sequence numbers: what each call answers,
and what a list of calls does. -/
namespace NineWire.Udt
open NineWire.Ranges NineWire.Ring NineWire.Chain NineWire.Refinement NineWire.Udt.SeqNo
namespace SndLossList

variable {l : SndLossList} {c k : Int} {r : Range} {rs rs' ns : List Range}

variable {S : Finset Int}

def Shows (l : SndLossList) (S : Finset Int) : Prop :=
  ∃ c ns, Layout l c ns ∧ Apart ns ∧ elems ns = S

theorem shows_new {size : Int} (hsize : size < seqNoTH) : Shows (new size) ∅ := by
  refine ⟨0, [], ⟨Cells.empty, rfl, rfl, .inl rfl, List.Pairwise.nil, hsize, by simp⟩,
    List.Pairwise.nil, rfl⟩

theorem Shows.length_eq (h : Shows l S) : l.length = S.card := by
  obtain ⟨c, ns, hlayout, hapart, rfl⟩ := h
  rw [hlayout.total, hapart.total_eq]

theorem coalesce_size (loc : Int) (fuel : Nat) (l : SndLossList) :
    (coalesce loc fuel l).size = l.size := by
  induction fuel generalizing l with
  | zero => rfl
  | succ fuel ih =>
    rw [coalesce]
    split_ifs
    · exact ih _
    · rfl
    · rfl

theorem Shows.coalesce (h : Layout l c (rs ++ r :: rs')) (hlast : l.lastInsertPos = node l.size c r)
    (hrs : Apart rs) (hrs' : Apart rs') (hbefore : ∀ x ∈ rs, x.hi < r.lo) :
    Shows (SndLossList.coalesce (node l.size c r) l.rounds l) (elems (rs ++ r :: rs')) := by
  have hrounds : (rs ++ r :: rs').length ≤ l.rounds := h.fits.length_le h.rising
  rw [List.length_append, List.length_cons] at hrounds
  have hbehind := (rising_cut.mp h.rising).2.2.2
  refine ⟨c, _, h.coalesce hlast (by omega), ?_, ?_⟩
  · refine List.pairwise_append.mpr ⟨hrs, hrs'.absorb hbehind, ?_⟩
    intro x hx y hy
    have hxr := hbefore x hx
    rcases mem_absorb hy with hlo | hy
    · omega
    · have hry := hbehind y hy
      omega
  · rw [elems_append, elems_absorb hbehind, elems_append, elems_cons]

theorem Layout.insertEmpty {new : Range} (h : Layout l c []) (hfits : Fits l.size [new]) :
    Layout (l.insertEmpty (num new.lo) (num new.hi)) (-new.lo) [new] := by
  have hle := new.le
  have hmem : new ∈ [new] := List.mem_cons_self
  have hspan := hfits.span new hmem new hmem
  have hsize := hfits.size_lt
  have hnode : node l.size (-new.lo) new = 0 := by
    rw [node, slot, neg_add_cancel, Int.zero_emod]
  have hrising : Rising [new] := List.pairwise_singleton _ new
  have hcells : Cells l.size (-new.lo) l.data1 l.data2 ([] ++ []) := h.cells.recenter (-new.lo)
  have hput := hcells.put_cut hfits hrising
  rw [hnode] at hput
  constructor
  · exact hput
  · refine ⟨hnode.symm, ?_⟩
    simp only [SndLossList.insertEmpty, put, hnode]
    exact Function.update_self _ _ _
  · have htotal := h.total
    simp only [SndLossList.insertEmpty, htotal, seqlen_num hle (by omega)]
    simp [Ranges.total, Range.size]
  · exact .inr ⟨new, hmem, hnode.symm⟩
  · exact hrising
  · exact hfits

/-- `insert` adds the numbers, and says how many of them are new. -/
theorem insert_spec (h : Shows l S) (new : Range) (hsize : l.size < seqNoTH)
    (hwithin : Within l.size (S ∪ new.elems)) :
    (l.insert (num new.lo) (num new.hi)).1 = ((S ∪ new.elems).card : Int) - S.card ∧
      (l.insert (num new.lo) (num new.hi)).2.size = l.size ∧
      Shows (l.insert (num new.lo) (num new.hi)).2 (S ∪ new.elems) := by
  have hlength := h.length_eq
  obtain ⟨c, ns, hlayout, hapart, rfl⟩ := h
  have hfits : Fits l.size (new :: ns) := by
    refine (fits_iff rfl).mpr ⟨hsize, ?_⟩
    rwa [elems_cons, Finset.union_comm]
  unfold insert
  by_cases hempty : l.length = 0
  · obtain rfl := hlayout.nil_of_length.mp hempty
    have hshows : Shows (l.insertEmpty (num new.lo) (num new.hi)) (elems [] ∪ new.elems) := by
      refine ⟨-new.lo, [new], hlayout.insertEmpty hfits, List.pairwise_singleton _ new, ?_⟩
      rw [elems_cons, Finset.union_comm]
    have hlength' := hshows.length_eq
    rw [if_pos hempty]
    refine ⟨?_, rfl, hshows⟩
    simp only
    omega
  · obtain ⟨r, ns, rfl⟩ := List.exists_cons_of_ne_nil (mt hlayout.nil_of_length.mpr hempty)
    have hplaced := place_spec hlayout hapart hfits
    rw [if_neg hempty]
    generalize l.place (num new.lo) (num new.hi) = res at hplaced
    cases hplaced with
    | there hlayout' hsize' hsub =>
      have hunion := Finset.union_eq_left.mpr hsub
      simp only [hunion, sub_self, true_and]
      exact ⟨hsize', c, _, hlayout', hapart, rfl⟩
    | covered hlayout' hsize' hlast hrs hrs' hbefore helems =>
      rw [← hsize'] at hlast ⊢
      have hshows := Shows.coalesce hlayout' hlast hrs hrs' hbefore
      rw [helems] at hshows
      have hlength' := hshows.length_eq
      refine ⟨?_, ?_, hshows⟩
      · simp only
        omega
      · exact coalesce_size _ _ _

theorem behead_size (l : SndLossList) (seqno : Int) : (l.behead seqno).size = l.size := by
  unfold behead
  split_ifs <;> rfl

theorem cut_size (l : SndLossList) (loc seqno : Int) : (l.cut loc seqno).size = l.size := by
  unfold cut
  simp only
  split_ifs <;> rfl

/-- `remove` takes away the numbers up to `k`. -/
theorem remove_spec (h : Shows l S) (hnear : ∀ i ∈ S, Near i k) :
    Shows (l.remove (num k)) (S.filter (k < ·)) ∧ (l.remove (num k)).size = l.size := by
  obtain ⟨c, ns, hlayout, hapart, rfl⟩ := h
  unfold remove
  by_cases hempty : l.length = 0
  · obtain rfl := hlayout.nil_of_length.mp hempty
    rw [if_pos hempty]
    exact ⟨⟨c, [], hlayout, hapart, rfl⟩, rfl⟩
  · obtain ⟨r, ns, rfl⟩ := List.exists_cons_of_ne_nil (mt hlayout.nil_of_length.mpr hempty)
    have hr : r ∈ r :: ns := List.mem_cons_self
    have hnear' : ∀ x ∈ r :: ns, Near x.lo k ∧ Near x.hi k := fun x hx =>
      ⟨hnear x.lo (mem_elems.mpr ⟨x, hx, le_refl _, x.le⟩),
        hnear x.hi (mem_elems.mpr ⟨x, hx, x.le, le_refl _⟩)⟩
    have hoff : seqoff (l.data1 l.head) (num k) = k - r.lo := by
      rw [hlayout.head, hlayout.cells.first r hr, seqoff_num (hnear' r hr).1]
    rw [if_neg hempty]
    simp only [hoff]
    split_ifs with hzero hpos
    · obtain rfl : k = r.lo := by omega
      obtain ⟨ns', hlayout', hapart', helems⟩ := behead_spec hlayout hapart
      exact ⟨⟨c, ns', hlayout', hapart', helems⟩, behead_size _ _⟩
    · have hsize := hlayout.fits.pos hr
      have hloc : (l.head + (k - r.lo) + l.size).tmod l.size = slot l.size c k := by
        rw [hlayout.head, loc_eq hsize (by omega), add_sub_cancel]
      rw [hloc]
      obtain ⟨ds, ns', hdropping, hrounds, hapart', helems⟩ :=
        cut_spec hlayout hapart (by omega) hnear'
      obtain ⟨hlayout', hsize'⟩ := dropTo_spec hdropping hrounds
      exact ⟨⟨c, ns', hlayout', hapart', helems⟩, hsize'.trans (cut_size _ _ _)⟩
    · have hall : (elems (r :: ns)).filter (k < ·) = elems (r :: ns) := by
        apply Finset.filter_true_of_mem
        intro i hi
        have hle := hapart.head_least hi
        omega
      rw [hall]
      exact ⟨⟨c, r :: ns, hlayout, hapart, rfl⟩, rfl⟩

/-- `getLostSeq` takes the first number. -/
theorem getLostSeq_spec (h : Shows l S) (hne : S.Nonempty) :
    l.getLostSeq.1 = num (S.min' hne) ∧ Shows l.getLostSeq.2 (S.erase (S.min' hne)) ∧
      l.getLostSeq.2.size = l.size := by
  obtain ⟨c, ns, hlayout, hapart, rfl⟩ := h
  have hcons : ns ≠ [] := by
    rintro rfl
    simp [elems] at hne
  obtain ⟨r, ns, rfl⟩ := List.exists_cons_of_ne_nil hcons
  have hr : r ∈ r :: ns := List.mem_cons_self
  have hmin := hapart.min_eq hne
  have herase : (elems (r :: ns)).erase r.lo = (elems (r :: ns)).filter (r.lo < ·) := by
    ext i
    simp only [Finset.mem_erase, Finset.mem_filter]
    constructor
    · rintro ⟨hi, hmem⟩
      have hle := hapart.head_least hmem
      exact ⟨hmem, by omega⟩
    · rintro ⟨hmem, hlt⟩
      exact ⟨by omega, hmem⟩
  have hnil : l.length ≠ 0 := mt hlayout.nil_of_length.mp hcons
  unfold getLostSeq
  rw [if_neg hnil, hmin, herase, hlayout.head, hlayout.cells.first r hr]
  obtain ⟨ns', hlayout', hapart', helems⟩ := behead_spec hlayout hapart
  exact ⟨rfl, ⟨c, ns', hlayout', hapart', helems⟩, behead_size _ _⟩

theorem getLostSeq_empty (h : Shows l ∅) : l.getLostSeq = (-1, l) := by
  have hlength := h.length_eq
  rw [getLostSeq, if_pos (by simpa using hlength)]

inductive Op where
  | insert (new : Range)
  | remove (k : Int)
  | getLossLength
  | getLostSeq

def call (l : SndLossList) : Op → Int × SndLossList
  | .insert new => l.insert (num new.lo) (num new.hi)
  | .remove k => (0, l.remove (num k))
  | .getLossLength => (l.getLossLength, l)
  | .getLostSeq => l.getLostSeq

def callSet (S : Finset Int) : Op → Int × Finset Int
  | .insert new => (((S ∪ new.elems).card : Int) - S.card, S ∪ new.elems)
  | .remove k => (0, S.filter (k < ·))
  | .getLossLength => (S.card, S)
  | .getLostSeq => if h : S.Nonempty then (num (S.min' h), S.erase (S.min' h)) else (-1, S)

def Allowed (size : Int) (S : Finset Int) : Op → Prop
  | .insert new => Within size (S ∪ new.elems)
  | .remove k => ∀ i ∈ S, Near i k
  | .getLossLength => True
  | .getLostSeq => True

theorem call_spec (h : Shows l S) (hsize : l.size < seqNoTH) (op : Op)
    (hop : Allowed l.size S op) :
    (l.call op).1 = (callSet S op).1 ∧ Shows (l.call op).2 (callSet S op).2 ∧
      (l.call op).2.size = l.size := by
  cases op with
  | insert new =>
    obtain ⟨hcount, hsize', hshows⟩ := insert_spec h new hsize hop
    exact ⟨hcount, hshows, hsize'⟩
  | remove k =>
    obtain ⟨hshows, hsize'⟩ := remove_spec h hop
    exact ⟨rfl, hshows, hsize'⟩
  | getLossLength => exact ⟨h.length_eq, h, rfl⟩
  | getLostSeq =>
    by_cases hne : S.Nonempty
    · obtain ⟨hseq, hshows, hsize'⟩ := getLostSeq_spec h hne
      simp only [call, callSet, dif_pos hne]
      exact ⟨hseq, hshows, hsize'⟩
    · obtain rfl := Finset.not_nonempty_iff_eq_empty.mp hne
      simp only [call, callSet, dif_neg hne, getLostSeq_empty h]
      exact ⟨trivial, h, trivial⟩

/-- As long as the numbers stay within windows of its size, the list answers
every call as the set of numbers would that it stands for. -/
theorem sndLossList_is_a_set {size : Int} (hsize : size < seqNoTH) {ops : List Op}
    (hops : Permitted callSet (Allowed size) ∅ ops) :
    (reactions call (new size) ops).1 = (reactions callSet ∅ ops).1 ∧
      Shows (reactions call (new size) ops).2 (reactions callSet ∅ ops).2 := by
  have hsim : (reactions call (new size) ops).1 = (reactions callSet ∅ ops).1 ∧
      Shows (reactions call (new size) ops).2 (reactions callSet ∅ ops).2 ∧
        (reactions call (new size) ops).2.size = size := by
    apply reactions_sim (fun l S => Shows l S ∧ l.size = size) _ ⟨shows_new hsize, rfl⟩ hops
    rintro l S op ⟨hshows, rfl⟩ hop
    exact call_spec hshows hsize op hop
  exact ⟨hsim.1, hsim.2.1⟩

instance {size : Int} (S : Finset Int) : (op : Op) → Decidable (Allowed size S op)
  | .insert new => inferInstanceAs (Decidable (Within size (S ∪ new.elems)))
  | .remove k => inferInstanceAs (Decidable (∀ i ∈ S, (i - k).natAbs < seqNoTH))
  | .getLossLength => .isTrue trivial
  | .getLostSeq => .isTrue trivial


theorem sndLossList_is_a_set_ten :
    (reactions call (new 10) [.insert ⟨2147483646, 2147483649, by decide⟩,
      .insert ⟨2147483645, 2147483645, by decide⟩, .remove 2147483646, .getLostSeq,
        .getLossLength]).1
      = [4, 1, 0, 2147483647, 2] :=
  (sndLossList_is_a_set (by decide) (by decide)).1.trans (by decide)

end SndLossList
end NineWire.Udt
