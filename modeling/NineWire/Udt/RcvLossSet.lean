import NineWire.Refinement
import NineWire.Udt.RcvLossLayout

/-! The receiver's loss list is a set of sequence numbers: what each call
answers, and what a list of calls does. -/
namespace NineWire.Udt
open NineWire.Ranges NineWire.Ring NineWire.Chain NineWire.Refinement NineWire.Udt.SeqNo
namespace RcvLossList

variable {l : RcvLossList} {c k : Int} {r : Range} {ns : List Range}

variable {S : Finset Int} {a b : Int}

def Shows (l : RcvLossList) (S : Finset Int) : Prop := ∃ c ns, Layout l c ns ∧ elems ns = S

theorem shows_new {size : Int} (hsize : size < seqNoTH) : Shows (new size) ∅ :=
  ⟨0, [], ⟨Cells.empty, fun _ => rfl, fun h => absurd rfl h, rfl, List.Pairwise.nil, hsize,
    by simp⟩, rfl⟩

theorem Shows.length_eq (h : Shows l S) : l.length = S.card := by
  obtain ⟨c, ns, hlayout, rfl⟩ := h
  rw [hlayout.total, hlayout.apart.total_eq]

theorem Shows.insert (h : Shows l S) (new : Range) (hsize : l.size < seqNoTH)
    (hbefore : ∀ i ∈ S, i < new.lo) (hwithin : Within l.size (S ∪ new.elems)) :
    Shows (l.insert (num new.lo) (num new.hi)) (S ∪ new.elems) ∧
      (l.insert (num new.lo) (num new.hi)).size = l.size := by
  obtain ⟨c, ns, hlayout, rfl⟩ := h
  have hfits : Fits l.size (new :: ns) := by
    refine (fits_iff rfl).mpr ⟨hsize, ?_⟩
    rwa [elems_cons, Finset.union_comm]
  have hbefore' : ∀ x ∈ ns, x.hi < new.lo := fun x hx =>
    hbefore x.hi (mem_elems.mpr ⟨x, hx, x.le, le_refl _⟩)
  obtain ⟨c', ns', hlayout', helems, hsize'⟩ := insert_spec hlayout hbefore' hfits
  exact ⟨⟨c', ns', hlayout', helems⟩, hsize'⟩

def Reached (size : Int) (S : Finset Int) (k : Int) : Prop := ∀ i ∈ S, Near i k ∧ k - i < size

theorem Shows.remove (h : Shows l S) (hk : Reached l.size S k) :
    (l.remove (num k)).1 = decide (k ∈ S) ∧ Shows (l.remove (num k)).2 (S.erase k) ∧
      (l.remove (num k)).2.size = l.size := by
  obtain ⟨c, ns, hlayout, rfl⟩ := h
  have hlo : ∀ x ∈ ns, x.lo ∈ elems ns := fun x hx => mem_elems.mpr ⟨x, hx, le_refl _, x.le⟩
  have hhi : ∀ x ∈ ns, x.hi ∈ elems ns := fun x hx => mem_elems.mpr ⟨x, hx, x.le, le_refl _⟩
  have hnear : ∀ x ∈ ns, Near x.lo k ∧ Near x.hi k := fun x hx =>
    ⟨(hk x.lo (hlo x hx)).1, (hk x.hi (hhi x hx)).1⟩
  have hwithin : ∀ x ∈ ns, k - x.lo < l.size := fun x hx => (hk x.lo (hlo x hx)).2
  obtain ⟨hfound, ns', hlayout', helems, hsize⟩ := remove_spec hlayout hnear hwithin
  exact ⟨hfound, ⟨c, ns', hlayout', helems⟩, hsize⟩

/-- The numbers in a row go as long as they do not start again at 0. -/
theorem Shows.removeFrom {n : Nat} (h : Shows l S) (hn : num k + n ≤ maxSeqNo + 1)
    (hreached : ∀ j, k ≤ j → j < k + n → Reached l.size S j) :
    Shows (l.removeFrom (num k) n) (S.filter fun i => i < k ∨ k + n ≤ i) ∧
      (l.removeFrom (num k) n).size = l.size := by
  induction n generalizing l S k with
  | zero =>
    have hall : (S.filter fun i => i < k ∨ k + (0 : Nat) ≤ i) = S := by
      apply Finset.filter_true_of_mem
      intro i _
      omega
    rw [hall]
    exact ⟨h, rfl⟩
  | succ n ih =>
    obtain ⟨-, hremoved, hsize⟩ := h.remove (hreached k (le_refl k) (by omega))
    have hnum : n = 0 ∨ num k + 1 = num (k + 1) := by
      simp only [num, maxSeqNo] at *
      omega
    have hset : (S.filter fun i => i < k ∨ k + (n + 1 : Nat) ≤ i) =
        (S.erase k).filter fun i => i < k + 1 ∨ k + 1 + n ≤ i := by
      ext i
      simp only [Finset.mem_filter, Finset.mem_erase]
      constructor
      · rintro ⟨hi, hout⟩
        exact ⟨⟨by omega, hi⟩, by omega⟩
      · rintro ⟨⟨hne, hi⟩, hout⟩
        exact ⟨hi, by omega⟩
    rw [hset, RcvLossList.removeFrom]
    have hreached' : ∀ j, k + 1 ≤ j → j < k + 1 + n → Reached (l.remove (num k)).2.size
      (S.erase k) j := by
      intro j hj hj' i hi
      rw [hsize]
      exact hreached j (by omega) (by omega) i (Finset.mem_of_mem_erase hi)
    rcases hnum with rfl | hnum
    · have hall : ((S.erase k).filter fun i => i < k + 1 ∨ k + 1 + (0 : Nat) ≤ i) = S.erase k := by
        apply Finset.filter_true_of_mem
        intro i _
        omega
      rw [hall]
      exact ⟨hremoved, hsize⟩
    · rw [hnum]
      obtain ⟨hshows, hsize'⟩ := ih hremoved (by simp only [num, maxSeqNo] at *; omega) hreached'
      exact ⟨hshows, hsize'.trans hsize⟩

/-- What `remove` of a range leaves: where the numbers start again at 0, the
largest one is not looked at. -/
def spared (S : Finset Int) (a b : Int) : Finset Int :=
  S.filter fun i => i < a ∨ b < i ∨ num i = maxSeqNo

theorem Shows.removeRange (h : Shows l S) (hle : a ≤ b) (hlt : b - a < seqNoTH)
    (hb : num b ≠ maxSeqNo) (hreached : ∀ j, a ≤ j → j ≤ b → Reached l.size S j) :
    ∃ l', l.removeRange (num a) (num b) = some l' ∧ Shows l' (spared S a b) ∧ l'.size = l.size := by
  unfold RcvLossList.removeRange
  by_cases hwrap : num a ≤ num b
  · obtain ⟨n, hn⟩ : ∃ n : Nat, (num b - num a + 1).toNat = n ∧ a + n = b + 1 ∧
        num a + n ≤ maxSeqNo + 1 := by
      refine ⟨_, rfl, ?_⟩
      simp only [num, maxSeqNo, seqNoTH] at *
      omega
    obtain ⟨hn, hend, hmax⟩ := hn
    obtain ⟨hshows, hsize⟩ := h.removeFrom hmax fun j hj hj' => hreached j hj (by omega)
    have hset : spared S a b = S.filter fun i => i < a ∨ a + n ≤ i := by
      apply Finset.filter_congr
      intro i _
      simp only [num, maxSeqNo, seqNoTH] at *
      omega
    rw [if_pos hwrap, if_neg hb, hn, hset]
    exact ⟨_, rfl, hshows, hsize⟩
  · -- the first loop ends before `m`, the second begins behind it
    obtain ⟨n, n', m, hn, hn', ham, hmb, hm, hm'⟩ : ∃ (n n' : Nat) (m : Int),
        (maxSeqNo - num a).toNat = n ∧ (num b + 1).toNat = n' ∧ a + n = m ∧ m + 1 + n' = b + 1 ∧
          num m = maxSeqNo ∧ num (m + 1) = 0 := by
      refine ⟨_, _, _, rfl, rfl, rfl, ?_⟩
      simp only [num, maxSeqNo, seqNoTH] at *
      omega
    have hmax : num a + n ≤ maxSeqNo + 1 := by
      simp only [num, maxSeqNo] at *
      omega
    have hmax' : num (m + 1) + n' ≤ maxSeqNo + 1 := by
      simp only [num, maxSeqNo] at *
      omega
    obtain ⟨hshows, hsize⟩ := h.removeFrom hmax fun j hj hj' => hreached j hj (by omega)
    obtain ⟨hshows', hsize'⟩ := hshows.removeFrom hmax' fun j hj hj' i hi => by
      rw [hsize]
      exact hreached j (by omega) (by omega) i (Finset.mem_of_mem_filter i hi)
    have hset : spared S a b = (S.filter fun i => i < a ∨ a + n ≤ i).filter
        fun i => i < m + 1 ∨ m + 1 + n' ≤ i := by
      rw [Finset.filter_filter]
      apply Finset.filter_congr
      intro i _
      simp only [num, maxSeqNo, seqNoTH] at *
      omega
    rw [if_neg hwrap, hn, hn', hset, ← hm']
    exact ⟨_, rfl, hshows', hsize'.trans hsize⟩

theorem finds_spec (h : Layout l c ns) (hr : r ∈ ns) (hle : a ≤ b)
    (hnear : ∀ i ∈ r.elems, Near i a ∧ Near i b) :
    l.finds (node l.size c r) (num a) (num b) = true ↔ ∃ i ∈ r.elems, a ≤ i ∧ i ≤ b := by
  obtain ⟨hloa, hlob⟩ := hnear r.lo r.lo_mem
  have hhia := (hnear r.hi r.hi_mem).1
  have hrle := r.le
  have hzero : seqcmp (num r.lo) (num a) = 0 ↔ r.lo = a := by
    have hpos := seqcmp_pos hloa
    have hneg := seqcmp_neg hloa
    omega
  have hmem : (∃ i ∈ r.elems, a ≤ i ∧ i ≤ b) ↔ r.lo ≤ b ∧ a ≤ r.hi := by
    constructor
    · rintro ⟨i, hi, hai, hib⟩
      have hi' := Range.mem_elems.mp hi
      omega
    · rintro ⟨hlo, hhi⟩
      exact ⟨max a r.lo, Range.mem_elems.mpr (by omega), by omega, by omega⟩
  rw [hmem, finds, h.cells.first r hr, h.cells.last r hr, decide_eq_true_iff, hzero,
    seqcmp_pos hloa, seqcmp_nonpos hlob, seqcmp_neg hloa, Ne, endOf_eq_neg]
  by_cases hsingle : r.lo = r.hi
  · simp only [hsingle, not_true, false_and, and_false, or_false]
    omega
  · rw [endOf_of_lt (by omega), seqcmp_nonneg hhia]
    omega

theorem findFrom_spec {rs : List Range} {q i t : Int} (h : Layout l c ns) (hsub : ∀ x ∈ rs, x ∈ ns)
    (hlinks : DSeg l.next l.prior q i (rs.map (node l.size c)) t (-1)) (hle : a ≤ b)
    (hnear : ∀ i ∈ elems ns, Near i a ∧ Near i b) {fuel : Nat} (hfuel : rs.length ≤ fuel) :
    l.findFrom (num a) (num b) fuel i = true ↔ ∃ i ∈ elems rs, a ≤ i ∧ i ≤ b := by
  induction rs generalizing q i fuel with
  | nil =>
    obtain rfl : i = -1 := hlinks.1
    cases fuel with
    | zero => simp [findFrom]
    | succ fuel => simp [findFrom]
  | cons r rs ih =>
    obtain ⟨fuel, rfl⟩ := Nat.exists_eq_add_one_of_ne_zero (n := fuel) (by simp at hfuel; omega)
    obtain ⟨rfl, -, hlinks⟩ := hlinks
    have hr := hsub r List.mem_cons_self
    have hnear' : ∀ i ∈ r.elems, Near i a ∧ Near i b := fun i hi =>
      hnear i (mem_elems.mpr ⟨r, hr, Range.mem_elems.mp hi⟩)
    rw [findFrom, if_pos (h.fits.node_ne hr), Bool.or_eq_true, finds_spec h hr hle hnear',
      ih (fun x hx => hsub x (List.mem_cons_of_mem r hx)) hlinks (by simpa using hfuel), elems_cons]
    simp only [Finset.mem_union, or_and_right, exists_or]

/-- `find` says whether a number of the range is there. -/
theorem Shows.find (h : Shows l S) (hle : a ≤ b) (hnear : ∀ i ∈ S, Near i a ∧ Near i b) :
    l.find (num a) (num b) = decide (∃ i ∈ S, a ≤ i ∧ i ≤ b) := by
  obtain ⟨c, ns, hlayout, rfl⟩ := h
  unfold RcvLossList.find
  by_cases hempty : l.length = 0
  · obtain rfl := hlayout.nil_of_length.mp hempty
    simp [hempty]
  · have hlinks := hlayout.links (mt hlayout.nil_of_length.mpr hempty)
    have hfind := findFrom_spec hlayout (fun x hx => hx) hlinks hle hnear
      (hlayout.fits.length_le hlayout.apart.rising)
    rw [if_neg hempty, Bool.eq_iff_iff, decide_eq_true_iff]
    exact hfind

/-- `getFirstLostSeq` is the least number. -/
theorem Shows.getFirstLostSeq (h : Shows l S) :
    l.getFirstLostSeq = if hne : S.Nonempty then num (S.min' hne) else -1 := by
  obtain ⟨c, ns, hlayout, rfl⟩ := h
  unfold RcvLossList.getFirstLostSeq
  cases ns with
  | nil => simp [hlayout.nil_of_length.mpr rfl, elems]
  | cons r rs =>
    have hr : r ∈ r :: rs := List.mem_cons_self
    have hlo : r.lo ∈ elems (r :: rs) := mem_elems.mpr ⟨r, hr, le_refl _, r.le⟩
    have hne : (elems (r :: rs)).Nonempty := ⟨r.lo, hlo⟩
    rw [if_neg (mt hlayout.nil_of_length.mp (List.cons_ne_nil r rs)), dif_pos hne, hlayout.head,
      hlayout.cells.first r hr, hlayout.apart.min_eq]

inductive Op where
  | insert (new : Range)
  | remove (k : Int)
  | removeRange (a b : Int)
  | find (a b : Int)
  | getLossLength
  | getFirstLostSeq

inductive Answer where
  | done
  | undefined
  | found (found : Bool)
  | number (n : Int)
  deriving DecidableEq

def call (l : RcvLossList) : Op → Answer × RcvLossList
  | .insert new => (.done, l.insert (num new.lo) (num new.hi))
  | .remove k => (.found (l.remove (num k)).1, (l.remove (num k)).2)
  | .removeRange a b =>
    match l.removeRange (num a) (num b) with
    | some l' => (.done, l')
    | none => (.undefined, l)
  | .find a b => (.found (l.find (num a) (num b)), l)
  | .getLossLength => (.number l.getLossLength, l)
  | .getFirstLostSeq => (.number l.getFirstLostSeq, l)

def callSet (S : Finset Int) : Op → Answer × Finset Int
  | .insert new => (.done, S ∪ new.elems)
  | .remove k => (.found (k ∈ S), S.erase k)
  | .removeRange a b => (.done, spared S a b)
  | .find a b => (.found (∃ i ∈ S, a ≤ i ∧ i ≤ b), S)
  | .getLossLength => (.number S.card, S)
  | .getFirstLostSeq => (.number (if h : S.Nonempty then num (S.min' h) else -1), S)

/-- Numbers are only added behind those of the list, and those at hand are in a
window of its size; a range does not end with the largest number of all. -/
def Allowed (size : Int) (S : Finset Int) : Op → Prop
  | .insert new => (∀ i ∈ S, i < new.lo) ∧ Within size (S ∪ new.elems)
  | .remove k => Reached size S k
  | .removeRange a b =>
    a ≤ b ∧ b - a < seqNoTH ∧ num b ≠ maxSeqNo ∧ ∀ j ∈ interval a b, Reached size S j
  | .find a b => a ≤ b ∧ ∀ i ∈ S, Near i a ∧ Near i b
  | .getLossLength => True
  | .getFirstLostSeq => True

theorem call_spec (h : Shows l S) (hsize : l.size < seqNoTH) (op : Op)
    (hop : Allowed l.size S op) :
    (l.call op).1 = (callSet S op).1 ∧ Shows (l.call op).2 (callSet S op).2 ∧
      (l.call op).2.size = l.size := by
  cases op with
  | insert new => exact ⟨rfl, h.insert new hsize hop.1 hop.2⟩
  | remove k =>
    obtain ⟨hfound, hshows, hsize'⟩ := h.remove hop
    exact ⟨congrArg Answer.found hfound, hshows, hsize'⟩
  | removeRange a b =>
    obtain ⟨hle, hlt, hb, hreached⟩ := hop
    obtain ⟨l', hl', hshows, hsize'⟩ := h.removeRange hle hlt hb fun j hj hj' =>
      hreached j (mem_interval.mpr ⟨hj, hj'⟩)
    simp only [call, hl']
    exact ⟨rfl, hshows, hsize'⟩
  | find a b => exact ⟨congrArg Answer.found (h.find hop.1 hop.2), h, rfl⟩
  | getLossLength => exact ⟨congrArg Answer.number h.length_eq, h, rfl⟩
  | getFirstLostSeq => exact ⟨congrArg Answer.number h.getFirstLostSeq, h, rfl⟩

/-- As long as numbers are added in order, and all of them stay within windows
of its size, the list answers every call as the set of numbers would. -/
theorem rcvLossList_is_a_set {size : Int} (hsize : size < seqNoTH) {ops : List Op}
    (hops : Permitted callSet (Allowed size) ∅ ops) :
    (reactions call (new size) ops).1 = (reactions callSet ∅ ops).1 ∧
      Shows (reactions call (new size) ops).2 (reactions callSet ∅ ops).2 := by
  have hsim : (reactions call (new size) ops).1 = (reactions callSet ∅ ops).1 ∧
      Shows (reactions call (new size) ops).2 (reactions callSet ∅ ops).2 ∧
        (reactions call (new size) ops).2.size = size := by
    apply reactions_sim (fun l S => Shows l S ∧ l.size = size) _ ⟨shows_new hsize, rfl⟩ hops
    rintro l S op ⟨hshows, rfl⟩ hop
    exact call_spec hshows hsize op hop
  exact ⟨hsim.1, hsim.2.1⟩

instance {size k : Int} : Decidable (Reached size S k) :=
  inferInstanceAs (Decidable (∀ i ∈ S, Near i k ∧ k - i < size))

instance {size : Int} (S : Finset Int) : (op : Op) → Decidable (Allowed size S op)
  | .insert new => inferInstanceAs (Decidable ((∀ i ∈ S, i < new.lo) ∧ Within size (S ∪ new.elems)))
  | .remove k => inferInstanceAs (Decidable (Reached size S k))
  | .removeRange a b => inferInstanceAs (Decidable
      (a ≤ b ∧ b - a < seqNoTH ∧ num b ≠ maxSeqNo ∧ ∀ j ∈ interval a b, Reached size S j))
  | .find a b => inferInstanceAs (Decidable (a ≤ b ∧ ∀ i ∈ S, Near i a ∧ Near i b))
  | .getLossLength => .isTrue trivial
  | .getFirstLostSeq => .isTrue trivial

theorem rcvLossList_is_a_set_ten :
    (reactions call (new 10) [.insert ⟨2147483645, 2147483649, by decide⟩,
      .insert ⟨2147483651, 2147483651, by decide⟩, .remove 2147483645,
      .removeRange 2147483646 2147483648, .find 2147483648 2147483648, .getFirstLostSeq,
        .getLossLength]).1
      = [.done, .done, .found true, .done, .found false, .number 2147483647, .number 3] :=
  (rcvLossList_is_a_set (by decide) (by decide)).1.trans (by decide)

end RcvLossList
end NineWire.Udt
