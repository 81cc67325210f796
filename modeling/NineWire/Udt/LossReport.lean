import NineWire.Udt.RcvLossSet
import NineWire.Udt.SndLossSet

/-! Loss reports: what the receiver writes from its loss list and from a gap, and
what the sender reads from that into its own. -/
namespace NineWire.Udt
open NineWire.Ranges NineWire.Ring NineWire.Chain NineWire.Udt.SeqNo
namespace LossReport

/-- A gap in front of packet `seqno`, as `sendCtrl` packs it. -/
def gapReport (rcvCurrSeqNo seqno : Int) : List Int :=
  if incseq rcvCurrSeqNo = decseq seqno then [decseq seqno]
  else [RcvLossList.marked (incseq rcvCurrSeqNo), decseq seqno]

def unmarked (word : Int) : Int := word + 0x80000000

/-- Decode a loss report and insert the losses, unless it is not to be trusted;
nothing where the last word has a mark, and what is behind it is no word. -/
def decode (sndLastAck sndCurrSeqNo : Int) : List Int → SndLossList → Option (Bool × SndLossList)
  | [], l => some (true, l)
  | word :: words, l =>
    if word < 0 then
      match words with
      | [] => none
      | seqno2 :: words =>
        if 0 < seqcmp (unmarked word) seqno2 ∨ 0 < seqcmp seqno2 sndCurrSeqNo then some (false, l)
        else
          decode sndLastAck sndCurrSeqNo words
            (if 0 ≤ seqcmp (unmarked word) sndLastAck then (l.insert (unmarked word) seqno2).2
            else if 0 ≤ seqcmp seqno2 sndLastAck then (l.insert sndLastAck seqno2).2
            else l)
    else if 0 ≤ seqcmp word sndLastAck then
      if 0 < seqcmp word sndCurrSeqNo then some (false, l)
      else decode sndLastAck sndCurrSeqNo words (l.insert word word).2
    else decode sndLastAck sndCurrSeqNo words l

def words (r : Range) : List Int :=
  if r.lo = r.hi then [num r.lo] else [RcvLossList.marked (num r.lo), num r.hi]

variable {r : Range} {ns rs : List Range} {i k lastAck curr : Int}

theorem gapReport_eq (hgap : i + 1 < k) (hnear : k - i < seqNoTH) :
    gapReport (num i) (num k) = words ⟨i + 1, k - 1, by omega⟩ := by
  have hnear' : Near (i + 1) (k - 1) := by
    apply near_of_lt <;> simp only [seqNoTH] at * <;> omega
  unfold gapReport words
  rw [incseq_num, decseq_num]
  simp only [num_inj hnear']
  split_ifs with h
  · rw [h]
  · rfl

theorem marked_neg (i : Int) : RcvLossList.marked (num i) < 0 := by
  have h := num_le i
  simp only [RcvLossList.marked, maxSeqNo] at *
  omega

theorem unmarked_marked (s : Int) : unmarked (RcvLossList.marked s) = s := by
  simp [unmarked, RcvLossList.marked]

/-- The ranges that have room are a first part of the list. -/
theorem lossArrayFrom_spec {l : RcvLossList} {c q t : Int} (h : l.Layout c ns)
    (hsub : ∀ x ∈ rs, x ∈ ns)
    (hlinks : DSeg l.next l.prior q i (rs.map (node l.size c)) t (-1)) (limit : Int) {fuel : Nat}
    (hfuel : rs.length ≤ fuel) (array : List Int) :
    ∃ ps ps', rs = ps ++ ps' ∧ l.lossArrayFrom limit fuel i array = array ++ ps.flatMap words ∧
      (ps' = [] ∨ limit - 1 ≤ ((array ++ ps.flatMap words).length : Int)) := by
  induction rs generalizing q i fuel array with
  | nil =>
    obtain rfl : i = -1 := hlinks.1
    refine ⟨[], [], rfl, ?_, .inl rfl⟩
    cases fuel <;> simp [RcvLossList.lossArrayFrom]
  | cons r rs ih =>
    obtain ⟨fuel, rfl⟩ := Nat.exists_eq_add_one_of_ne_zero (n := fuel) (by simp at hfuel; omega)
    obtain ⟨rfl, -, hlinks⟩ := hlinks
    have hr := hsub r List.mem_cons_self
    rw [RcvLossList.lossArrayFrom]
    by_cases hroom : (array.length : Int) < limit - 1
    · have hwords : (if l.data2 (node l.size c r) ≠ -1 then
          array ++ [RcvLossList.marked (l.data1 (node l.size c r)), l.data2 (node l.size c r)]
          else array ++ [l.data1 (node l.size c r)]) = array ++ words r := by
        rw [h.cells.first r hr, h.cells.last r hr, words]
        by_cases hsingle : r.lo = r.hi
        · rw [if_neg (not_not.mpr (endOf_eq_neg.mpr hsingle)), if_pos hsingle]
        · have hle := r.le
          rw [if_pos (mt endOf_eq_neg.mp hsingle), if_neg hsingle, endOf_of_lt (by omega)]
      obtain ⟨ps, ps', hcut, harray, hend⟩ := ih (fun x hx => hsub x (List.mem_cons_of_mem r hx))
        hlinks (by simpa using hfuel) (array ++ words r)
      rw [if_pos ⟨hroom, h.fits.node_ne hr⟩, hwords, harray]
      refine ⟨r :: ps, ps', by rw [hcut, List.cons_append], ?_, ?_⟩
      · rw [List.flatMap_cons, List.append_assoc]
      · rwa [List.flatMap_cons, ← List.append_assoc]
    · rw [if_neg fun hif => hroom hif.1]
      exact ⟨[], r :: rs, rfl, by simp, .inr (by simpa using hroom)⟩

theorem getLossArray_spec {l : RcvLossList} {c : Int} (h : l.Layout c ns) (limit : Int) :
    ∃ ps ps', ns = ps ++ ps' ∧ l.getLossArray limit = ps.flatMap words ∧
      (ps' = [] ∨ limit - 1 ≤ ((ps.flatMap words).length : Int)) := by
  unfold RcvLossList.getLossArray
  by_cases hempty : ns = []
  · refine ⟨[], [], hempty, ?_, .inl rfl⟩
    rw [h.empty hempty]
    cases l.rounds <;> simp [RcvLossList.lossArrayFrom]
  · exact lossArrayFrom_spec h (fun x hx => hx) (h.links hempty) limit
      (h.fits.length_le h.apart.rising) []

variable {S : Finset Int}

/-- What the sender makes of the words of one range. -/
theorem decode_words {l : SndLossList} (rest : List Int) (h : l.Shows S) (hsize : l.size < seqNoTH)
    (hspan : r.hi - r.lo < seqNoTH) (hcurr : r.hi ≤ curr)
    (hnear : ∀ i ∈ r.elems, Near i lastAck ∧ Near i curr)
    (hwithin : Within l.size (S ∪ r.elems.filter (lastAck ≤ ·))) :
    ∃ l', decode (num lastAck) (num curr) (words r ++ rest) l =
        decode (num lastAck) (num curr) rest l' ∧
      l'.Shows (S ∪ r.elems.filter (lastAck ≤ ·)) ∧ l'.size = l.size := by
  have hle := r.le
  obtain ⟨hloack, hlocurr⟩ := hnear r.lo r.lo_mem
  obtain ⟨hhiack, hhicurr⟩ := hnear r.hi r.hi_mem
  have hlohi : Near r.lo r.hi := near_of_lt (by omega) (by simp only [seqNoTH]; omega)
  have hnonneg := num_nonneg r.lo
  have hmarked := marked_neg r.lo
  have hall (hack : lastAck ≤ r.lo) : r.elems.filter (lastAck ≤ ·) = r.elems := by
    apply Finset.filter_true_of_mem
    intro i hi
    have hi' := Range.mem_elems.mp hi
    omega
  have hnone (hack : r.hi < lastAck) : r.elems.filter (lastAck ≤ ·) = ∅ := by
    apply Finset.filter_false_of_mem
    intro i hi
    have hi' := Range.mem_elems.mp hi
    omega
  unfold words
  by_cases hsingle : r.lo = r.hi
  · rw [if_pos hsingle, List.singleton_append, decode.eq_def]
    simp only
    rw [if_neg (by omega)]
    by_cases hack : lastAck ≤ r.lo
    · rw [hall hack] at hwithin ⊢
      obtain ⟨-, hsize', hshows⟩ := SndLossList.insert_spec h r hsize hwithin
      rw [← hsingle] at hsize' hshows
      rw [if_pos ((seqcmp_nonneg hloack).mpr hack),
        if_neg (mt (seqcmp_pos hlocurr).mp (by omega))]
      exact ⟨_, rfl, hshows, hsize'⟩
    · rw [hnone (by omega), if_neg (mt (seqcmp_nonneg hloack).mp hack)]
      exact ⟨l, rfl, by rwa [Finset.union_empty], rfl⟩
  · rw [if_neg hsingle, List.cons_append, List.singleton_append, decode, if_pos hmarked]
    simp only [unmarked_marked]
    rw [if_neg (by rw [seqcmp_pos hlohi, seqcmp_pos hhicurr]; omega)]
    by_cases hack : lastAck ≤ r.lo
    · rw [hall hack] at hwithin ⊢
      obtain ⟨-, hsize', hshows⟩ := SndLossList.insert_spec h r hsize hwithin
      rw [if_pos ((seqcmp_nonneg hloack).mpr hack)]
      exact ⟨_, rfl, hshows, hsize'⟩
    · rw [if_neg (mt (seqcmp_nonneg hloack).mp hack)]
      by_cases hack' : lastAck ≤ r.hi
      · have hpart : r.elems.filter (lastAck ≤ ·) = (Range.mk lastAck r.hi hack').elems := by
          ext i
          simp only [Finset.mem_filter, Range.mem_elems]
          omega
        rw [hpart] at hwithin ⊢
        obtain ⟨-, hsize', hshows⟩ := SndLossList.insert_spec h ⟨lastAck, r.hi, hack'⟩ hsize hwithin
        rw [if_pos ((seqcmp_nonneg hhiack).mpr hack')]
        exact ⟨_, rfl, hshows, hsize'⟩
      · rw [hnone (by omega), if_neg (mt (seqcmp_nonneg hhiack).mp hack')]
        exact ⟨l, rfl, by rwa [Finset.union_empty], rfl⟩

theorem decode_flatMap {l : SndLossList} (h : l.Shows S) (hsize : l.size < seqNoTH)
    (hspan : ∀ r ∈ rs, r.hi - r.lo < seqNoTH) (hcurr : ∀ i ∈ elems rs, i ≤ curr)
    (hnear : ∀ i ∈ elems rs, Near i lastAck ∧ Near i curr)
    (hwithin : Within l.size (S ∪ (elems rs).filter (lastAck ≤ ·))) :
    ∃ l', decode (num lastAck) (num curr) (rs.flatMap words) l = some (true, l') ∧
      l'.Shows (S ∪ (elems rs).filter (lastAck ≤ ·)) := by
  induction rs generalizing l S with
  | nil => exact ⟨l, rfl, by simpa [elems] using h⟩
  | cons r rs ih =>
    have hr : ∀ i ∈ r.elems, i ∈ elems (r :: rs) := fun i hi => Finset.mem_union_left _ hi
    have hrs : ∀ i ∈ elems rs, i ∈ elems (r :: rs) := fun i hi => Finset.mem_union_right _ hi
    rw [elems_cons, Finset.filter_union, ← Finset.union_assoc] at hwithin ⊢
    obtain ⟨l', hdecode, hshows, hsize'⟩ := decode_words (rs.flatMap words) h hsize
      (hspan r List.mem_cons_self) (hcurr r.hi (hr r.hi r.hi_mem))
      (fun i hi => hnear i (hr i hi))
      (fun i hi j hj => hwithin i (Finset.mem_union_left _ hi) j (Finset.mem_union_left _ hj))
    rw [← hsize'] at hsize hwithin
    rw [List.flatMap_cons, hdecode]
    exact ih hshows hsize (fun x hx => hspan x (List.mem_cons_of_mem r hx))
      (fun i hi => hcurr i (hrs i hi)) (fun i hi => hnear i (hrs i hi)) hwithin

/-- The sender learns of the losses that the receiver's report has room for, the
first ones, less those that are acknowledged. -/
theorem report_round_trip {rcv : RcvLossList} {snd : SndLossList} {R : Finset Int}
    (hrcv : rcv.Shows R) (hsnd : snd.Shows S) (hsize : snd.size < seqNoTH) {limit : Int}
    (hlimit : 2 ≤ limit) (hcurr : ∀ i ∈ R, i ≤ curr)
    (hnear : ∀ i ∈ R, Near i lastAck ∧ Near i curr)
    (hwithin : Within snd.size (S ∪ R.filter (lastAck ≤ ·))) :
    ∃ T ⊆ R, ∃ snd',
      decode (num lastAck) (num curr) (rcv.getLossArray limit) snd = some (true, snd') ∧
      snd'.Shows (S ∪ T.filter (lastAck ≤ ·)) ∧ (∀ i ∈ T, ∀ j ∈ R, j ≤ i → j ∈ T) ∧
      (R.Nonempty → T.Nonempty) ∧
      (T = R ∨ limit - 1 ≤ ((rcv.getLossArray limit).length : Int)) := by
  obtain ⟨c, ns, hlayout, rfl⟩ := hrcv
  obtain ⟨ps, ps', hcut, harray, hend⟩ := getLossArray_spec hlayout limit
  subst hcut
  have hsub : elems ps ⊆ elems (ps ++ ps') := by
    rw [elems_append]
    exact Finset.subset_union_left
  have hspan : ∀ r ∈ ps, r.hi - r.lo < seqNoTH := by
    intro r hr
    have hr' := List.mem_append_left ps' hr
    have hfits := hlayout.fits.span r hr' r hr'
    have hlt := hlayout.fits.size_lt
    omega
  have hwithin' : Within snd.size (S ∪ (elems ps).filter (lastAck ≤ ·)) := by
    have hmono : S ∪ (elems ps).filter (lastAck ≤ ·) ⊆ S ∪ (elems (ps ++ ps')).filter
        (lastAck ≤ ·) :=
      Finset.union_subset_union_right (Finset.filter_subset_filter _ hsub)
    exact fun i hi j hj => hwithin i (hmono hi) j (hmono hj)
  obtain ⟨snd', hdecode, hshows⟩ := decode_flatMap hsnd hsize hspan (fun i hi => hcurr i (hsub hi))
    (fun i hi => hnear i (hsub hi)) hwithin'
  rw [harray]
  refine ⟨elems ps, hsub, snd', hdecode, hshows, ?_, ?_, ?_⟩
  · intro i hi j hj hji
    obtain ⟨r, hr, -, hhi⟩ := mem_elems.mp hi
    rw [elems_append, Finset.mem_union] at hj
    rcases hj with hj | hj
    · exact hj
    · obtain ⟨r', hr', hlo', -⟩ := mem_elems.mp hj
      have hlt := (List.pairwise_append.mp hlayout.apart).2.2 r hr r' hr'
      omega
  · rintro ⟨i, hi⟩
    rcases hend with rfl | hlong
    · exact ⟨i, by simpa using hi⟩
    · cases ps with
      | nil =>
        rw [List.flatMap_nil, List.length_nil] at hlong
        omega
      | cons r ps => exact ⟨r.lo, mem_elems.mpr ⟨r, List.mem_cons_self, le_refl _, r.le⟩⟩
  · rcases hend with rfl | hlong
    · exact .inl (by rw [List.append_nil])
    · exact .inr hlong

theorem report_round_trip_twenty :
    ∃ snd, decode (num 5) (num 12) ((((RcvLossList.new 20).insert (num 2) (num 2)).insert (num 4)
        (num 6)).getLossArray 10) (SndLossList.new 20) = some (true, snd) ∧
      snd.Shows {5, 6} := by
  have hrcv : ((RcvLossList.new 20).insert (num 2) (num 2)).Shows (∅ ∪ interval 2 2) :=
    ((RcvLossList.shows_new (by decide)).insert ⟨2, 2, by decide⟩ (by decide) (by decide)
      (by decide)).1
  have hrcv' : (((RcvLossList.new 20).insert (num 2) (num 2)).insert (num 4) (num 6)).Shows
      (∅ ∪ interval 2 2 ∪ interval 4 6) :=
    (hrcv.insert ⟨4, 6, by decide⟩ (by decide) (by decide) (by decide)).1
  have hsnd : (SndLossList.new 20).Shows ∅ := SndLossList.shows_new (by decide)
  have hcurr : ∀ i ∈ ∅ ∪ interval 2 2 ∪ interval 4 6, i ≤ 12 := by decide
  have hnear : ∀ i ∈ ∅ ∪ interval 2 2 ∪ interval 4 6, Near i 5 ∧ Near i 12 := by decide
  have hlimit : (2 : Int) ≤ 10 := by decide
  obtain ⟨T, -, snd, hdecode, hshows, -, -, hall | hfull⟩ :=
    report_round_trip hrcv' hsnd (by decide) hlimit hcurr hnear (by decide)
  · have hfive : ∅ ∪ (∅ ∪ interval 2 2 ∪ interval 4 6).filter (5 ≤ ·) = {5, 6} := by decide
    rw [hall, hfive] at hshows
    exact ⟨snd, hdecode, hshows⟩
  · exact absurd hfull (by decide)

theorem gap_round_trip {snd : SndLossList} (hsnd : snd.Shows S) (hsize : snd.size < seqNoTH)
    (hgap : i + 1 < k) (hspan : k - i < seqNoTH) (hcurr : k ≤ curr + 1)
    (hnear : ∀ j ∈ interval (i + 1) (k - 1), Near j lastAck ∧ Near j curr)
    (hwithin : Within snd.size (S ∪ (interval (i + 1) (k - 1)).filter (lastAck ≤ ·))) :
    ∃ snd', decode (num lastAck) (num curr) (gapReport (num i) (num k)) snd = some (true, snd') ∧
      snd'.Shows (S ∪ (interval (i + 1) (k - 1)).filter (lastAck ≤ ·)) := by
  have hle : i + 1 ≤ k - 1 := by omega
  obtain ⟨snd', hdecode, hshows, -⟩ := decode_words (r := ⟨i + 1, k - 1, hle⟩) [] hsnd hsize
    (by simp only; omega) (by simp only; omega) hnear hwithin
  rw [List.append_nil] at hdecode
  rw [gapReport_eq hgap hspan, hdecode]
  exact ⟨snd', rfl, hshows⟩

end LossReport
end NineWire.Udt
