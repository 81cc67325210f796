import NineWire.Udt.SenderSteps

/-! What the receiver keeps while packets come in, in whatever order: its loss list
is what is missing among those up to the last one, and it acknowledges no more than
all in front of the first of them. -/
namespace NineWire.Udt
open NineWire.Ranges NineWire.Ring NineWire.Udt.SeqNo NineWire.Udt.RcvBuffer

/-- The receiver read the packets of `stream` up to index `s`, acknowledged those up
to `a`, and has `got` some of those up to `rc`, the last of them included. -/
structure Receives (c : Terms) (r : Receiver) (stream : List Packet) (s a rc : Int)
    (got : Int → Option Packet) : Prop where
  window : ∃ k, Window r.rcvBuffer k s a got
  size : r.rcvBuffer.size = c.rcvBufSize
  le : a ≤ rc
  packets : ∀ i p, got i = some p → packetAt c.isn stream i = some p
  reached : ∀ i, got i ≠ none → i < rc
  last : a < rc → got (rc - 1) ≠ none
  losses : ∃ L, r.rcvLossList.Shows L ∧ r.rcvLossList.size = c.flightFlagSize ∧
    ∀ i, i ∈ L ↔ a ≤ i ∧ i < rc ∧ got i = none
  lastAck : r.rcvLastAck = num a
  curr : Stands r.rcvCurrSeqNo (rc - 1)

def CameIn (a rc : Int) (got : Int → Option Packet) (j : Int) : Prop :=
  j ≤ rc ∧ ∀ i, a ≤ i → i < j → got i ≠ none

variable {c : Terms} {r : Receiver} {stream : List Packet} {s a rc n i j : Int}
  {got : Int → Option Packet} {p : Packet}

theorem Receives.span (h : Receives c r stream s a rc got) : rc < s + c.rcvBufSize := by
  have hle := h.le
  obtain ⟨k, hwindow⟩ := h.window
  have hmax := hwindow.max
  rw [h.size] at hmax
  by_cases hlt : a < rc
  · have hwithin := hwindow.within _ (h.last hlt)
    rw [h.size] at hwithin
    omega
  · omega

/-- The packets between the last one so far and packet `i` are lost. -/
theorem detectLoss_spec {L : Finset Int} (hshows : r.rcvLossList.Shows L)
    (hsize : r.rcvLossList.size = c.flightFlagSize) (hL : ∀ j ∈ L, a ≤ j ∧ j < rc)
    (hcurr : Stands r.rcvCurrSeqNo (rc - 1)) (hle : a ≤ rc) (hnear : Near i rc)
    (hspan : i - a < c.flightFlagSize) :
    ∃ w r', r.detectLoss (num i) = (w, r') ∧ r'.rcvBuffer = r.rcvBuffer ∧
      r'.rcvLastAck = r.rcvLastAck ∧ r'.rcvCurrSeqNo = r.rcvCurrSeqNo ∧
      r'.rcvLossList.Shows (L ∪ interval rc (i - 1)) ∧
      r'.rcvLossList.size = c.flightFlagSize ∧
      ∀ x, w = some x → ∃ g : Range, x = .nak (LossReport.words g) ∧ g.lo = rc ∧ g.hi = i - 1 := by
  have hinc : incseq r.rcvCurrSeqNo = num rc := by
    rw [hcurr.incseq, sub_add_cancel]
  have hflight := c.flight_lt
  have hiff := seqcmp_pos hnear
  unfold Receiver.detectLoss
  rw [hinc, decseq_num]
  by_cases hlt : rc < i
  · have hg : rc ≤ i - 1 := by omega
    have hwithin : Within r.rcvLossList.size (L ∪ (Range.mk rc (i - 1) hg).elems) := by
      have hall : ∀ j ∈ L ∪ (Range.mk rc (i - 1) hg).elems, a ≤ j ∧ j < i := by
        intro j hj
        rcases Finset.mem_union.mp hj with hj | hj
        · have hj' := hL j hj
          omega
        · have hj' := Range.mem_elems.mp hj
          dsimp only at hj'
          omega
      intro j hj j' hj'
      have h1 := hall j hj
      have h2 := hall j' hj'
      omega
    obtain ⟨hshows', hsize'⟩ := hshows.insert ⟨rc, i - 1, hg⟩
      (by rw [hsize]; simp only [seqNoTH]; omega) (fun j hj => (hL j hj).2) hwithin
    have hgap : LossReport.gapReport r.rcvCurrSeqNo (num i) =
        LossReport.words ⟨rc - 1 + 1, i - 1, by omega⟩ := by
      rw [← LossReport.gapReport_eq (by omega) (by simp only [seqNoTH]; omega),
        LossReport.gapReport, LossReport.gapReport, hinc, incseq_num, sub_add_cancel]
    rw [if_pos (hiff.mpr hlt), hgap]
    refine ⟨_, _, rfl, rfl, rfl, rfl, hshows', hsize'.trans hsize, ?_⟩
    intro x hx
    cases hx
    exact ⟨_, rfl, sub_add_cancel rc 1, rfl⟩
  · have hnone : interval rc (i - 1) = ∅ := by
      ext j
      simp only [mem_interval, Finset.notMem_empty, iff_false]
      omega
    rw [if_neg (mt hiff.mp hlt), hnone, Finset.union_empty]
    exact ⟨none, r, rfl, rfl, rfl, rfl, hshows, hsize, by simp⟩

theorem noteSeqNo_new (hcurr : Stands r.rcvCurrSeqNo (rc - 1)) (hnear : Near i (rc - 1))
    (hlt : rc ≤ i) : r.noteSeqNo (num i) = { r with rcvCurrSeqNo := num i } := by
  rw [Receiver.noteSeqNo, if_pos ((hcurr.seqcmp_pos hnear).mpr (by omega))]

theorem noteSeqNo_lost {L : Finset Int} (hshows : r.rcvLossList.Shows L)
    (hreached : RcvLossList.Reached r.rcvLossList.size L i)
    (hcurr : Stands r.rcvCurrSeqNo (rc - 1)) (hnear : Near i (rc - 1)) (hlt : i < rc) :
    ∃ l, r.noteSeqNo (num i) = { r with rcvLossList := l } ∧ l.Shows (L.erase i) ∧
      l.size = r.rcvLossList.size := by
  obtain ⟨-, hshows', hsize⟩ := hshows.remove hreached
  rw [Receiver.noteSeqNo, if_neg (mt (hcurr.seqcmp_pos hnear).mp (by omega))]
  exact ⟨_, rfl, hshows', hsize⟩

/-- A packet that comes in for the first time. -/
theorem Receives.accept {b : RcvBuffer} {k : Int} (h : Receives c r stream s a rc got)
    (hb : b.size = c.rcvBufSize) (hwindow : Window b k s a (Function.update got i (some p)))
    (hnear : Near i rc) (hnear' : Near i (rc - 1)) (hp : packetAt c.isn stream i = some p)
    (hnone : got i = none) (hle : a ≤ i) (hroom : i < s + c.rcvBufSize - 1) :
    ∃ w r' rc', { r with rcvBuffer := b }.detectLoss (num i) = (w, r') ∧
      Receives c (r'.noteSeqNo (num i)) stream s a rc' (Function.update got i (some p)) ∧
      rc ≤ rc' ∧ rc' ≤ max rc (i + 1) ∧
      ∀ x, w = some x → ∃ g : Range, x = .nak (LossReport.words g) ∧ g.lo = rc ∧ g.hi = i - 1 := by
  have harc := h.le
  have hspan := h.span
  have hrcv := c.rcv_le
  have hwindow_le := c.window_le
  have hsa := hwindow.le
  obtain ⟨L, hshows, hsize, hL⟩ := h.losses
  obtain ⟨w, r', hdetect, hbuffer, hack, hcurr, hshows', hsize', hw⟩ := detectLoss_spec
    (r := { r with rcvBuffer := b }) hshows hsize (fun j hj => ⟨((hL j).mp hj).1, ((hL j).mp hj).2.1⟩)
    h.curr harc hnear (by omega)
  have hupdate : ∀ j, Function.update got i (some p) j = none ↔ j ≠ i ∧ got j = none := by
    intro j
    by_cases hj : j = i
    · simp [hj]
    · simp [hj]
  have hpackets : ∀ j q, Function.update got i (some p) j = some q →
      packetAt c.isn stream j = some q := by
    intro j q hq
    by_cases hj : j = i
    · subst hj
      rw [Function.update_self, Option.some_inj] at hq
      rwa [← hq]
    · rw [Function.update_of_ne hj] at hq
      exact h.packets j q hq
  have hcurr' : Stands r'.rcvCurrSeqNo (rc - 1) := by
    rw [hcurr]
    exact h.curr
  refine ⟨w, r', max rc (i + 1), hdetect, ?_, le_max_left _ _, le_refl _, hw⟩
  by_cases hlt : rc ≤ i
  · rw [noteSeqNo_new hcurr' hnear' hlt, max_eq_right (by omega)]
    refine ⟨⟨k, ?_⟩, ?_, by omega, hpackets, ?_, by simp, ⟨_, hshows', hsize', ?_⟩,
      hack.trans h.lastAck, .inl (by rw [add_sub_cancel_right])⟩
    · exact hbuffer ▸ hwindow
    · exact hbuffer ▸ hb
    · intro j hj
      by_cases hji : j = i
      · omega
      · rw [Function.update_of_ne hji] at hj
        have hreached := h.reached j hj
        omega
    · intro j
      have hreached := h.reached j
      rw [Finset.mem_union, hL, mem_interval, hupdate]
      grind
  · have hempty : L ∪ interval rc (i - 1) = L := by
      apply Finset.union_eq_left.mpr
      intro j hj
      rw [mem_interval] at hj
      omega
    rw [hempty] at hshows'
    have hreached : RcvLossList.Reached r'.rcvLossList.size L i := by
      intro j hj
      have hj' := (hL j).mp hj
      have hflight := c.flight_lt
      rw [hsize']
      refine ⟨?_, by omega⟩
      apply near_of_lt <;> simp only [seqNoTH] <;> omega
    obtain ⟨l, hnote, hshows'', hsize''⟩ := noteSeqNo_lost hshows' hreached hcurr' hnear' (by omega)
    rw [hnote, max_eq_left (by omega)]
    refine ⟨⟨k, ?_⟩, ?_, h.le, hpackets, ?_, ?_, ⟨_, hshows'', hsize''.trans hsize', ?_⟩,
      hack.trans h.lastAck, hcurr'⟩
    · exact hbuffer ▸ hwindow
    · exact hbuffer ▸ hb
    · intro j hj
      by_cases hji : j = i
      · omega
      · rw [Function.update_of_ne hji] at hj
        exact h.reached j hj
    · intro halt
      rw [Ne, hupdate]
      exact fun hnot => h.last halt hnot.2
    · intro j
      rw [Finset.mem_erase, hL, hupdate]
      grind

theorem Receives.withBuffer {b : RcvBuffer} {k : Int} (h : Receives c r stream s a rc got)
    (hwindow : Window b k s a got) (hb : b.size = c.rcvBufSize) :
    Receives c { r with rcvBuffer := b } stream s a rc got :=
  { h with window := ⟨k, hwindow⟩, size := hb }

theorem Receives.processData (h : Receives c r stream s a rc got) (hacked : n - c.window ≤ a)
    (hrc : rc ≤ n) (hi : Recent c n i) (hlt : i < n) (hp : packetAt c.isn stream i = some p) :
    ∃ rc' got', Receives c (r.processData (num i) p).2 stream s a rc' got' ∧ rc ≤ rc' ∧ rc' ≤ n ∧
      (∀ j, got j ≠ none → got' j ≠ none) ∧
      ∀ w, (r.processData (num i) p).1 = some w → ∃ g : Range, w = .nak (LossReport.words g) ∧
        rc ≤ g.lo ∧ g.hi < n := by
  have hle := h.le
  have hpos := c.window_pos
  obtain ⟨k, hwindow⟩ := h.window
  have hoff : seqoff r.rcvLastAck (num i) = i - a := by
    rw [h.lastAck, seqoff_num (hi.near (by omega) (by omega)).symm]
  unfold Receiver.processData
  rw [hoff]
  dsimp only
  by_cases hout : i - a < 0 ∨ r.rcvBuffer.getAvailBufSize ≤ i - a
  · rw [if_pos hout]
    exact ⟨rc, got, h, le_refl rc, hrc, fun _ hj => hj, by simp⟩
  · rw [if_neg hout]
    have havail := hwindow.avail
    rw [h.size] at havail
    have hoffset : 0 ≤ i - a := by omega
    obtain ⟨hadded, hsize, hwindow'⟩ := hwindow.addData p hoffset (by omega)
    rw [add_sub_cancel] at hadded hwindow'
    generalize r.rcvBuffer.addData p (i - a) = res at *
    obtain ⟨added, b⟩ := res
    have hb := hsize.trans h.size
    cases hgot : got i with
    | some q =>
      rw [hgot, Option.getD_some, ← hgot, Function.update_eq_self] at hwindow'
      rw [hgot, Option.isNone_some] at hadded
      dsimp only at hadded ⊢
      rw [hadded]
      exact ⟨rc, got, h.withBuffer hwindow' hb, le_refl rc, hrc, fun _ hj => hj, by simp⟩
    | none =>
      rw [hgot, Option.getD_none] at hwindow'
      rw [hgot, Option.isNone_none] at hadded
      obtain ⟨w, r', rc', hdetect, hreceives, hrc', hle', hw⟩ := h.accept hb hwindow'
        (hi.near (by omega) (by omega)) (hi.near (by omega) (by omega)) hp hgot (by omega)
        (by omega)
      dsimp only at hadded ⊢
      rw [hadded, hdetect]
      refine ⟨rc', _, hreceives, hrc', by omega, ?_, ?_⟩
      · intro j hj
        by_cases hji : j = i
        · simp [hji]
        · rwa [Function.update_of_ne hji]
      · intro x hx
        obtain ⟨g, hg, hlo, hhi⟩ := hw x hx
        exact ⟨g, hg, by omega, by omega⟩

theorem Receives.nextAck (h : Receives c r stream s a rc got) :
    ∃ j, r.nextAck = num j ∧ a ≤ j ∧ CameIn a rc got j := by
  have hle := h.le
  obtain ⟨L, hshows, -, hL⟩ := h.losses
  unfold Receiver.nextAck RcvLossList.getLossLength
  rw [hshows.length_eq, hshows.getFirstLostSeq]
  by_cases hne : L.Nonempty
  · have hcard : ((L.card : Nat) : Int) ≠ 0 := by
      have hpos := Finset.card_pos.mpr hne
      omega
    have hmin := (hL _).mp (L.min'_mem hne)
    rw [if_neg hcard, dif_pos hne]
    refine ⟨_, rfl, hmin.1, by omega, ?_⟩
    intro i hi hlt hnone
    have hmem : i ∈ L := (hL i).mpr ⟨hi, by omega, hnone⟩
    have hleast := L.min'_le i hmem
    omega
  · obtain rfl := Finset.not_nonempty_iff_eq_empty.mp hne
    rw [if_pos (by simp), h.curr.incseq, sub_add_cancel]
    refine ⟨rc, rfl, hle, le_refl rc, ?_⟩
    intro i hi hlt hnone
    exact Finset.notMem_empty i ((hL i).mpr ⟨hi, hlt, hnone⟩)

theorem Receives.sendLightAck (h : Receives c r stream s a rc got) {w : Wire}
    (hw : r.sendLightAck = some w) : ∃ j, w = .lightAck (num j) ∧ a ≤ j ∧ CameIn a rc got j := by
  obtain ⟨j, hj, hcame⟩ := h.nextAck
  unfold Receiver.sendLightAck at hw
  split_ifs at hw
  cases hw
  exact ⟨j, by rw [hj], hcame⟩

theorem Receives.tellAck (h : Receives c r stream s a rc got) (now : Nat) :
    Receives c (r.tellAck now).2 stream s a rc got ∧
      ∀ w, (r.tellAck now).1 = some w → ∃ ackSeqNo avail, w = .ack ackSeqNo (num a) avail ∧
        avail ≤ c.window := by
  obtain ⟨k, hwindow⟩ := h.window
  have havail := hwindow.avail
  have hle := hwindow.le
  have hmin := c.rcv_min
  have hrcv := c.rcv_le
  rw [h.size] at havail
  unfold Receiver.tellAck
  split_ifs with hnews hfew
  · refine ⟨{ h with }, ?_⟩
    intro w hw
    cases hw
    exact ⟨_, _, by rw [h.lastAck], by omega⟩
  · refine ⟨{ h with }, ?_⟩
    intro w hw
    cases hw
    exact ⟨_, _, by rw [h.lastAck], by omega⟩
  · exact ⟨h, by simp⟩

/-- All that came in without a gap is acknowledged. -/
theorem Receives.ackData (h : Receives c r stream s a rc got) (hle : a ≤ j)
    (hcame : CameIn a rc got j) :
    Receives c { r with rcvLastAck := num j, rcvBuffer := r.rcvBuffer.ackData (j - a) }
      stream s j rc got := by
  obtain ⟨k, hwindow⟩ := h.window
  obtain ⟨L, hshows, hsize, hL⟩ := h.losses
  have hlen : 0 ≤ j - a := by omega
  have hacked := hwindow.ackData hlen fun i hi hlt => hcame.2 i hi (by omega)
  rw [add_sub_cancel] at hacked
  refine { h with
    window := ⟨k, hacked⟩
    size := h.size
    le := hcame.1
    last := fun hlt => h.last (by omega)
    losses := ⟨L, hshows, hsize, ?_⟩
    lastAck := rfl }
  intro i
  rw [hL]
  constructor
  · rintro ⟨hai, hrc, hnone⟩
    refine ⟨?_, hrc, hnone⟩
    by_contra hlt
    exact hcame.2 i hai (by omega) hnone
  · rintro ⟨hji, hrc, hnone⟩
    exact ⟨by omega, hrc, hnone⟩

theorem Receives.sendAck (h : Receives c r stream s a rc got) (hspan : rc - a ≤ c.window)
    (recent : Bool) (now : Nat) :
    ∃ a', a ≤ a' ∧ Receives c (r.sendAck recent now).2 stream s a' rc got ∧
      ∀ w, (r.sendAck recent now).1 = some w → ∃ ackSeqNo avail, w = .ack ackSeqNo (num a') avail ∧
        avail ≤ c.window := by
  obtain ⟨j, hj, haj, hcame⟩ := h.nextAck
  have hrcv := c.window_le
  have hflight := c.flight_lt
  have hjrc := hcame.1
  have hnear : Near a j := by
    apply near_of_lt <;> simp only [seqNoTH] <;> omega
  unfold Receiver.sendAck
  dsimp only
  rw [hj, h.lastAck, seqoff_num hnear]
  split_ifs with hknown hmore hsame hrecent
  · exact ⟨a, le_refl a, h, by simp⟩
  · exact ⟨j, haj, (h.ackData haj hcame).tellAck now⟩
  · exact ⟨a, le_refl a, h, by simp⟩
  · exact ⟨a, le_refl a, h.tellAck now⟩
  · exact ⟨a, le_refl a, h, by simp⟩

theorem Receives.processAck2 (h : Receives c r stream s a rc got) (ackSeqNo : Int) (now : Nat) :
    Receives c (r.processAck2 ackSeqNo now) stream s a rc got := by
  unfold Receiver.processAck2
  split
  · exact { h with }
  · exact { h with }

variable {ps : List Packet} {k : Nat}

theorem Receives.got_next (h : Receives c r stream s a rc got) (hs : s = c.isn + k)
    (hps : ps <+: stream.drop k) {j : Nat} (hj : j < ps.length) {q : Packet}
    (hq : got (s + j) = some q) : ps[j]? = some q := by
  have hat := h.packets _ q hq
  have hadd : s + (j : Int) = c.isn + (k + j : Nat) := by omega
  rw [hadd, packetAt_add, ← List.getElem?_drop] at hat
  obtain ⟨rest, hrest⟩ := hps
  rwa [← hrest, List.getElem?_append_left hj] at hat

theorem Receives.next (h : Receives c r stream s a rc got) (hs : s = c.isn + k)
    (hps : ps <+: stream.drop k) (hmsg : IsMsg ps) (hle : s + ps.length ≤ a) :
    Next s a got ps where
  msg := hmsg
  le := hle
  got j hj := by
    obtain ⟨_, hwindow⟩ := h.window
    obtain ⟨q, hq⟩ := Option.ne_none_iff_exists'.mp (hwindow.acked (s + j) (by omega) (by omega))
    rw [hq, h.got_next hs hps hj hq]

theorem Receives.recvmsg_next (h : Receives c r stream s a rc got) (hs : s = c.isn + k)
    (hps : ps <+: stream.drop k) (hmsg : IsMsg ps) (hle : s + ps.length ≤ a) {len : Nat}
    (hlen : 0 < len) (hbytes : bytes ps ≠ []) :
    0 < (r.recvmsg len).1 ∧ (r.recvmsg len).2.1 = (bytes ps).take len ∧
      Receives c (r.recvmsg len).2.2 stream (s + ps.length) a rc (since (s + ps.length) got) := by
  obtain ⟨_, hwindow⟩ := h.window
  obtain ⟨hdata, hsize, hwindow'⟩ := hwindow.readMsg_next (h.next hs hps hmsg hle) len
  have hpos : 0 < ((bytes ps).take len).length := by
    have hbytes' := List.length_pos_iff.mpr hbytes
    rw [List.length_take]
    omega
  have hsince : ∀ i, a ≤ i → since (s + ps.length) got i = got i := fun i hi =>
    since_of_le (by omega)
  have hsub : ∀ i q, since (s + ps.length) got i = some q → got i = some q := by
    intro i q hq
    unfold since at hq
    split_ifs at hq
    exact hq
  obtain ⟨L, hshows, hlsize, hL⟩ := h.losses
  unfold Receiver.recvmsg
  rw [if_neg (by omega)]
  refine ⟨?_, hdata, ?_⟩
  · dsimp only
    rw [hdata, if_neg (by omega)]
    omega
  · refine { h with
      window := ⟨_, hwindow'⟩
      size := hsize.trans h.size
      packets := fun i q hq => h.packets i q (hsub i q hq)
      reached := ?_
      last := ?_
      losses := ⟨L, hshows, hlsize, ?_⟩ }
    · intro i hi
      obtain ⟨q, hq⟩ := Option.ne_none_iff_exists'.mp hi
      apply h.reached
      rw [hsub i q hq]
      simp
    · intro hlt
      rw [hsince _ (by omega)]
      exact h.last hlt
    · intro i
      rw [hL]
      constructor
      · rintro ⟨hai, hrc, hnone⟩
        exact ⟨hai, hrc, by rw [hsince i hai]; exact hnone⟩
      · rintro ⟨hai, hrc, hnone⟩
        exact ⟨hai, hrc, by rw [hsince i hai] at hnone; exact hnone⟩

theorem Receives.recvmsg_none (h : Receives c r stream s a rc got) (ps : List Packet)
    (hs : s = c.isn + k)
    (hrel : ∀ p ∈ stream, Reliable p)
    (hnot : s = a ∨ ps <+: stream.drop k ∧ IsMsg ps ∧ a < s + ps.length) (len : Nat) :
    ¬ 0 < (r.recvmsg len).1 ∧ (r.recvmsg len).2.2 = r := by
  obtain ⟨_, hwindow⟩ := h.window
  -- a packet in front of `a` is one of the message, and not its last one
  have hpart : ∀ i q, i < a → got i = some q → ∃ j : Nat, i = s + j ∧ j + 1 < ps.length ∧
      getMsgBoundary q.msgNo = 2*(decide (j = 0)).toNat := by
    intro i q hi hq
    have hsi := (hwindow.within i (by rw [hq]; simp)).1
    rcases hnot with rfl | ⟨hps, hmsg, hlt⟩
    · omega
    · obtain ⟨j, rfl⟩ : ∃ j : Nat, i = s + j := ⟨(i - s).toNat, by omega⟩
      have hj : j < ps.length := by omega
      have hget := h.got_next hs hps hj hq
      rw [List.getElem?_eq_getElem hj, Option.some_inj] at hget
      have hboundary := hmsg.2 j hj
      rw [hget, decide_eq_false (by omega : ¬ j + 1 = ps.length)] at hboundary
      exact ⟨j, rfl, by omega, hboundary⟩
  have hread : r.rcvBuffer.readMsg len = ([], r.rcvBuffer) := by
    apply hwindow.readMsg_none
    · intro hlt
      obtain ⟨q, hq⟩ := Option.ne_none_iff_exists'.mp (hwindow.acked s (le_refl s) hlt)
      obtain ⟨j, hj, -, hboundary⟩ := hpart s q hlt hq
      obtain rfl : j = 0 := by omega
      exact ⟨q, hq, by simp [hboundary]⟩
    · exact fun i q hq => (hrel q (packetAt_mem (h.packets i q hq))).order
    · intro i q hi hq
      obtain ⟨j, -, -, hboundary⟩ := hpart i q hi hq
      rw [hboundary]
      cases decide (j = 0) <;> decide
  unfold Receiver.recvmsg
  split_ifs with hzero
  · exact ⟨Int.lt_irrefl 0, rfl⟩
  · rw [hread]
    exact ⟨by simp, rfl⟩

end NineWire.Udt
