import NineWire.Udt.Link
import NineWire.Udt.Stream

/-! What the sender keeps while packets are lost and acknowledged: its buffer
holds the packets that are not, and its loss list some of those that it sent. -/
namespace NineWire.Udt
open NineWire.Ranges NineWire.Ring NineWire.Udt.SeqNo NineWire.Udt.RcvBuffer

/-- The sender sent the packets of `stream` up to index `n`. It knows that those
below `la` came in, has none below `da` in its buffer any more, and takes its
flow window to begin at `f`. -/
structure Sends (c : Terms) (x : Sender) (stream : List Packet) (f da la n : Int) : Prop where
  le : c.isn ≤ f ∧ f ≤ da ∧ da ≤ la ∧ la ≤ n ∧ n ≤ c.isn + stream.length
  window : x.flowWindowSize + (la - f) ≤ c.window ∧ n - f ≤ c.window
  lastAck : x.sndLastAck = num la
  lastDataAck : x.sndLastDataAck = num da
  curr : Stands x.sndCurrSeqNo (n - 1)
  sizes : x.payloadSize = c.payloadSize ∧ x.sndBuffer.mss = c.payloadSize
  msgNo : x.sndBuffer.nextMsgNo < maxMsgNo
  buffer : ∃ ps qs, x.sndBuffer.Holds ps qs ∧ da + ps.length = n ∧
    (ps ++ qs).map packetOf = stream.drop (da - c.isn).toNat ∧ ∀ q ∈ ps ++ qs, q.ttl = -1
  losses : ∃ S, x.sndLossList.Shows S ∧ x.sndLossList.size = c.window*2 ∧
    ∀ i ∈ S, da ≤ i ∧ i < n
  sound : x.broken = false

variable {c : Terms} {x : Sender} {stream : List Packet} {f da la n j : Int}

def Recent (c : Terms) (n j : Int) : Prop := n - c.window - Link.lifetime ≤ j ∧ j ≤ n

theorem Recent.near (h : Recent c n j) {i : Int} (hi : n - c.window - 1 ≤ i) (hi' : i ≤ n) :
    Near j i := by
  have hle := c.window_le
  have hlt := c.flight_lt
  have hmin := c.window_pos
  simp only [Recent, Link.lifetime] at h
  apply near_of_lt <;> simp only [seqNoTH] <;> omega

theorem followingMsgNo_lt {k : Nat} (h : k < maxMsgNo) :
    SndBuffer.followingMsgNo k < maxMsgNo := by
  unfold SndBuffer.followingMsgNo
  split_ifs
  · decide
  · omega

/-- `sendmsg` takes a message whole or not at all. -/
theorem Sends.sendmsg (h : Sends c x stream f da la n) (data : List UInt8) (now : Nat) :
    (¬ 0 < (x.sendmsg data (-1) true now).1 ∧ (x.sendmsg data (-1) true now).2 = x) ∨
    ∃ ps, IsMsg ps ∧ (∀ p ∈ ps, Reliable p) ∧ bytes ps = data ∧
      0 < (x.sendmsg data (-1) true now).1 ∧
      Sends c (x.sendmsg data (-1) true now).2 (stream ++ ps) f da la n := by
  unfold Sender.sendmsg
  split_ifs with hbroken hempty hlong hfull
  · exact .inl ⟨by simp, rfl⟩
  · exact .inl ⟨by simp, rfl⟩
  · exact .inl ⟨by simp, rfl⟩
  · exact .inl ⟨by simp, rfl⟩
  · have hdata : data ≠ [] := by simpa using hempty
    obtain ⟨ps, qs, hholds, hps, hstream, httl⟩ := h.buffer
    obtain ⟨hadd, hmss, hnext⟩ := hholds.addBuffer data (-1) true now
    have hpos := c.payload_pos
    rw [← h.sizes.2] at hpos
    have hle := h.le
    refine .inr ⟨messagePackets x.sndBuffer.mss x.sndBuffer.nextMsgNo data now,
      isMsg_pack hpos (Nat.le_of_lt h.msgNo) hdata,
      reliable_pack hpos (Nat.le_of_lt h.msgNo), bytes_pack hpos, by
        simp only
        omega, ?_⟩
    refine ⟨?_, h.window, h.lastAck, h.lastDataAck, h.curr, ⟨h.sizes.1, hmss.trans h.sizes.2⟩, ?_,
      ⟨ps, _, hadd, hps, ?_, ?_⟩, h.losses, h.sound⟩
    · rw [List.length_append]
      omega
    · rw [hnext]
      exact followingMsgNo_lt h.msgNo
    · rw [← List.append_assoc, List.map_append, hstream, List.drop_append_of_le_length (by omega)]
    · intro q hq
      rw [← List.append_assoc, List.mem_append] at hq
      rcases hq with hq | hq
      · exact httl q hq
      · obtain ⟨i, -, rfl⟩ := List.mem_map.mp hq
        rfl

theorem Sends.withLosses {l : SndLossList} {S : Finset Int} (h : Sends c x stream f da la n)
    (hshows : l.Shows S) (hsize : l.size = c.window*2) (hlost : ∀ i ∈ S, da ≤ i ∧ i < n) :
    Sends c { x with sndLossList := l } stream f da la n :=
  { h with losses := ⟨S, hshows, hsize, hlost⟩ }

theorem packetAt_of_buffer {bs : List Block} (hle : c.isn ≤ da)
    (hstream : bs.map packetOf = stream.drop (da - c.isn).toNat) (k : Nat) :
    packetAt c.isn stream (da + k) = bs[k]?.map packetOf := by
  rw [← List.getElem?_map, hstream, List.getElem?_drop, packetAt, if_pos (by omega)]
  congr 1
  omega

theorem Sends.next {ps qs : List Block} {q : Block} (h : Sends c x stream f da la n)
    (hholds : x.sndBuffer.Holds ps (q :: qs)) (hps : da + ps.length = n)
    (hstream : (ps ++ q :: qs).map packetOf = stream.drop (da - c.isn).toNat)
    (httl : ∀ b ∈ ps ++ q :: qs, b.ttl = -1) (hroom : n - la + 1 ≤ x.flowWindowSize) :
    Sends c { x with sndBuffer := x.sndBuffer.readData.2, sndCurrSeqNo := incseq x.sndCurrSeqNo }
      stream f da la (n + 1) := by
  have hle := h.le
  have hwindow := h.window
  have hsizes := h.sizes
  have hmsgNo := h.msgNo
  obtain ⟨S, hshows, hsize, hlost⟩ := h.losses
  obtain ⟨hmss, hnext⟩ := SndBuffer.readData_fields x.sndBuffer
  have hcons : ps ++ q :: qs = ps ++ [q] ++ qs := by simp
  have hlength := congrArg List.length hstream
  simp only [List.length_map, List.length_append, List.length_cons, List.length_drop] at hlength
  rw [hcons] at hstream httl
  refine { h with
    le := by omega
    window := by dsimp only; omega
    curr := .inl (by rw [add_sub_cancel_right, h.curr.incseq, sub_add_cancel])
    sizes := by dsimp only; rwa [hmss]
    msgNo := by dsimp only; rwa [hnext]
    buffer := ⟨ps ++ [q], qs, hholds.readData.2, ?_, hstream, httl⟩
    losses := ⟨S, hshows, hsize, ?_⟩ }
  · rw [List.length_append, List.length_singleton]
    omega
  · intro i hi
    have hlt := hlost i hi
    omega

/-- What `packData` sends: a packet that is lost, a new one, or nothing. -/
theorem Sends.packData (h : Sends c x stream f da la n) (hrel : ∀ p ∈ stream, Reliable p)
    (congestionWindow : Int) (now : Nat) :
    (∃ i p, (x.packData congestionWindow now).1 = some (.data (num i) p) ∧
      packetAt c.isn stream i = some p ∧ da ≤ i ∧ i < n ∧
      Sends c (x.packData congestionWindow now).2 stream f da la n ∧
      (x.packData congestionWindow now).2.sndCurrSeqNo = x.sndCurrSeqNo) ∨
    (∃ p, (x.packData congestionWindow now).1 = some (.data (num n) p) ∧
      packetAt c.isn stream n = some p ∧
      Sends c (x.packData congestionWindow now).2 stream f da la (n + 1) ∧
      (x.packData congestionWindow now).2.sndCurrSeqNo ≠ x.sndCurrSeqNo) ∨
    ((x.packData congestionWindow now).1 = none ∧
      Sends c (x.packData congestionWindow now).2 stream f da la n ∧
      (x.packData congestionWindow now).2.sndCurrSeqNo = x.sndCurrSeqNo) := by
  have hle := h.le
  have hwindow := h.window
  obtain ⟨ps, qs, hholds, hps, hstream, httl⟩ := h.buffer
  obtain ⟨S, hshows, hsize, hlost⟩ := h.losses
  have hat := packetAt_of_buffer (by omega) hstream
  have hdata : ∀ q ∈ ps ++ qs, q.data.length ≠ 0 := by
    intro q hq
    have hmem : packetOf q ∈ stream := by
      apply List.mem_of_mem_drop (i := (da - c.isn).toNat)
      rw [← hstream]
      exact List.mem_map_of_mem hq
    simpa [packetOf] using (hrel _ hmem).data
  unfold Sender.packData
  by_cases hne : S.Nonempty
  · obtain ⟨hseq, hshows', hsize'⟩ := SndLossList.getLostSeq_spec hshows hne
    obtain ⟨hda, hlt⟩ := hlost _ (S.min'_mem hne)
    generalize S.min' hne = i at *
    obtain ⟨k, rfl⟩ : ∃ k : Nat, i = da + k := ⟨(i - da).toNat, by omega⟩
    have hk : k < (ps ++ qs).length := by
      rw [List.length_append]
      omega
    obtain ⟨q, hq⟩ : ∃ q, (ps ++ qs)[k]? = some q := ⟨_, List.getElem?_eq_getElem hk⟩
    have hmem := List.mem_of_getElem? hq
    have hnear : Near da (da + k) := by
      have hrcv := c.window_le
      have hflight := c.flight_lt
      apply near_of_lt <;> simp only [seqNoTH] <;> omega
    have hoff : seqoff x.sndLastDataAck (num (da + k)) = k := by
      rw [h.lastDataAck, seqoff_num hnear]
      omega
    have hread : x.sndBuffer.readDataAt k now = (.found q, x.sndBuffer) := by
      apply hholds.readDataAt hq
      rw [httl q hmem]
      omega
    have hnonneg := num_nonneg (da + k)
    refine .inl ⟨da + k, packetOf q, ?_⟩
    simp only [hseq, hnonneg, if_true, hoff, Int.natCast_nonneg, Int.not_lt.mpr, if_false,
      Int.toNat_natCast, hread, hdata q hmem]
    refine ⟨rfl, by rw [hat, hq]; rfl, hda, hlt, ?_, trivial⟩
    exact h.withLosses hshows' (hsize'.trans hsize) fun j hj =>
      hlost j (Finset.mem_of_mem_erase hj)
  · obtain rfl := Finset.not_nonempty_iff_eq_empty.mp hne
    have hlost' : x.sndLossList.getLostSeq = (-1, x.sndLossList) :=
      SndLossList.getLostSeq_empty hshows
    have hinc : incseq x.sndCurrSeqNo = num n := by
      rw [h.curr.incseq, sub_add_cancel]
    have hlen : seqlen x.sndLastAck (incseq x.sndCurrSeqNo) = n - la + 1 := by
      have hrcv := c.window_le
      have hflight := c.flight_lt
      rw [h.lastAck, hinc]
      apply seqlen_num hle.2.2.2.1
      simp only [seqNoTH]
      omega
    have hneg : ¬ (0 : Int) ≤ -1 := by decide
    refine .inr ?_
    simp only [hlost', hneg, if_false, hlen]
    by_cases hfull : n - la + 1 ≤
        if x.flowWindowSize < congestionWindow then x.flowWindowSize else congestionWindow
    · rw [if_pos hfull]
      cases qs with
      | nil =>
        rw [hholds.readData_nil]
        exact .inr ⟨rfl, h, rfl⟩
      | cons q qs =>
        have hread : x.sndBuffer.readData = (some q, x.sndBuffer.readData.2) :=
          Prod.ext hholds.readData.1 rfl
        have hq := hdata q (by simp)
        rw [hread]
        simp only [hq, ne_eq, not_false_eq_true, if_true]
        refine .inl ⟨packetOf q, by rw [hinc]; rfl, ?_, ?_, ?_⟩
        · rw [← hps, hat]
          simp
        · apply h.next hholds hps hstream httl
          split_ifs at hfull <;> omega
        · have hne := h.curr.num_ne
          rw [sub_add_cancel] at hne
          rwa [hinc]
    · rw [if_neg hfull]
      exact .inr ⟨rfl, h, rfl⟩

theorem Sends.near (h : Sends c x stream f da la n) (hj : Recent c n j) :
    Near j la ∧ Near j da ∧ Near j n ∧ Near j (n - 1) := by
  have hle := h.le
  have hwindow := h.window
  have hmin := c.window_pos
  refine ⟨hj.near ?_ ?_, hj.near ?_ ?_, hj.near ?_ ?_, hj.near ?_ ?_⟩ <;> omega

theorem Sends.advance (h : Sends c x stream f da la n) (hj : Recent c n j) (hle : la ≤ j) :
    Sends c { x with flowWindowSize := x.flowWindowSize - (j - la), sndLastAck := num j }
      stream f da j n := by
  have hle := h.le
  have hwindow := h.window
  have hjn := hj.2
  exact { h with
    le := by omega
    window := by dsimp only; omega
    lastAck := rfl }

theorem Sends.processLightAck (h : Sends c x stream f da la n) (hj : Recent c n j) :
    Sends c (x.processLightAck (num j)) stream f da (max j la) n := by
  obtain ⟨hla, -⟩ := h.near hj
  unfold Sender.processLightAck
  rw [h.lastAck, seqoff_num hla.symm]
  have hiff := seqcmp_nonneg hla
  split_ifs with hif
  · rw [max_eq_left (hiff.mp hif)]
    exact h.advance hj (hiff.mp hif)
  · rw [max_eq_right (by omega)]
    exact h

theorem acknowledge_eq (ack : Int) : x.acknowledge ack =
    if seqoff x.sndLastDataAck ack ≤ 0 then x
    else { x with
      sndBuffer := x.sndBuffer.ackData (seqoff x.sndLastDataAck ack).toNat
      sndLastDataAck := ack
      sndLossList := x.sndLossList.remove (decseq ack) } := by
  rw [Sender.acknowledge]

theorem acknowledge_window (ack : Int) :
    (x.acknowledge ack).flowWindowSize = x.flowWindowSize := by
  rw [acknowledge_eq]
  split_ifs
  · rfl
  · rfl

/-- The flow window has no part in this: `w` may stand in its place. -/
theorem Sends.acknowledge {w : Int} (h : Sends c { x with flowWindowSize := w } stream f da la n)
    (hj : Recent c n j) (hjla : j ≤ la) :
    Sends c { x.acknowledge (num j) with flowWindowSize := w } stream f (max j da) la n := by
  obtain ⟨-, hda, -⟩ := h.near hj
  have hle := h.le
  have hlast : x.sndLastDataAck = num da := h.lastDataAck
  rw [acknowledge_eq, hlast, seqoff_num hda.symm, decseq_num]
  split_ifs with hlt
  · rw [max_eq_right (by omega)]
    exact h
  · rw [max_eq_left (by omega)]
    obtain ⟨ps, qs, hholds, hps, hstream, httl⟩ := h.buffer
    obtain ⟨S, hshows, hsize, hlost⟩ := h.losses
    have hwindow := h.window
    have hsizes := h.sizes
    have hmsgNo := h.msgNo
    obtain ⟨k, hk⟩ : ∃ k : Nat, j - da = k := ⟨(j - da).toNat, by omega⟩
    have hdrop : k ≤ ps.length := by omega
    have hcut : (ps ++ qs).drop k = ps.drop k ++ qs := List.drop_append_of_le_length hdrop
    have hnear : ∀ i ∈ S, Near i (j - 1) := by
      have hrcv := c.window_le
      have hflight := c.flight_lt
      intro i hi
      have hi' := hlost i hi
      apply near_of_lt <;> simp only [seqNoTH] <;> omega
    obtain ⟨hshows', hsize'⟩ := SndLossList.remove_spec hshows hnear
    refine { h with
      le := by omega
      lastDataAck := rfl
      sizes := hsizes
      msgNo := hmsgNo
      buffer := ⟨ps.drop k, qs, ?_, ?_, ?_, ?_⟩
      losses := ⟨_, hshows', hsize'.trans hsize, ?_⟩ }
    · rw [hk]
      exact hholds.ackData hdrop
    · rw [List.length_drop]
      omega
    · rw [← hcut, List.map_drop, hstream, List.drop_drop]
      congr 1
      omega
    · rw [← hcut]
      exact fun q hq => httl q (List.mem_of_mem_drop hq)
    · intro i hi
      obtain ⟨hmem, hlt⟩ := Finset.mem_filter.mp hi
      have hi' := hlost i hmem
      omega

theorem Sends.withWindow {w f' : Int} (h : Sends c { x with flowWindowSize := w } stream f da la n)
    (hf : f ≤ f') (hf' : f' ≤ da) (hwindow : x.flowWindowSize + (la - f') ≤ c.window) :
    Sends c x stream f' da la n where
  le := by
    have hle := h.le
    omega
  window := by
    have hold := h.window
    omega
  lastAck := h.lastAck
  lastDataAck := h.lastDataAck
  curr := h.curr
  sizes := h.sizes
  msgNo := h.msgNo
  buffer := h.buffer
  losses := h.losses
  sound := h.sound

theorem Sends.processAck (h : Sends c x stream f da la n) (hj : Recent c n j) {avail : Int}
    (havail : avail ≤ c.window) :
    ∃ f', Sends c (x.processAck (num j) avail) stream f' (max j da) (max j la) n := by
  obtain ⟨hla, -, hn, -⟩ := h.near hj
  have hle := h.le
  have hinc : incseq x.sndCurrSeqNo = num n := by
    rw [h.curr.incseq, sub_add_cancel]
  have hcurr : ¬ 0 < seqcmp (num j) (num n) := by
    rw [seqcmp_pos hn]
    exact Int.not_lt.mpr hj.2
  have hiff := seqcmp_nonneg hla
  unfold Sender.processAck
  rw [hinc, if_neg hcurr, h.lastAck]
  split_ifs with hif
  · have hjla := hiff.mp hif
    have hadvance := h.advance hj hjla
    have hdone := Sends.acknowledge
      (x := { x with flowWindowSize := avail, sndLastAck := num j }) hadvance hj (le_refl j)
    have hmax : max j da = j := max_eq_left (by omega)
    rw [hmax] at hdone ⊢
    rw [max_eq_left hjla]
    refine ⟨j, hdone.withWindow (by omega) (le_refl j) ?_⟩
    rw [acknowledge_window]
    dsimp only
    omega
  · have hlt : j < la := Int.not_le.mp (mt hiff.mpr hif)
    have hdone := Sends.acknowledge (x := x) h hj (Int.le_of_lt hlt)
    rw [max_eq_right (Int.le_of_lt hlt)]
    refine ⟨f, hdone.withWindow (le_refl f) (by omega) ?_⟩
    rw [acknowledge_window]
    exact h.window.1

theorem Sends.within (h : Sends c x stream f da la n) {l : SndLossList} {S : Finset Int}
    (hsize : l.size = c.window*2) (hlost : ∀ i ∈ S, da ≤ i ∧ i < n) :
    l.size < seqNoTH ∧ Within l.size S := by
  have hle := h.le
  have hwindow := h.window
  have hrcv := c.window_le
  have hflight := c.flight_lt
  refine ⟨by simp only [seqNoTH]; omega, ?_⟩
  intro i hi j hj
  have hi' := hlost i hi
  have hj' := hlost j hj
  omega

theorem Sends.processNak (h : Sends c x stream f da la n) {r : Range} (hr : Recent c n r.lo)
    (hisn : c.isn ≤ r.lo) (hhi : r.hi < n) :
    ∃ x', x.processNak (LossReport.words r) = some x' ∧ Sends c x' stream f da la n := by
  have hle := h.le
  have hrle := r.le
  have hzero := c.isn_nonneg
  have hcurr : x.sndCurrSeqNo = num (n - 1) := h.curr.num (by omega)
  have hrecent : ∀ i ∈ r.elems, Recent c n i := by
    intro i hi
    have hi' := Range.mem_elems.mp hi
    have hr' := hr.1
    exact ⟨by omega, by omega⟩
  have hnear : ∀ i ∈ r.elems, Near i la ∧ Near i (n - 1) := fun i hi =>
    ⟨(h.near (hrecent i hi)).1, (h.near (hrecent i hi)).2.2.2⟩
  have hspan : r.hi - r.lo < seqNoTH := by
    have hlo := hr.1
    have hrcv := c.window_le
    have hflight := c.flight_lt
    simp only [seqNoTH, Link.lifetime] at *
    omega
  obtain ⟨S, hshows, hsize, hlost⟩ := h.losses
  have hlost' : ∀ i ∈ S ∪ r.elems.filter (la ≤ ·), da ≤ i ∧ i < n := by
    intro i hi
    rcases Finset.mem_union.mp hi with hi | hi
    · exact hlost i hi
    · obtain ⟨hi, hlai⟩ := Finset.mem_filter.mp hi
      have hi' := Range.mem_elems.mp hi
      omega
  obtain ⟨hlt, hwithin⟩ := h.within hsize hlost'
  obtain ⟨l, hdecode, hshows', hsize'⟩ := LossReport.decode_words [] hshows hlt hspan
    (by omega) hnear hwithin
  rw [List.append_nil] at hdecode
  have hnak : x.processNak (LossReport.words r) =
      some { x with sndLossList := l, broken := x.broken || !true } := by
    rw [Sender.processNak, h.lastAck, hcurr, hdecode]
    rfl
  have hnew := h.withLosses hshows' (hsize'.trans hsize) hlost'
  exact ⟨_, hnak, { hnew with sound := by simp [h.sound] }⟩

theorem Sends.expire (h : Sends c x stream f da la n) : Sends c x.expire stream f da la n := by
  have hle := h.le
  have hinc : incseq x.sndCurrSeqNo = num n := by
    rw [h.curr.incseq, sub_add_cancel]
  unfold Sender.expire
  split_ifs with hif
  · have hlt : la < n := by
      by_contra hnot
      have heq : la = n := by omega
      apply hif.2.1
      rw [hinc, h.lastAck, heq]
    have hzero := c.isn_nonneg
    have hcurr : x.sndCurrSeqNo = num (n - 1) := h.curr.num (by omega)
    obtain ⟨S, hshows, hsize, hlost⟩ := h.losses
    have hr : la ≤ n - 1 := by omega
    have hlost' : ∀ i ∈ S ∪ (Range.mk la (n - 1) hr).elems, da ≤ i ∧ i < n := by
      intro i hi
      rcases Finset.mem_union.mp hi with hi | hi
      · exact hlost i hi
      · have hi' := Range.mem_elems.mp hi
        dsimp only at hi'
        omega
    obtain ⟨hsmall, hwithin⟩ := h.within hsize hlost'
    obtain ⟨-, hsize', hshows'⟩ := SndLossList.insert_spec hshows ⟨la, n - 1, hr⟩ hsmall hwithin
    rw [← h.lastAck, ← hcurr] at hsize' hshows'
    exact h.withLosses hshows' (hsize'.trans hsize) hlost'
  · exact h

/-- Nothing left in the buffer means that everything was acknowledged. -/
theorem Sends.flushed (h : Sends c x stream f da la n) (hempty : x.sndBuffer.getCurrBufSize = 0) :
    da = c.isn + stream.length := by
  have hle := h.le
  obtain ⟨ps, qs, hholds, hps, hstream, -⟩ := h.buffer
  have hlength := congrArg List.length hstream
  rw [hholds.getCurrBufSize] at hempty
  rw [List.length_map, List.length_drop] at hlength
  omega

end NineWire.Udt
