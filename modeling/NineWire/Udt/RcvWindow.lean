import NineWire.Ring
import NineWire.Udt.RcvBuffer

/-! What the receiver's buffer holds while no packet in it is dropped: a window of
packets, from which messages are read as they become whole. -/
namespace NineWire.Udt
open NineWire.Ring
namespace RcvBuffer

/-- The slots hold the packets of a window from `s`, where the reader is, over
`a`, up to where they are acknowledged. None of them was dropped. -/
structure Window (b : RcvBuffer) (c s a : Int) (got : Int → Option Packet) : Prop where
  pos : 0 < b.size
  start : b.startPos = slot b.size c s
  ack : b.lastAckPos = slot b.size c a
  le : s ≤ a
  acked : ∀ i, s ≤ i → i < a → got i ≠ none
  within : ∀ i, got i ≠ none → s ≤ i ∧ i ≤ a + b.maxPos ∧ i < s + b.size - 1
  max : 0 ≤ b.maxPos ∧ a + b.maxPos < s + b.size
  unit : ∀ i, s ≤ i → i < s + b.size → b.unit (slot b.size c i) = (got i).map fun p => ⟨p, 1⟩

variable {b : RcvBuffer} {c s a : Int} {got : Int → Option Packet} {ps : List Packet}

theorem window_new {size : Int} (hsize : 0 < size) (i : Int) :
    Window (new size) (-i) i i fun _ => none where
  pos := hsize
  start := by simp [new, slot]
  ack := by simp [new, slot]
  le := le_refl i
  acked j hj hj' := by omega
  within j hj := absurd rfl hj
  max := ⟨le_refl 0, by simpa [new] using hsize⟩
  unit j _ _ := rfl

theorem Window.dataSize (h : Window b c s a got) : b.getRcvDataSize = a - s := by
  have hpos := h.pos
  have hle := h.le
  have hmax := h.max
  have hstart := slot_nonneg (c := c) (i := s) hpos
  have hlt := slot_lt (c := c) (i := a) hpos
  have ha : slot b.size c a = (slot b.size c s + (a - s)) % b.size := by
    rw [slot_add, add_sub_cancel]
  unfold getRcvDataSize
  rw [h.start, h.ack, ha]
  have hlt' := slot_lt (c := c) (i := s) hpos
  by_cases hwrap : slot b.size c s + (a - s) < b.size
  · rw [Int.emod_eq_of_lt (by omega) hwrap, if_pos (by omega)]
    omega
  · have hmod : (slot b.size c s + (a - s)) % b.size = slot b.size c s + (a - s) - b.size := by
      rw [← Int.sub_emod_right, Int.emod_eq_of_lt (by omega) (by omega)]
    rw [hmod, if_neg (by omega)]
    omega

theorem Window.after (h : Window b c s a got) (i : Int) :
    b.after (slot b.size c i) = slot b.size c (i + 1) := by
  have hpos := h.pos
  have hnonneg := slot_nonneg (c := c) (i := i) hpos
  have hlt := slot_lt (c := c) (i := i) hpos
  unfold RcvBuffer.after
  rw [← slot_add]
  split_ifs with hend
  · rw [hend, Int.emod_self]
  · rw [Int.emod_eq_of_lt (by omega) (by omega)]

theorem Window.slot_add (h : Window b c s a got) {offset : Int} (hoffset : 0 ≤ offset) :
    (b.lastAckPos + offset).tmod b.size = slot b.size c (a + offset) := by
  have hnonneg := slot_nonneg (c := c) (i := a) h.pos
  rw [h.ack, Int.tmod_eq_emod_of_nonneg (by omega), Ring.slot_add]

theorem Window.note (h : Window b c s a got) {n : Int} (hle : b.maxPos ≤ n)
    (hlt : a + n < s + b.size) : Window { b with maxPos := n } c s a got where
  pos := h.pos
  start := h.start
  ack := h.ack
  le := h.le
  acked := h.acked
  within i hi := by
    have hwithin := h.within i hi
    dsimp only
    omega
  max := by
    have hmax := h.max
    dsimp only
    omega
  unit := h.unit

theorem Window.put (h : Window b c s a got) {i : Int} (packet : Packet) (hle : a ≤ i)
    (hreach : i ≤ a + b.maxPos) (hroom : i < s + b.size - 1) :
    Window { b with unit := Function.update b.unit (slot b.size c i) (some ⟨packet, 1⟩) } c s a
      (Function.update got i (some packet)) where
  pos := h.pos
  start := h.start
  ack := h.ack
  le := h.le
  acked j hj hj' := by
    rw [Function.update_of_ne (by omega)]
    exact h.acked j hj hj'
  within j hj := by
    have hle := h.le
    by_cases hij : j = i
    · subst hij
      dsimp only
      omega
    · rw [Function.update_of_ne hij] at hj
      exact h.within j hj
  max := h.max
  unit j hj hj' := by
    dsimp only at *
    by_cases hij : j = i
    · subst hij
      simp
    · have hle := h.le
      have hslot : slot b.size c j ≠ slot b.size c i := by
        rw [Ne, slot_inj (by omega)]
        exact hij
      rw [Function.update_of_ne hij, Function.update_of_ne hslot]
      exact h.unit j hj hj'

theorem Window.avail (h : Window b c s a got) : b.getAvailBufSize = s + b.size - a - 1 := by
  rw [getAvailBufSize, h.dataSize]
  omega

theorem Window.addData (h : Window b c s a got) {offset : Int} (packet : Packet)
    (hoffset : 0 ≤ offset) (hroom : offset < b.getAvailBufSize) :
    (b.addData packet offset).1 = (got (a + offset)).isNone ∧
      (b.addData packet offset).2.size = b.size ∧
      Window (b.addData packet offset).2 c s a
        (Function.update got (a + offset) (some ((got (a + offset)).getD packet))) := by
  rw [h.avail] at hroom
  have hle := h.le
  obtain ⟨b', hb', hreach, hsize, hlast, hw⟩ : ∃ b',
      (if b.maxPos < offset then { b with maxPos := offset } else b) = b' ∧
      offset ≤ b'.maxPos ∧ b'.size = b.size ∧ b'.lastAckPos = b.lastAckPos ∧
      Window b' c s a got := by
    by_cases hlt : b.maxPos < offset
    · exact ⟨_, if_pos hlt, le_refl _, rfl, rfl, h.note (by omega) (by omega)⟩
    · exact ⟨b, if_neg hlt, by omega, rfl, rfl, h⟩
  have hdef : b.addData packet offset =
      if b'.unit (slot b'.size c (a + offset)) ≠ none then (false, b')
      else (true, { b' with
        unit := Function.update b'.unit (slot b'.size c (a + offset)) (some { packet, flag := 1 }) }) := by
    unfold RcvBuffer.addData
    rw [h.slot_add hoffset, hb', ← hsize]
  rw [hdef, hw.unit (a + offset) (by omega) (by omega), ← hsize]
  cases hgot : got (a + offset) with
  | none =>
    have hput := hw.put packet (i := a + offset) (by omega) (by omega) (by omega)
    exact ⟨rfl, rfl, hput⟩
  | some p =>
    rw [Option.getD_some, ← hgot, Function.update_eq_self, hgot]
    exact ⟨rfl, rfl, hw⟩

theorem Window.ackData (h : Window b c s a got) {len : Int} (hlen : 0 ≤ len)
    (hacked : ∀ i, a ≤ i → i < a + len → got i ≠ none) :
    Window (b.ackData len) c s (a + len) got where
  pos := h.pos
  start := h.start
  ack := h.slot_add hlen
  le := by
    have hle := h.le
    omega
  acked i hi hi' := by
    by_cases hlt : i < a
    · exact h.acked i hi hlt
    · exact hacked i (by omega) hi'
  within i hi := by
    have hwithin := h.within i hi
    simp only [RcvBuffer.ackData]
    split_ifs <;> omega
  max := by
    have hmax := h.max
    have hlast : 0 < len → a + len < s + b.size := by
      intro hpos
      have hwithin := h.within _ (hacked (a + len - 1) (by omega) (by omega))
      omega
    simp only [RcvBuffer.ackData]
    split_ifs <;> omega
  unit := h.unit

def since (s : Int) (got : Int → Option Packet) (i : Int) : Option Packet :=
  if i < s then none else got i

theorem since_since {t : Int} (h : s ≤ t) : since t (since s got) = since t got := by
  funext i
  simp only [since]
  split_ifs with hi hi'
  · rfl
  · omega
  · rfl

theorem since_of_le {i : Int} (h : s ≤ i) : since s got i = got i := if_neg (by omega)

theorem Window.since_self (h : Window b c s a got) : since s got = got := by
  funext i
  simp only [since]
  split_ifs with hi
  · by_contra hne
    have hwithin := h.within i (Ne.symm hne)
    omega
  · rfl

theorem Window.pop (h : Window b c s a got) (hlt : s < a) :
    Window { b with
      unit := Function.update b.unit (slot b.size c s) none, startPos := slot b.size c (s + 1) }
      c (s + 1) a (since (s + 1) got) where
  pos := h.pos
  start := rfl
  ack := h.ack
  le := hlt
  acked i hi hi' := by
    rw [since_of_le hi]
    exact h.acked i (by omega) hi'
  within i hi := by
    by_cases hlt : i < s + 1
    · exact absurd (if_pos hlt) hi
    · rw [since_of_le (by omega)] at hi
      have hwithin := h.within i hi
      dsimp only
      omega
  max := by
    have hmax := h.max
    dsimp only
    omega
  unit i hi hi' := by
    dsimp only at *
    rw [since_of_le hi]
    by_cases hlast : i < s + b.size
    · have hslot : slot b.size c i ≠ slot b.size c s := by
        rw [Ne, slot_inj (by omega)]
        omega
      rw [Function.update_of_ne hslot]
      exact h.unit i (by omega) hlast
    · have hgot : got i = none := by
        by_contra hne
        have hwithin := h.within i hne
        omega
      have hi : i = s + b.size := by omega
      rw [hgot, hi, slot_cycle, Function.update_self]
      rfl

theorem Window.start_eq (h : Window b c s a got) : b.startPos = b.lastAckPos ↔ s = a := by
  have hmax := h.max
  have hle := h.le
  rw [h.start, h.ack, slot_inj (by omega)]

theorem Window.whole (h : Window b c s a got) :
    ∀ fuel i, s ≤ i → i ≤ a → b.whole fuel (slot b.size c i) = true
  | 0, _, _, _ => rfl
  | fuel + 1, i, hi, hi' => by
    unfold RcvBuffer.whole
    have hmax := h.max
    rw [h.ack]
    split_ifs with hne
    · have hia : i ≠ a := by
        rintro rfl
        exact hne rfl
      rw [h.unit i hi (by omega)]
      have hacked := h.acked i hi (by omega)
      cases hgot : got i with
      | none => exact absurd hgot hacked
      | some p =>
        simp only [Option.map_some, ne_eq, not_true_eq_false, if_false]
        split_ifs
        · rfl
        · rw [h.after]
          exact Window.whole h fuel (i + 1) (by omega) (by omega)
    · rfl

theorem Window.skipBad (h : Window b c s a got)
    (hfirst : s < a → ∃ p, got s = some p ∧ 1 < getMsgBoundary p.msgNo) (fuel : Nat) :
    RcvBuffer.skipBad fuel b = b := by
  cases fuel with
  | zero => rfl
  | succ fuel =>
    unfold RcvBuffer.skipBad
    have hle := h.le
    have hmax := h.max
    by_cases hstart : b.startPos = b.lastAckPos
    · rw [if_neg (by simpa using hstart)]
    · have hlt : s < a := by
        rw [h.start_eq] at hstart
        omega
      obtain ⟨p, hgot, hboundary⟩ := hfirst hlt
      have hwhole := h.whole b.rounds s (le_refl s) hle
      rw [if_pos hstart, h.start, h.unit s (le_refl s) (by omega), hgot]
      simp only [Option.map_some, true_and]
      rw [if_pos ⟨hboundary, hwhole⟩]

def IsMsg (ps : List Packet) : Prop :=
  ps ≠ [] ∧ ∀ k (hk : k < ps.length), getMsgBoundary ps[k].msgNo =
    2*(decide (k = 0)).toNat + (decide (k + 1 = ps.length)).toNat

structure Next (s a : Int) (got : Int → Option Packet) (ps : List Packet) : Prop where
  msg : IsMsg ps
  le : s + ps.length ≤ a
  got : ∀ k : Nat, k < ps.length → got (s + k) = ps[k]?

theorem Next.boundary (hm : Next s a got ps) {k : Nat} (hk : k < ps.length) :
    ∃ p, got (s + k) = some p ∧ getMsgBoundary p.msgNo =
      2*(decide (k = 0)).toNat + (decide (k + 1 = ps.length)).toNat :=
  ⟨ps[k], by rw [hm.got k hk, List.getElem?_eq_getElem hk], hm.msg.2 k hk⟩

theorem Window.search_succ (h : Window b c s a got) (n : Nat) {j p : Int} (hj : s ≤ j)
    (hlt : j < s + b.size) :
    b.search (n + 1) ⟨p, slot b.size c j, decide (a ≤ j)⟩ =
      let u := (got j).map fun p => ⟨p, 1⟩
      let l := look u p (slot b.size c j)
      if l.2 ∧ (j < a ∨ inOrder u = false) then (true, ⟨l.1, slot b.size c j, decide (a ≤ j)⟩)
      else b.search n ⟨l.1, slot b.size c (j + 1), decide (a ≤ j + 1)⟩ := by
  have hpass : (decide (a ≤ j) || decide (slot b.size c (j + 1) = b.lastAckPos)) =
      decide (a ≤ j + 1) := by
    have hmax := h.max
    have hle := h.le
    by_cases haj : a ≤ j
    · rw [decide_eq_true haj, Bool.true_or, decide_eq_true (by omega)]
    · rw [h.ack, decide_eq_false haj, Bool.false_or]
      have hiff : slot b.size c (j + 1) = slot b.size c a ↔ a ≤ j + 1 := by
        rw [slot_inj (by omega)]
        omega
      exact decide_eq_decide.mpr hiff
  have hbefore : (!decide (a ≤ j)) = decide (j < a) := by
    rw [← decide_not, decide_eq_decide]
    omega
  rw [search]
  simp only [h.unit j hj hlt, h.after, hpass, hbefore, Bool.or_eq_true, decide_eq_true_eq,
    Bool.not_eq_true']

/-- The search finds the next message. -/
theorem Window.search_next (h : Window b c s a got) (hm : Next s a got ps) :
    ∀ (n k : Nat), k < ps.length → ps.length - k ≤ n →
      b.search n ⟨if k = 0 then -1 else slot b.size c s, slot b.size c (s + k),
        decide (a ≤ s + k)⟩ =
        (true, ⟨slot b.size c s, slot b.size c (s + ps.length - 1), false⟩)
  | 0, k, hk, hn => by omega
  | n + 1, k, hk, hn => by
    have hmax := h.max
    have hle := hm.le
    have hhead := slot_nonneg (c := c) (i := s) h.pos
    obtain ⟨p, hgot, hboundary⟩ := hm.boundary hk
    rw [h.search_succ n (by omega) (by omega), hgot]
    have hbefore : s + (k : Int) < a := by omega
    have hne : slot b.size c s ≠ -1 := by omega
    by_cases hlast : k + 1 = ps.length
    · have hlook : look ((some p).map fun p => ⟨p, 1⟩)
          (if k = 0 then -1 else slot b.size c s) (slot b.size c (s + k)) =
          (slot b.size c s, true) := by
        rw [decide_eq_true hlast] at hboundary
        by_cases hzero : k = 0 <;> simp [look, hboundary, hzero, hne]
      have hend : s + (ps.length : Int) - 1 = s + k := by omega
      have hnot : ¬ a ≤ s + (k : Int) := by omega
      simp only [hlook, hbefore, true_or, and_self, if_true, hend, decide_eq_false hnot]
    · have hlook : look ((some p).map fun p => ⟨p, 1⟩)
          (if k = 0 then -1 else slot b.size c s) (slot b.size c (s + k)) =
          (slot b.size c s, false) := by
        rw [decide_eq_false hlast] at hboundary
        by_cases hzero : k = 0 <;> simp [look, hboundary, hzero]
      have hstep := Window.search_next h hm n (k + 1) (by omega) (by omega)
      rw [if_neg (by omega)] at hstep
      simp only [hlook, Bool.false_eq_true, false_and, if_false]
      have hk' : s + (k : Int) + 1 = s + (k + 1 : Nat) := by omega
      rw [hk']
      exact hstep

/-- Where no message is wholly acknowledged, the search fails. -/
theorem Window.search_none (h : Window b c s a got)
    (horder : ∀ i p, got i = some p → getMsgOrderFlag p.msgNo = true)
    (htail : ∀ i p, i < a → got i = some p →
      getMsgBoundary p.msgNo ≠ 1 ∧ getMsgBoundary p.msgNo ≠ 3) :
    ∀ (n : Nat) (j p : Int), s ≤ j → j + n ≤ s + b.size → ∃ p',
      b.search n ⟨p, slot b.size c j, decide (a ≤ j)⟩ =
        (false, ⟨p', slot b.size c (j + n), decide (a ≤ j + n)⟩)
  | 0, j, p, _, _ => ⟨p, by simp [search]⟩
  | n + 1, j, p, hj, hn => by
    rw [h.search_succ n hj (by omega)]
    have hnot : ¬ ((look ((got j).map fun p => ⟨p, 1⟩) p (slot b.size c j)).2 ∧
        (j < a ∨ inOrder ((got j).map fun p => ⟨p, 1⟩) = false)) := by
      cases hgot : got j with
      | none => simp [look]
      | some u =>
        have ho := horder j u hgot
        by_cases hlt : j < a
        · have hb := htail j u hlt hgot
          simp only [look, Option.map_some, if_true]
          split <;> simp_all
        · simp [inOrder, ho, hlt]
    dsimp only
    rw [if_neg hnot]
    have hn' : j + ((n + 1 : Nat) : Int) = j + 1 + n := by omega
    rw [hn']
    exact Window.search_none h horder htail n (j + 1) _ (by omega) (by omega)

def bytes (ps : List Packet) : List UInt8 := ps.flatMap (·.data)

theorem copy_next (e : Int) : ∀ (ps : List Packet) (fuel : Nat) {b : RcvBuffer} {s : Int}
    {got : Int → Option Packet} (rs : Nat) (data : List UInt8),
    Window { b with startPos := slot b.size c s } c s a got → s + ps.length ≤ a →
    e = slot b.size c (s + ps.length) →
    (∀ k : Nat, k < ps.length → got (s + k) = ps[k]?) → ps.length < fuel →
    (copy false e fuel (slot b.size c s) rs data b).1 = data ++ (bytes ps).take rs ∧
      (copy false e fuel (slot b.size c s) rs data b).2.size = b.size ∧
      Window { (copy false e fuel (slot b.size c s) rs data b).2 with startPos := e } c
        (s + ps.length) a (since (s + ps.length) got)
  | ps, 0, _, _, _, _, _, _, _, _, _, hfuel => by omega
  | [], fuel + 1, b, s, got, rs, data, h, hle, he, hgot, hfuel => by
    have hs : s + (([] : List Packet).length : Int) = s := by simp
    rw [hs] at he ⊢
    subst he
    have hcopy : copy false (slot b.size c s) (fuel + 1) (slot b.size c s) rs data b =
        (data, b) := by simp [copy]
    rw [hcopy, h.since_self]
    simpa [bytes] using h
  | p :: ps, fuel + 1, b, s, got, rs, data, h, hle, he, hgot, hfuel => by
    simp only [List.length_cons] at hle he hfuel hgot
    have hmax := h.max
    have hpop := h.pop (by omega)
    have hhead : got s = some p := by simpa using hgot 0 (by omega)
    have hunit : b.unit (slot b.size c s) = some ⟨p, 1⟩ := by
      have hunit := h.unit s (le_refl s) (by dsimp only at *; omega)
      simpa [hhead] using hunit
    have hafter : b.after (slot b.size c s) = slot b.size c (s + 1) := h.after s
    have hne : slot b.size c s ≠ e := by
      rw [he, Ne, slot_inj (by dsimp only at *; omega)]
      omega
    have hlen : s + ((ps.length + 1 : Nat) : Int) = s + 1 + ps.length := by omega
    have hrest := copy_next e ps fuel
      (b := { b with unit := Function.update b.unit (slot b.size c s) none })
      (rs - (p.data.take rs).length) (data ++ p.data.take rs) hpop (by omega) (by rw [he, hlen])
      (fun k hk => by
        have hk' : s + 1 + (k : Int) = s + (k + 1 : Nat) := by omega
        rw [since_of_le (by omega), hk', hgot (k + 1) (by omega), List.getElem?_cons_succ])
      (by omega)
    have hcopy : copy false e (fuel + 1) (slot b.size c s) rs data b =
        copy false e fuel (slot b.size c (s + 1)) (rs - (p.data.take rs).length)
          (data ++ p.data.take rs)
          { b with unit := Function.update b.unit (slot b.size c s) none } := by
      rw [copy, if_pos hne, hafter, hunit]
      rfl
    have htake : p.data.take rs ++ (bytes ps).take (rs - (p.data.take rs).length) =
        (bytes (p :: ps)).take rs := by
      rw [bytes, bytes, List.flatMap_cons, List.take_append, List.length_take]
      congr 2
      omega
    rw [hcopy, ← htake, ← List.append_assoc, List.length_cons, hlen,
      ← since_since (t := s + 1 + ps.length) (by omega : s + 1 ≤ s + 1 + (ps.length : Int))]
    exact hrest

theorem Window.scanMsg (h : Window b c s a got) (hskip : RcvBuffer.skipBad b.rounds b = b)
    (hne : ¬ (b.startPos = b.lastAckPos ∧ b.maxPos ≤ 0)) :
    b.scanMsg =
      let (found, t) := b.search (b.maxPos + (a - s) + 1).toNat
        ⟨-1, slot b.size c s, decide (a ≤ s)⟩
      (found || (t.p ≠ -1 && (t.q + 1).tmod b.size = t.p), t, b) := by
  have hle := h.le
  have hpass : decide (slot b.size c s = b.lastAckPos) = decide (a ≤ s) := by
    rw [decide_eq_decide, ← h.start, h.start_eq]
    omega
  rw [RcvBuffer.scanMsg, if_neg hne, hskip]
  simp only [h.start, hpass, h.dataSize]

/-- The next message is read whole, as far as there is room for it. -/
theorem Window.readMsg_next (h : Window b c s a got) (hm : Next s a got ps) (len : Nat) :
    (b.readMsg len).1 = (bytes ps).take len ∧ (b.readMsg len).2.size = b.size ∧
      Window (b.readMsg len).2 c (s + ps.length) a (since (s + ps.length) got) := by
  have hle := hm.le
  have hmax := h.max
  have hlen : 0 < ps.length := List.length_pos_iff.mpr hm.msg.1
  have hskip : RcvBuffer.skipBad b.rounds b = b := by
    apply h.skipBad
    intro hlt
    obtain ⟨p, hgot, hboundary⟩ := hm.boundary hlen
    exact ⟨p, by simpa using hgot, by simp [hboundary]; omega⟩
  have hstart : ¬ (b.startPos = b.lastAckPos ∧ b.maxPos ≤ 0) := by
    rw [h.start_eq]
    omega
  have hsearch := h.search_next hm (b.maxPos + (a - s) + 1).toNat 0 hlen (by omega)
  have hend : (slot b.size c (s + ps.length - 1) + 1).tmod b.size =
      slot b.size c (s + ps.length) := by
    have hnonneg := slot_nonneg (c := c) (i := s + ps.length - 1) h.pos
    rw [Int.tmod_eq_emod_of_nonneg (by omega), Ring.slot_add, sub_add_cancel]
  have hread : b.readMsg len =
      ((copy false (slot b.size c (s + ps.length)) b.rounds (slot b.size c s) len [] b).1,
        { (copy false (slot b.size c (s + ps.length)) b.rounds (slot b.size c s) len [] b).2 with
          startPos := slot b.size c (s + ps.length) }) := by
    rw [if_pos rfl, Nat.cast_zero, add_zero] at hsearch
    rw [RcvBuffer.readMsg, h.scanMsg hskip hstart, hsearch]
    simp only [Bool.true_or, hend, Bool.false_eq_true, if_false]
  have hself : { b with startPos := slot b.size c s } = b := by rw [← h.start]
  have hcopy := copy_next (slot b.size c (s + ps.length)) ps b.rounds len []
    (by rw [hself]; exact h) hle rfl hm.got (by rw [rounds]; omega)
  rw [hread]
  simpa using hcopy

theorem Window.readMsg_none (h : Window b c s a got)
    (hfirst : s < a → ∃ p, got s = some p ∧ 1 < getMsgBoundary p.msgNo)
    (horder : ∀ i p, got i = some p → getMsgOrderFlag p.msgNo = true)
    (htail : ∀ i p, i < a → got i = some p →
      getMsgBoundary p.msgNo ≠ 1 ∧ getMsgBoundary p.msgNo ≠ 3) (len : Nat) :
    b.readMsg len = ([], b) := by
  have hle := h.le
  have hmax := h.max
  by_cases hstart : b.startPos = b.lastAckPos ∧ b.maxPos ≤ 0
  · have hscan : b.scanMsg = (false, ⟨-1, -1, false⟩, b) := by
      rw [RcvBuffer.scanMsg, if_pos hstart]
    rw [readMsg, hscan]
  · obtain ⟨p, hsearch⟩ := h.search_none horder htail (b.maxPos + (a - s) + 1).toNat s (-1)
      (le_refl s) (by omega)
    have hpass : decide (a ≤ s + ((b.maxPos + (a - s) + 1).toNat : Int)) = true :=
      decide_eq_true (by omega)
    rw [hpass] at hsearch
    generalize slot b.size c (s + ((b.maxPos + (a - s) + 1).toNat : Int)) = q at hsearch
    have hscan : b.scanMsg = (p ≠ -1 && (q + 1).tmod b.size = p, ⟨p, q, true⟩, b) := by
      rw [h.scanMsg (h.skipBad hfirst _) hstart, hsearch]
      simp
    rw [readMsg, hscan]
    by_cases hcut : (q + 1).tmod b.size = p
    · -- a message that fills the ring ends where it starts, and nothing of it is copied
      by_cases hhead : p = -1
      · simp [hhead]
      · simp [hhead, hcut, copy, rounds]
    · simp [hcut]

end RcvBuffer
end NineWire.Udt
