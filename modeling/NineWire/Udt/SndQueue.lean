import NineWire.Chain
import NineWire.Refinement
import NineWire.Udt.SndBuffer

/-! The sender's buffer is a queue of packets: the ring of blocks cut into those
that were read, those still to be read and those that are free. -/
namespace NineWire.Udt
open NineWire.Chain NineWire.Refinement
namespace SndBuffer

structure Layout (b : SndBuffer) (sent unsent free : List Nat) : Prop where
  before : Seg b.next b.firstBlock sent b.currBlock
  behind : Seg b.next b.currBlock unsent b.lastBlock
  rest : Seg b.next b.lastBlock free b.firstBlock
  room : free ≠ []
  perm : (sent ++ unsent ++ free).Perm (List.range b.size)
  count : b.count = (sent ++ unsent).length
  more : 0 < b.bufferSize

variable {b : SndBuffer} {sent unsent free : List Nat}

theorem Layout.nodup (h : Layout b sent unsent free) : (sent ++ unsent ++ free).Nodup :=
  h.perm.nodup_iff.mpr List.nodup_range

theorem Layout.size (h : Layout b sent unsent free) : b.size = b.count + free.length := by
  have hlength := h.perm.length_eq
  rw [List.length_append, List.length_range] at hlength
  rw [h.count]
  omega

theorem seg_range {next : Nat → Nat} {a n q : Nat} (hn : 0 < n)
    (hnext : ∀ i, a ≤ i → i + 1 < a + n → next i = i + 1) (hlast : next (a + n - 1) = q) :
    Seg next a (List.range' a n) q := by
  induction n generalizing a with
  | zero => omega
  | succ n ih =>
    refine ⟨rfl, ?_⟩
    cases n with
    | zero => exact hlast
    | succ n =>
      rw [hnext a (Nat.le_refl a) (by omega)]
      apply ih (by omega)
      · intro i hi hi'
        exact hnext i (by omega) (by omega)
      · rw [← hlast]
        congr 1
        omega

theorem layout_new {size mss : Nat} (hsize : 0 < size) : Layout (new size mss) [] []
    (List.range size) where
  before := rfl
  behind := rfl
  rest := by
    rw [List.range_eq_range']
    change Seg _ 0 _ 0
    apply seg_range hsize
    · intro i _ hi
      exact if_pos (by omega)
    · exact if_neg (by omega)
  room := by simpa using Nat.ne_of_gt hsize
  perm := List.Perm.refl _
  count := rfl
  more := hsize

/-- The new blocks come behind the last one, which is not in use itself. -/
theorem Layout.increase (h : Layout b sent unsent free) : ∃ free',
    Layout b.increase sent unsent free' := by
  obtain ⟨s, free', rfl⟩ := List.exists_cons_of_ne_nil h.room
  obtain ⟨rfl, hfree⟩ := h.rest
  have hmore := h.more
  have hlt : ∀ i ∈ sent ++ unsent ++ b.lastBlock :: free', i < b.size := fun i hi =>
    List.mem_range.mp (h.perm.mem_iff.mp hi)
  have hlast := hlt b.lastBlock (by simp)
  have hnodup := h.nodup
  rw [List.nodup_append] at hnodup
  obtain ⟨-, hfree', hdisj⟩ := hnodup
  have hold : ∀ i, i < b.size → i ≠ b.lastBlock → b.increase.next i = b.next i := by
    intro i hi hne
    simp only [SndBuffer.increase]
    rw [Function.update_of_ne hne, Function.update_of_ne (by omega), if_neg (by omega)]
  have hkeep : ∀ {p q : Nat} {xs : List Nat}, Seg b.next p xs q →
      (∀ i ∈ xs, i < b.size ∧ i ≠ b.lastBlock) → Seg b.increase.next p xs q := by
    intro p q xs hseg hxs
    exact hseg.congr fun i hi => hold i (hxs i hi).1 (hxs i hi).2
  have hused : ∀ i ∈ sent ++ unsent, i < b.size ∧ i ≠ b.lastBlock := fun i hi =>
    ⟨hlt i (List.mem_append_left _ hi), hdisj i hi b.lastBlock List.mem_cons_self⟩
  have hnew : Seg b.increase.next b.size (List.range' b.size b.bufferSize)
      (b.next b.lastBlock) := by
    apply seg_range hmore
    · intro i hi hi'
      simp only [SndBuffer.increase]
      rw [Function.update_of_ne (by omega), Function.update_of_ne (by omega), if_pos (by omega)]
    · simp only [SndBuffer.increase]
      rw [Function.update_of_ne (by omega), Function.update_self]
  refine ⟨b.lastBlock :: (List.range' b.size b.bufferSize ++ free'), ?_⟩
  constructor
  · exact hkeep h.before fun i hi => hused i (List.mem_append_left _ hi)
  · exact hkeep h.behind fun i hi => hused i (List.mem_append_right _ hi)
  · refine ⟨rfl, seg_append.mpr ⟨b.next b.lastBlock, ?_, ?_⟩⟩
    · simpa [SndBuffer.increase] using hnew
    · apply hkeep hfree
      intro i hi
      refine ⟨hlt i (by simp [hi]), ?_⟩
      rintro rfl
      exact (List.nodup_cons.mp hfree').1 hi
  · exact List.cons_ne_nil _ _
  · have hrange : List.range (b.size + b.bufferSize) =
        List.range b.size ++ List.range' b.size b.bufferSize := by
      rw [List.range_eq_range', List.range_eq_range', ← List.range'_append]
      simp
    change (sent ++ unsent ++ b.lastBlock :: (List.range' b.size b.bufferSize ++ free')).Perm
      (List.range (b.size + b.bufferSize))
    have hmove : (sent ++ unsent ++ b.lastBlock :: (List.range' b.size b.bufferSize ++ free')).Perm
        (sent ++ unsent ++ b.lastBlock :: free' ++ List.range' b.size b.bufferSize) := by
      rw [List.append_assoc (sent ++ unsent), List.cons_append]
      exact (List.perm_append_comm.cons b.lastBlock).append_left (sent ++ unsent)
    rw [hrange]
    exact hmove.trans (h.perm.append_right _)
  · exact h.count
  · exact hmore

theorem increase_size (b : SndBuffer) : b.increase.size = b.size + b.bufferSize := rfl

structure Grown (b b' : SndBuffer) : Prop where
  block : b'.block = b.block
  firstBlock : b'.firstBlock = b.firstBlock
  currBlock : b'.currBlock = b.currBlock
  lastBlock : b'.lastBlock = b.lastBlock
  nextMsgNo : b'.nextMsgNo = b.nextMsgNo
  mss : b'.mss = b.mss
  count : b'.count = b.count

theorem Grown.refl (b : SndBuffer) : Grown b b := ⟨rfl, rfl, rfl, rfl, rfl, rfl, rfl⟩

/-- `grow` ends with room for `n` packets. -/
theorem Layout.grow (h : Layout b sent unsent free) (n : Nat) {fuel : Nat}
    (hfuel : n + b.count + 1 - b.size ≤ fuel) :
    ∃ free', Layout (SndBuffer.grow n fuel b) sent unsent free' ∧ n < free'.length ∧
      Grown b (SndBuffer.grow n fuel b) := by
  induction fuel generalizing b free with
  | zero =>
    have hsize := h.size
    exact ⟨free, h, by omega, .refl b⟩
  | succ fuel ih =>
    rw [SndBuffer.grow]
    have hsize := h.size
    have hmore := h.more
    split_ifs with hif
    · obtain ⟨free', h'⟩ := h.increase
      obtain ⟨free'', h'', hroom, hgrown⟩ := ih h' (by
        have hcount : b.increase.count = b.count := rfl
        rw [increase_size, hcount]
        omega)
      exact ⟨free'', h'', hroom, hgrown.block, hgrown.firstBlock, hgrown.currBlock,
        hgrown.lastBlock, hgrown.nextMsgNo, hgrown.mss, hgrown.count⟩
    · exact ⟨free, h, by omega, .refl b⟩

theorem fill_spec (packet : Nat → Block) (i : Nat) {xs : List Nat} {s q : Nat} (h : Seg b.next s xs q)
    (hnodup : xs.Nodup) :
    ∃ block, fill packet xs.length i s b = { b with lastBlock := q, block } ∧
      (∀ x, x ∉ xs → block x = b.block x) ∧
      xs.map block = (List.range' i xs.length).map packet := by
  induction xs generalizing b i s with
  | nil => exact ⟨b.block, by rw [← show s = q from h]; rfl, fun _ _ => rfl, rfl⟩
  | cons x xs ih =>
    obtain ⟨rfl, h⟩ := h
    obtain ⟨hs, hxs⟩ := List.nodup_cons.mp hnodup
    obtain ⟨block, hfill, hsame, hmap⟩ := ih
        (b := { b with block := Function.update b.block s (packet i) }) (i + 1) h hxs
    refine ⟨block, hfill, ?_, ?_⟩
    · intro y hy
      obtain ⟨hys, hyxs⟩ := not_or.mp (mt List.mem_cons.mpr hy)
      exact (hsame y hyxs).trans (Function.update_of_ne hys _ _)
    · have hfirst : block s = packet i := (hsame s hs).trans (Function.update_self _ _ _)
      rw [List.map_cons, hmap, hfirst]
      rfl

def Holds (b : SndBuffer) (ps qs : List Block) : Prop :=
  ∃ sent unsent free, Layout b sent unsent free ∧ sent.map b.block = ps ∧ unsent.map b.block = qs

variable {ps qs : List Block}

theorem holds_new {size mss : Nat} (hsize : 0 < size) : Holds (new size mss) [] [] :=
  ⟨[], [], _, layout_new hsize, rfl, rfl⟩

def pack (mss nextMsgNo : Nat) (data : List UInt8) (ttl : Int) (order : Bool) (now : Nat) :
    List Block :=
  (List.range (packets mss data.length)).map fun i =>
    { data := (data.drop (i*mss)).take mss
      msgNo := msgWord nextMsgNo order (i = 0) (i + 1 = packets mss data.length)
      originTime := now
      ttl }

def followingMsgNo (n : Nat) : Nat := if n + 1 = maxMsgNo then 1 else n + 1

theorem Layout.append {n : Nat} (h : Layout b sent unsent free) (hn : n < free.length)
    (packet : Nat → Block) :
    Holds (b.append n packet) (sent.map b.block) (unsent.map b.block ++ (List.range n).map packet) ∧
      (b.append n packet).mss = b.mss ∧
      (b.append n packet).nextMsgNo = followingMsgNo b.nextMsgNo := by
  have hfree : free.take n ++ free.drop n = free := List.take_append_drop n free
  have hlength : (free.take n).length = n := by
    rw [List.length_take]
    omega
  have hrest := h.rest
  have hnodup := h.nodup
  rw [← hfree, seg_append] at hrest
  obtain ⟨q, hfilled, hfree'⟩ := hrest
  rw [← hfree, ← List.append_assoc] at hnodup
  obtain ⟨hused, -, -⟩ := List.nodup_append.mp hnodup
  obtain ⟨-, htake, hdisj⟩ := List.nodup_append.mp hused
  obtain ⟨block, hfill, hsame, hmap⟩ := fill_spec packet 0 hfilled htake
  rw [hlength] at hfill hmap
  have hkeep : ∀ {xs : List Nat},
      (∀ x ∈ xs, x ∈ sent ++ unsent) → xs.map block = xs.map b.block := by
    intro xs hxs
    apply List.map_congr_left
    intro x hx
    exact hsame x fun hmem => hdisj x (hxs x hx) x hmem rfl
  rw [SndBuffer.append, hfill]
  refine ⟨⟨sent, unsent ++ free.take n, free.drop n, ?_, ?_, ?_⟩, rfl, rfl⟩
  · constructor
    · exact h.before
    · exact seg_append.mpr ⟨_, h.behind, hfilled⟩
    · exact hfree'
    · intro hnil
      rw [List.drop_eq_nil_iff] at hnil
      omega
    · have hperm := h.perm
      rw [← hfree, ← List.append_assoc, List.append_assoc sent] at hperm
      exact hperm
    · have hcount := h.count
      rw [← List.append_assoc, List.length_append, hlength]
      simp only [hcount]
      omega
    · exact h.more
  · exact hkeep fun x hx => List.mem_append_left _ hx
  · rw [List.map_append, hkeep fun x hx => List.mem_append_right _ hx, List.range_eq_range']
    exact congrArg _ hmap

/-- `addBuffer` puts the packets of a message behind the others. -/
theorem Holds.addBuffer (h : Holds b ps qs) (data : List UInt8) (ttl : Int) (order : Bool)
    (now : Nat) :
    Holds (b.addBuffer data ttl order now) ps (qs ++ pack b.mss b.nextMsgNo data ttl order now) ∧
      (b.addBuffer data ttl order now).mss = b.mss ∧
      (b.addBuffer data ttl order now).nextMsgNo = followingMsgNo b.nextMsgNo := by
  obtain ⟨sent, unsent, free, hlayout, rfl, rfl⟩ := h
  unfold SndBuffer.addBuffer
  unfold pack
  generalize packets b.mss data.length = n
  have hfuel : n + b.count + 1 - b.size ≤ (n + b.count + 1 - b.size).toNat := Int.self_le_toNat _
  obtain ⟨free', hgrow, hroom, hgrown⟩ := hlayout.grow n hfuel
  obtain ⟨hholds, hmss, hnext⟩ := hgrow.append hroom
    ((SndBuffer.grow n (n + b.count + 1 - b.size).toNat b).packet data ttl order now n)
  have hpacket : (SndBuffer.grow n (n + b.count + 1 - b.size).toNat b).packet data ttl order now n =
      b.packet data ttl order now n := by
    funext i
    simp only [packet, hgrown.mss, hgrown.nextMsgNo]
  rw [hgrown.block, hpacket] at hholds
  simp only [hpacket]
  rw [hpacket] at hmss hnext
  exact ⟨hholds, hmss.trans hgrown.mss, hgrown.nextMsgNo ▸ hnext⟩

/-- `readData` gives out the next packet. -/
theorem Holds.readData {q : Block} (h : Holds b ps (q :: qs)) :
    b.readData.1 = some q ∧ Holds b.readData.2 (ps ++ [q]) qs := by
  obtain ⟨sent, unsent, free, hlayout, rfl, hmap⟩ := h
  obtain ⟨x, unsent, rfl, rfl, rfl⟩ := List.map_eq_cons_iff.mp hmap
  obtain ⟨rfl, hbehind⟩ := hlayout.behind
  have hne : b.currBlock ≠ b.lastBlock := by
    obtain ⟨y, free, rfl⟩ := List.exists_cons_of_ne_nil hlayout.room
    obtain ⟨rfl, -⟩ := hlayout.rest
    obtain ⟨-, -, hdisj⟩ := List.nodup_append.mp hlayout.nodup
    exact hdisj _ (by simp) _ List.mem_cons_self
  rw [SndBuffer.readData, if_neg hne]
  refine ⟨rfl, sent ++ [b.currBlock], unsent, free, ?_, ?_, rfl⟩
  · constructor
    · exact seg_snoc.mpr ⟨hlayout.before, rfl⟩
    · exact hbehind
    · exact hlayout.rest
    · exact hlayout.room
    · simpa using hlayout.perm
    · simpa using hlayout.count
    · exact hlayout.more
  · rw [List.map_append, List.map_singleton]

theorem readData_fields (b : SndBuffer) :
    b.readData.2.mss = b.mss ∧ b.readData.2.nextMsgNo = b.nextMsgNo := by
  unfold SndBuffer.readData
  split_ifs <;> exact ⟨rfl, rfl⟩

theorem Holds.readData_nil (h : Holds b ps []) : b.readData = (none, b) := by
  obtain ⟨sent, unsent, free, hlayout, rfl, hmap⟩ := h
  obtain rfl := List.map_eq_nil_iff.mp hmap
  exact if_pos hlayout.behind

theorem ahead_spec {xs : List Nat} {p q x : Nat} {n : Nat} (h : Seg b.next p xs q)
    (hx : (xs ++ [q])[n]? = some x) : b.ahead n p = x := by
  induction n generalizing p xs with
  | zero =>
    cases xs with
    | nil =>
      obtain rfl : p = q := h
      simpa [ahead] using hx
    | cons y ys =>
      obtain ⟨rfl, -⟩ := h
      simpa [ahead] using hx
  | succ n ih =>
    cases xs with
    | nil => simp at hx
    | cons y ys =>
      obtain ⟨rfl, h⟩ := h
      exact ih h (by simpa using hx)

/-- `readDataAt` looks at a packet that is not too old, read or not. -/
theorem Holds.readDataAt (h : Holds b ps qs) {offset now : Nat} {q : Block}
    (hq : (ps ++ qs)[offset]? = some q)
    (hfresh : ¬(0 ≤ q.ttl ∧ q.ttl < ((now - q.originTime)/1000 : Nat))) :
    b.readDataAt offset now = (.found q, b) := by
  obtain ⟨sent, unsent, free, hlayout, rfl, rfl⟩ := h
  rw [← List.map_append, List.getElem?_map, Option.map_eq_some_iff] at hq
  obtain ⟨x, hx, rfl⟩ := hq
  have hused := seg_append.mpr ⟨_, hlayout.before, hlayout.behind⟩
  have hahead := ahead_spec hused
      (List.getElem?_append_left (List.getElem?_eq_some_iff.mp hx).1 ▸ hx)
  simp only [SndBuffer.readDataAt, hahead, if_neg hfresh]

/-- `ackData` takes away the first of the packets that were read. -/
theorem Holds.ackData (h : Holds b ps qs) {offset : Nat} (hoffset : offset ≤ ps.length) :
    Holds (b.ackData offset) (ps.drop offset) qs := by
  obtain ⟨sent, unsent, free, hlayout, rfl, rfl⟩ := h
  rw [List.length_map] at hoffset
  have hcut : sent.take offset ++ sent.drop offset = sent := List.take_append_drop offset sent
  have hbefore := hlayout.before
  rw [← hcut, seg_append] at hbefore
  obtain ⟨p, htake, hdrop⟩ := hbefore
  have hahead : b.ahead offset b.firstBlock = p := by
    apply ahead_spec htake
    simp [List.length_take, Nat.min_eq_left hoffset]
  refine ⟨sent.drop offset, unsent, free ++ sent.take offset, ?_, List.map_drop, rfl⟩
  constructor
  · simpa [SndBuffer.ackData, hahead] using hdrop
  · exact hlayout.behind
  · apply seg_append.mpr
    exact ⟨_, hlayout.rest, by simpa [SndBuffer.ackData, hahead] using htake⟩
  · simp [hlayout.room]
  · have hperm := hlayout.perm
    rw [← hcut, List.append_assoc, List.append_assoc] at hperm
    have hmove : (sent.drop offset ++ (unsent ++ free) ++ sent.take offset).Perm
        (List.range b.size) := List.perm_append_comm.trans hperm
    simp only [List.append_assoc] at hmove ⊢
    exact hmove
  · have hcount := hlayout.count
    simp only [SndBuffer.ackData, List.length_append, List.length_drop] at hcount ⊢
    omega
  · exact hlayout.more

theorem Holds.getCurrBufSize (h : Holds b ps qs) : b.getCurrBufSize = (ps ++ qs).length := by
  obtain ⟨sent, unsent, free, hlayout, rfl, rfl⟩ := h
  simpa [SndBuffer.getCurrBufSize] using hlayout.count

/-- Packets that were read, up to their acknowledgement, and packets still to be read. -/
structure Queue where
  mss : Nat
  nextMsgNo : Nat
  read : List Block
  unread : List Block

inductive Call where
  | addBuffer (data : List UInt8) (ttl : Int) (order : Bool) (now : Nat)
  | readData
  | readDataAt (offset now : Nat)
  | ackData (offset : Nat)
  | getCurrBufSize

inductive Answer where
  | done
  | packet (block : Option Block)
  | look (look : Look)
  | size (size : Int)
  deriving DecidableEq

def call (b : SndBuffer) : Call → Answer × SndBuffer
  | .addBuffer data ttl order now => (.done, b.addBuffer data ttl order now)
  | .readData => (.packet b.readData.1, b.readData.2)
  | .readDataAt offset now => (.look (b.readDataAt offset now).1, (b.readDataAt offset now).2)
  | .ackData offset => (.done, b.ackData offset)
  | .getCurrBufSize => (.size b.getCurrBufSize, b)

namespace Queue

def call (u : Queue) : Call → Answer × Queue
  | .addBuffer data ttl order now =>
    (.done, { u with
      unread := u.unread ++ pack u.mss u.nextMsgNo data ttl order now
      nextMsgNo := followingMsgNo u.nextMsgNo })
  | .readData =>
    match u.unread with
    | [] => (.packet none, u)
    | q :: qs => (.packet q, { u with read := u.read ++ [q], unread := qs })
  | .readDataAt offset _ =>
    match (u.read ++ u.unread)[offset]? with
    | some q => (.look (.found q), u)
    | none => (.done, u)
  | .ackData offset => (.done, { u with read := u.read.drop offset })
  | .getCurrBufSize => (.size (u.read ++ u.unread).length, u)

/-- Only packets that were read are acknowledged, and only those looked at that
are there and not too old. -/
def Allowed (u : Queue) : Call → Prop
  | .addBuffer _ _ _ _ => True
  | .readData => True
  | .readDataAt offset now =>
    match (u.read ++ u.unread)[offset]? with
    | some q => ¬(0 ≤ q.ttl ∧ q.ttl < ((now - q.originTime)/1000 : Nat))
    | none => False
  | .ackData offset => offset ≤ u.read.length
  | .getCurrBufSize => True

structure Is (b : SndBuffer) (u : Queue) : Prop where
  holds : b.Holds u.read u.unread
  mss : b.mss = u.mss
  nextMsgNo : b.nextMsgNo = u.nextMsgNo

end Queue

theorem Queue.Is.call {u : Queue} {c : Call} (h : Queue.Is b u) (hc : u.Allowed c) :
    (b.call c).1 = (u.call c).1 ∧ Queue.Is (b.call c).2 (u.call c).2 := by
  obtain ⟨hholds, hmss, hnext⟩ := h
  cases c with
  | addBuffer data ttl order now =>
    obtain ⟨hadd, hmss', hnext'⟩ := hholds.addBuffer data ttl order now
    rw [hmss, hnext] at hadd
    exact ⟨rfl, hadd, hmss'.trans hmss, hnext'.trans (congrArg followingMsgNo hnext)⟩
  | readData =>
    obtain ⟨hmss', hnext'⟩ := readData_fields b
    obtain ⟨mss, nextMsgNo, read, unread⟩ := u
    cases unread with
    | nil =>
      rw [SndBuffer.call, hholds.readData_nil]
      exact ⟨rfl, hholds, hmss, hnext⟩
    | cons q qs =>
      obtain ⟨hq, hread⟩ := hholds.readData
      exact ⟨congrArg Answer.packet hq, hread, hmss'.trans hmss, hnext'.trans hnext⟩
  | readDataAt offset now =>
    simp only [Queue.Allowed] at hc
    simp only [SndBuffer.call, Queue.call]
    cases hq : (u.read ++ u.unread)[offset]? with
    | none => simp [hq] at hc
    | some q =>
      rw [hq] at hc
      rw [hholds.readDataAt hq hc]
      exact ⟨rfl, hholds, hmss, hnext⟩
  | ackData offset => exact ⟨rfl, hholds.ackData hc, hmss, hnext⟩
  | getCurrBufSize => exact ⟨congrArg Answer.size hholds.getCurrBufSize, hholds, hmss, hnext⟩

/-- The ring of blocks is a queue, however often it had to grow. -/
theorem sndBuffer_is_a_queue {size mss : Nat} (hsize : 0 < size) {calls : List Call}
    (hcalls : Permitted Queue.call Queue.Allowed ⟨mss, 1, [], []⟩ calls) :
    (reactions call (new size mss) calls).1 = (reactions Queue.call ⟨mss, 1, [], []⟩ calls).1 ∧
      Queue.Is (reactions call (new size mss) calls).2
        (reactions Queue.call ⟨mss, 1, [], []⟩ calls).2 := by
  apply reactions_sim Queue.Is _ ⟨holds_new hsize, rfl, rfl⟩ hcalls
  exact fun h hc => h.call hc

instance (u : Queue) : (c : Call) → Decidable (u.Allowed c)
  | .addBuffer _ _ _ _ => .isTrue trivial
  | .readData => .isTrue trivial
  | .readDataAt offset now =>
    match h : (u.read ++ u.unread)[offset]? with
    | some q => decidable_of_iff (¬(0 ≤ q.ttl ∧ q.ttl < ((now - q.originTime)/1000 : Nat))) (by
        simp only [Queue.Allowed, h])
    | none => .isFalse (by simp only [Queue.Allowed, h, not_false_eq_true])
  | .ackData offset => inferInstanceAs (Decidable (offset ≤ u.read.length))
  | .getCurrBufSize => .isTrue trivial

theorem sndBuffer_is_a_queue_two :
    (reactions call (new 2 4) [.addBuffer [1, 2, 3, 4, 5] (-1) true 7, .readData, .readData,
        .readData,
      .readDataAt 0 9, .ackData 1, .getCurrBufSize]).1 =
      [.done, .packet (some ⟨[1, 2, 3, 4], msgWord 1 true true false, 7, -1⟩),
        .packet (some ⟨[5], msgWord 1 true false true, 7, -1⟩), .packet none,
        .look (.found ⟨[1, 2, 3, 4], msgWord 1 true true false, 7, -1⟩), .done, .size 1] :=
  (sndBuffer_is_a_queue (by decide) (by decide)).1.trans (by decide)

end SndBuffer
end NineWire.Udt
