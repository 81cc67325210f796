import Mathlib.Logic.Function.Basic
import NineWire.Refinement
import NineWire.Ring

/-! The acknowledgements that were sent and are not acknowledged themselves yet,
`CACKWindow`: a ring in which the oldest one gives way when there is no room. -/
namespace NineWire.Udt
open NineWire.Refinement NineWire.Ring

structure AckWindow where
  ackSeqNo : Int → Int
  ack : Int → Int
  timeStamp : Int → Nat
  size : Int
  head : Int
  tail : Int

namespace AckWindow

def new (size : Int) : AckWindow where
  ackSeqNo i := if i = 0 then -1 else 0
  ack _ := 0
  timeStamp _ := 0
  size
  head := 0
  tail := 0

def store (w : AckWindow) (seq ack : Int) (now : Nat) : AckWindow :=
  let head := (w.head + 1).tmod w.size
  { w with
    ackSeqNo := Function.update w.ackSeqNo w.head seq
    ack := Function.update w.ack w.head ack
    timeStamp := Function.update w.timeStamp w.head now
    head
    -- overwrite the oldest one since it is not likely to be acknowledged
    tail := if head = w.tail then (w.tail + 1).tmod w.size else w.tail }

/-- The first of `n` places from `i` on that holds the number. -/
def seek (w : AckWindow) (seq : Int) : Nat → Int → Option Int
  | 0, _ => none
  | n + 1, i => if seq = w.ackSeqNo (i.tmod w.size) then some i else seek w seq n (i + 1)

def reset (w : AckWindow) : AckWindow :=
  { w with tail := 0, head := 0, ackSeqNo := Function.update w.ackSeqNo 0 (-1) }

def elapsed (now stamp : Nat) : Int := ((now : Int) - stamp).bmod (2^32)

/-- The round trip time and the number that was acknowledged, unless it was overwritten. -/
def acknowledge (w : AckWindow) (seq : Int) (now : Nat) : Option (Int × Int) × AckWindow :=
  if w.tail ≤ w.head then
    match w.seek seq (w.head - w.tail).toNat w.tail with
    | some i =>
      (some (elapsed now (w.timeStamp i), w.ack i),
        if i + 1 = w.head then w.reset else { w with tail := (i + 1).tmod w.size })
    | none => (none, w)
  else
    match w.seek seq (w.head + w.size - w.tail).toNat w.tail with
    | some j =>
      let j := j.tmod w.size
      (some (elapsed now (w.timeStamp j), w.ack j),
        if j = w.head then w.reset else { w with tail := (j + 1).tmod w.size })
    | none => (none, w)

structure Sent where
  seq : Int
  ack : Int
  stamp : Nat
  deriving DecidableEq

def entry (w : AckWindow) (i : Int) : Sent := ⟨w.ackSeqNo i, w.ack i, w.timeStamp i⟩

structure Holds (w : AckWindow) (q : List Sent) : Prop where
  tail : 0 ≤ w.tail ∧ w.tail < w.size
  head : w.head = slot w.size w.tail q.length
  length : q.length < w.size
  entry : ∀ k : Nat, k < q.length → q[k]? = some (w.entry (slot w.size w.tail k))

variable {w : AckWindow} {q : List Sent} {e : Sent}

theorem holds_new {size : Int} (h : 0 < size) : Holds (new size) [] where
  tail := ⟨le_refl 0, h⟩
  head := (slot_self (le_refl 0) h).symm
  length := by simpa [new] using h
  entry k hk := absurd hk (by simp)

theorem Holds.pos (h : Holds w q) : 0 < w.size := by
  have htail := h.tail
  omega

def push (size : Int) (q : List Sent) (e : Sent) : List Sent :=
  if (q.length : Int) + 1 = size then (q ++ [e]).tail else q ++ [e]

theorem Holds.store (h : Holds w q) (seq ack : Int) (now : Nat) :
    Holds (w.store seq ack now) (push w.size q ⟨seq, ack, now⟩) := by
  have hpos := h.pos
  have hlength := h.length
  have hnonneg := slot_nonneg (c := w.tail) (i := q.length) hpos
  have htail := slot_nonneg (c := w.tail) (i := 1) hpos
  have htail' := slot_lt (c := w.tail) (i := 1) hpos
  have hself : slot w.size w.tail 0 = w.tail := slot_self h.tail.1 h.tail.2
  have hhead : (w.head + 1).tmod w.size = slot w.size w.tail (q.length + 1) := by
    rw [h.head, Int.tmod_eq_emod_of_nonneg (by omega), slot_add]
  have hnext : (w.tail + 1).tmod w.size = slot w.size w.tail 1 :=
    Int.tmod_eq_emod_of_nonneg (by have hlt := h.tail; omega)
  have hfull : slot w.size w.tail (q.length + 1) = w.tail ↔ (q.length : Int) + 1 = w.size := by
    constructor
    · intro heq
      by_contra hne
      have hslot : slot w.size w.tail (q.length + 1) = slot w.size w.tail 0 := heq.trans hself.symm
      rw [slot_inj (by omega)] at hslot
      omega
    · intro heq
      have hcycle := slot_cycle (n := w.size) (c := w.tail) (i := 0)
      rw [zero_add, hself] at hcycle
      rw [heq, hcycle]
  have hentry : ∀ k : Nat, k < q.length + 1 → (q ++ [⟨seq, ack, now⟩])[k]? =
      some ((w.store seq ack now).entry (slot w.size w.tail k)) := by
    intro k hk
    unfold AckWindow.entry AckWindow.store
    by_cases hlast : k = q.length
    · subst hlast
      simp [h.head]
    · have hslot : slot w.size w.tail k ≠ slot w.size w.tail q.length := by
        rw [Ne, slot_inj (by omega)]
        omega
      have hold := h.entry k (by omega)
      rw [List.getElem?_append_left (by omega), hold, h.head]
      simp only [Function.update_of_ne hslot]
      rfl
  unfold push
  by_cases hif : (q.length : Int) + 1 = w.size
  · rw [if_pos hif]
    have hstore : (w.store seq ack now).tail = slot w.size w.tail 1 := by
      simp only [AckWindow.store]
      rw [if_pos (by rw [hhead]; exact hfull.mpr hif), hnext]
    constructor
    · rw [hstore]
      exact ⟨htail, htail'⟩
    · rw [hstore]
      simp only [AckWindow.store]
      rw [hhead, slot_slot]
      simp [add_comm]
    · simp only [AckWindow.store]
      simp
      omega
    · intro k hk
      rw [hstore]
      simp only [AckWindow.store] at *
      rw [slot_slot]
      have hk' : (1 : Int) + k = (k + 1 : Nat) := by omega
      rw [hk', ← hentry (k + 1) (by simpa using hk), List.getElem?_tail]
  · rw [if_neg hif]
    have hstore : (w.store seq ack now).tail = w.tail := by
      simp only [AckWindow.store]
      rw [if_neg (by rw [hhead]; exact mt hfull.mp hif)]
    constructor
    · rw [hstore]
      exact h.tail
    · rw [hstore]
      simp only [AckWindow.store]
      rw [hhead]
      simp
    · simp only [AckWindow.store]
      simp
      omega
    · intro k hk
      rw [hstore]
      exact hentry k (by simpa using hk)

def find (seq : Int) : List Sent → Option (Sent × List Sent)
  | [] => none
  | e :: q => if seq = e.seq then some (e, q) else find seq q

theorem Holds.seek (h : Holds w q) (seq : Int) : ∀ (p p' : List Sent), p ++ p' = q →
    match find seq p' with
    | some (e, q') => ∃ m : Nat, w.seek seq p'.length (w.tail + p.length) = some (w.tail + m) ∧
        m < q.length ∧ q[m]? = some e ∧ q.drop (m + 1) = q'
    | none => w.seek seq p'.length (w.tail + p.length) = none
  | p, [], _ => by simp [find, AckWindow.seek]
  | p, e :: p', hq => by
    have hlt : p.length < q.length := by
      rw [← hq, List.length_append, List.length_cons]
      omega
    have hget : q[p.length]? = some e := by simp [← hq]
    have hentry := h.entry p.length hlt
    rw [hget, Option.some_inj] at hentry
    have htail := h.tail
    have htmod : (w.tail + p.length).tmod w.size = slot w.size w.tail p.length :=
      Int.tmod_eq_emod_of_nonneg (by omega)
    have hseq : w.ackSeqNo ((w.tail + p.length).tmod w.size) = e.seq := by
      rw [htmod, hentry]
      rfl
    rw [List.length_cons, AckWindow.seek, find, hseq]
    by_cases heq : seq = e.seq
    · rw [if_pos heq, if_pos heq]
      exact ⟨p.length, rfl, hlt, hget, by simp [← hq]⟩
    · rw [if_neg heq, if_neg heq]
      have hrest := Holds.seek h seq (p ++ [e]) p' (by simpa using hq)
      simpa [add_assoc] using hrest

/-- Forgetting an entry and those before it. -/
theorem Holds.drop (h : Holds w q) {m : Nat} (hm : m < q.length) :
    Holds { w with tail := slot w.size w.tail (m + 1) } (q.drop (m + 1)) where
  tail := ⟨slot_nonneg h.pos, slot_lt h.pos⟩
  head := by
    rw [slot_slot, List.length_drop, h.head]
    congr 1
    omega
  length := by
    have hlength := h.length
    rw [List.length_drop]
    dsimp only
    omega
  entry k hk := by
    rw [List.length_drop] at hk
    have hentry := h.entry (m + 1 + k) (by omega)
    dsimp only
    rw [slot_slot, List.getElem?_drop, hentry]
    norm_cast

theorem Holds.reset (h : Holds w q) : Holds w.reset [] where
  tail := ⟨le_refl 0, h.pos⟩
  head := (slot_self (le_refl 0) h.pos).symm
  length := by simpa [AckWindow.reset] using h.pos
  entry k hk := absurd hk (by simp)

theorem Holds.acknowledge (h : Holds w q) (seq : Int) (now : Nat) :
    match find seq q with
    | some (e, q') => (w.acknowledge seq now).1 = some (elapsed now e.stamp, e.ack) ∧
        Holds (w.acknowledge seq now).2 q' ∧ (w.acknowledge seq now).2.size = w.size
    | none => w.acknowledge seq now = (none, w) := by
  have hpos := h.pos
  have hlength := h.length
  have htail := h.tail
  have hseek := h.seek seq [] q rfl
  have hhead := h.head
  rw [List.length_nil, Nat.cast_zero, add_zero] at hseek
  -- the numbers from the tail on fill the slots up to the last one, or go on at the first
  have hcount : w.tail ≤ w.head ∧ w.head = w.tail + q.length ∧ w.tail + q.length < w.size ∨
      ¬ w.tail ≤ w.head ∧ w.head + w.size = w.tail + q.length := by
    by_cases hwrap : w.tail + q.length < w.size
    · rw [slot, Int.emod_eq_of_lt (by omega) hwrap] at hhead
      omega
    · rw [slot, ← Int.sub_emod_right, Int.emod_eq_of_lt (by omega) (by omega)] at hhead
      omega
  cases hfind : find seq q with
  | none =>
    simp only [hfind] at hseek
    unfold AckWindow.acknowledge
    rcases hcount with ⟨hle, hhead, hlt⟩ | ⟨hle, hhead⟩
    · have hn : (w.head - w.tail).toNat = q.length := by omega
      simp only [if_pos hle, hn, hseek]
    · have hn : (w.head + w.size - w.tail).toNat = q.length := by omega
      simp only [if_neg hle, hn, hseek]
  | some r =>
    obtain ⟨e, q'⟩ := r
    simp only [hfind] at hseek
    obtain ⟨m, hm, hlt, hget, rfl⟩ := hseek
    have hentry := h.entry m hlt
    rw [hget, Option.some_inj] at hentry
    have hdrop := h.drop hlt
    have hnext : (slot w.size w.tail m + 1).tmod w.size = slot w.size w.tail (m + 1) := by
      have hnonneg := slot_nonneg (c := w.tail) (i := m) hpos
      rw [Int.tmod_eq_emod_of_nonneg (by omega), slot_add]
    dsimp only
    unfold AckWindow.acknowledge
    rcases hcount with ⟨hle, hhead, hend⟩ | ⟨hle, hhead⟩
    · have hn : (w.head - w.tail).toNat = q.length := by omega
      have hslot : slot w.size w.tail m = w.tail + m := Int.emod_eq_of_lt (by omega) (by omega)
      simp only [if_pos hle, hn, hm]
      rw [hslot] at hnext hentry
      refine ⟨by rw [hentry]; rfl, ?_⟩
      split_ifs with hlast
      · have hnil : q.drop (m + 1) = [] := List.drop_eq_nil_of_le (by omega)
        rw [hnil]
        exact ⟨h.reset, rfl⟩
      · rw [hnext]
        exact ⟨hdrop, rfl⟩
    · have hn : (w.head + w.size - w.tail).toNat = q.length := by omega
      have hslot : (w.tail + m).tmod w.size = slot w.size w.tail m :=
        Int.tmod_eq_emod_of_nonneg (by omega)
      have hne : slot w.size w.tail m ≠ w.head := by
        rw [h.head, Ne, slot_inj (by omega)]
        omega
      simp only [if_neg hle, hn, hm, hslot, if_neg hne, hnext]
      exact ⟨by rw [hentry]; rfl, hdrop, trivial⟩

inductive Call where
  | store (seq ack : Int) (now : Nat)
  | acknowledge (seq : Int) (now : Nat)

def call (w : AckWindow) : Call → Option (Int × Int) × AckWindow
  | .store seq ack now => (none, w.store seq ack now)
  | .acknowledge seq now => w.acknowledge seq now

def callQueue (size : Int) (q : List Sent) : Call → Option (Int × Int) × List Sent
  | .store seq ack now => (none, push size q ⟨seq, ack, now⟩)
  | .acknowledge seq now =>
    match find seq q with
    | some (e, q') => (some (elapsed now e.stamp, e.ack), q')
    | none => (none, q)

theorem Holds.call (h : Holds w q) (c : Call) :
    (w.call c).1 = (callQueue w.size q c).1 ∧ Holds (w.call c).2 (callQueue w.size q c).2 ∧
      (w.call c).2.size = w.size := by
  cases c with
  | store seq ack now => exact ⟨rfl, h.store seq ack now, rfl⟩
  | acknowledge seq now =>
    have hack := h.acknowledge seq now
    unfold AckWindow.call callQueue
    cases hfind : find seq q with
    | none =>
      simp only [hfind] at hack ⊢
      simp only [hack]
      exact ⟨trivial, h, trivial⟩
    | some r =>
      obtain ⟨e, q'⟩ := r
      simpa only [hfind] using hack

/-- The window answers every call as a queue would that drops its oldest entry
where there is no room, and with an entry forgets those before it. -/
theorem ackWindow_is_a_queue {size : Int} (hsize : 0 < size) (calls : List Call) :
    (reactions call (new size) calls).1 = (reactions (callQueue size) [] calls).1 ∧
      Holds (reactions call (new size) calls).2 (reactions (callQueue size) [] calls).2 := by
  have hsim : (reactions call (new size) calls).1 = (reactions (callQueue size) [] calls).1 ∧
      Holds (reactions call (new size) calls).2 (reactions (callQueue size) [] calls).2 ∧
        (reactions call (new size) calls).2.size = size := by
    have hall : Permitted (callQueue size) (fun _ _ => True) [] calls :=
      permitted_of_forall fun _ _ => trivial
    apply reactions_sim (fun w q => Holds w q ∧ w.size = size) _ ⟨holds_new hsize, rfl⟩ hall
    rintro w q c ⟨hholds, rfl⟩ -
    exact hholds.call c
  exact ⟨hsim.1, hsim.2.1⟩

theorem ackWindow_is_a_queue_three :
    (reactions call (new 3) [.store 1 70 0, .store 2 80 5, .store 3 90 7, .acknowledge 1 8,
      .acknowledge 3 9, .acknowledge 2 9]).1 =
      [none, none, none, none, some (2, 90), none] :=
  (ackWindow_is_a_queue (by decide) _).1.trans (by decide)

end AckWindow
end NineWire.Udt
