import Mathlib.Tactic.Common

/-! Sequence numbers of packets, which start again at 0 behind 2^31 - 1: the
functions of `CSeqNo`, and what they compute of two numbers that stand for
indices less than a quarter of the circle apart. -/
namespace NineWire.Udt.SeqNo

def maxSeqNo : Int := 0x7FFFFFFF
def seqNoTH : Nat := 0x3FFFFFFF

def seqcmp (seq1 seq2 : Int) : Int :=
  if (seq1 - seq2).natAbs < seqNoTH then seq1 - seq2 else seq2 - seq1

def seqlen (seq1 seq2 : Int) : Int :=
  if seq1 ≤ seq2 then seq2 - seq1 + 1 else seq2 - seq1 + maxSeqNo + 2

def seqoff (seq1 seq2 : Int) : Int :=
  if (seq1 - seq2).natAbs < seqNoTH then seq2 - seq1
  else if seq1 < seq2 then seq2 - seq1 - maxSeqNo - 1
  else seq2 - seq1 + maxSeqNo + 1

def incseq (seq : Int) : Int := if seq = maxSeqNo then 0 else seq + 1

def decseq (seq : Int) : Int := if seq = 0 then maxSeqNo else seq - 1

def incseqBy (seq inc : Int) : Int :=
  if inc ≤ maxSeqNo - seq then seq + inc else seq - maxSeqNo + inc - 1

def num (i : Int) : Int := i % 2147483648

/-- Indices that their sequence numbers still tell apart. -/
def Near (i j : Int) : Prop := (i - j).natAbs < seqNoTH

instance {i j : Int} : Decidable (Near i j) :=
  inferInstanceAs (Decidable ((i - j).natAbs < seqNoTH))

variable {i j k s : Int}

theorem near_of_lt (h : -seqNoTH < i - j) (h' : i - j < seqNoTH) : Near i j := by
  simp only [Near]
  omega

theorem Near.symm (h : Near i j) : Near j i := by
  simp only [Near] at *
  omega

theorem num_nonneg (i : Int) : 0 ≤ num i := by
  simp only [num]
  omega

theorem num_le (i : Int) : num i ≤ maxSeqNo := by
  simp only [num, maxSeqNo]
  omega

theorem num_ne (i : Int) : num i ≠ -1 := by
  have h := num_nonneg i
  omega

theorem num_of_le (h : 0 ≤ s) (h' : s ≤ maxSeqNo) : num s = s := by
  simp only [num, maxSeqNo] at *
  omega

theorem num_inj (h : Near i j) : num i = num j ↔ i = j := by
  simp only [Near, num, seqNoTH] at *
  omega

theorem seqoff_num (h : Near i j) : seqoff (num i) (num j) = j - i := by
  simp only [Near, seqoff, num, seqNoTH, maxSeqNo] at *
  split_ifs <;> omega

theorem seqcmp_pos (h : Near i j) : 0 < seqcmp (num i) (num j) ↔ j < i := by
  simp only [Near, seqcmp, num, seqNoTH] at *
  split_ifs <;> omega

theorem seqcmp_neg (h : Near i j) : seqcmp (num i) (num j) < 0 ↔ i < j := by
  simp only [Near, seqcmp, num, seqNoTH] at *
  split_ifs <;> omega

theorem seqcmp_nonneg (h : Near i j) : 0 ≤ seqcmp (num i) (num j) ↔ j ≤ i := by
  have hneg := seqcmp_neg h
  omega

theorem seqcmp_nonpos (h : Near i j) : seqcmp (num i) (num j) ≤ 0 ↔ i ≤ j := by
  have hpos := seqcmp_pos h
  omega

theorem seqlen_num (h : i ≤ j) (h' : j - i < seqNoTH) : seqlen (num i) (num j) = j - i + 1 := by
  simp only [seqlen, num, seqNoTH, maxSeqNo] at *
  split_ifs <;> omega

theorem incseq_num (i : Int) : incseq (num i) = num (i + 1) := by
  simp only [incseq, num, maxSeqNo]
  split_ifs <;> omega

theorem decseq_num (i : Int) : decseq (num i) = num (i - 1) := by
  simp only [decseq, num, maxSeqNo]
  split_ifs <;> omega

/-- `v` is the number of index `i`, or else the -1 that stands in front of number 0
before there was a packet. -/
def Stands (v i : Int) : Prop := v = num i ∨ v = -1 ∧ i = -1

variable {v : Int}

theorem stands_pred (h : 0 ≤ s) (h' : s ≤ maxSeqNo) : Stands (s - 1) (s - 1) := by
  simp only [Stands, num, maxSeqNo] at *
  omega

theorem Stands.num (h : Stands v i) (hi : 0 ≤ i) : v = num i := by
  rcases h with h | ⟨-, h⟩
  · exact h
  · omega

theorem Stands.incseq (h : Stands v i) : incseq v = SeqNo.num (i + 1) := by
  rcases h with rfl | ⟨rfl, rfl⟩
  · exact incseq_num i
  · decide

theorem Stands.num_ne (h : Stands v i) : SeqNo.num (i + 1) ≠ v := by
  rcases h with rfl | ⟨rfl, rfl⟩
  · simp only [SeqNo.num]
    omega
  · decide

theorem Stands.seqcmp_pos (h : Stands v i) (hnear : Near j i) :
    0 < seqcmp (SeqNo.num j) v ↔ i < j := by
  rcases h with rfl | ⟨rfl, rfl⟩
  · exact SeqNo.seqcmp_pos hnear
  · simp only [Near, seqcmp, SeqNo.num, seqNoTH] at *
    split_ifs <;> omega

end NineWire.Udt.SeqNo
