import NineWire.Chain
import NineWire.Udt.LossCells

/-! The receiver's loss list, `CRcvLossList`: ranges of sequence numbers in four
arrays, linked both ways. -/
namespace NineWire.Udt
open NineWire.Ranges NineWire.Ring NineWire.Chain NineWire.Udt.SeqNo

/-- -1 stands for no number in `data1` and `data2`, and for no node elsewhere. -/
structure RcvLossList where
  data1 : Int → Int
  data2 : Int → Int
  next : Int → Int
  prior : Int → Int
  head : Int
  tail : Int
  length : Int
  size : Int

namespace RcvLossList

def new (size : Int) : RcvLossList where
  data1 _ := -1
  data2 _ := -1
  next _ := 0
  prior _ := 0
  head := -1
  tail := -1
  length := 0
  size

def put (l : RcvLossList) (loc seqno1 seqno2 : Int) : RcvLossList :=
  { l with
    data1 := Function.update l.data1 loc seqno1
    data2 := if seqno2 ≠ seqno1 then Function.update l.data2 loc seqno2 else l.data2 }

@[simp] theorem put_size (l : RcvLossList) (loc seqno1 seqno2 : Int) :
    (l.put loc seqno1 seqno2).size = l.size := rfl

@[simp] theorem put_head (l : RcvLossList) (loc seqno1 seqno2 : Int) :
    (l.put loc seqno1 seqno2).head = l.head := rfl

/-- The numbers are larger than all those in the list. -/
def insert (l : RcvLossList) (seqno1 seqno2 : Int) : RcvLossList :=
  if l.length = 0 then
    { l.put 0 seqno1 seqno2 with
      head := 0
      tail := 0
      next := Function.update l.next 0 (-1)
      prior := Function.update l.prior 0 (-1)
      length := l.length + seqlen seqno1 seqno2 }
  else
    let offset := seqoff (l.data1 l.head) seqno1
    let loc := (l.head + offset).tmod l.size
    if l.data2 l.tail ≠ -1 ∧ incseq (l.data2 l.tail) = seqno1 then
      -- coalesce with the prior node
      { l with
        data2 := Function.update l.data2 l.tail seqno2
        length := l.length + seqlen seqno1 seqno2 }
    else
      { l.put loc seqno1 seqno2 with
        next := Function.update (Function.update l.next l.tail loc) loc (-1)
        prior := Function.update l.prior loc l.tail
        tail := loc
        length := l.length + seqlen seqno1 seqno2 }

/-- Without node `loc`, which has a single number. -/
def unlink (l : RcvLossList) (loc : Int) : RcvLossList :=
  let l :=
    if l.head = loc then
      { l with
        head := l.next l.head
        prior := if l.next l.head ≠ -1 then Function.update l.prior (l.next l.head) (-1)
          else l.prior }
    else
      { l with
        next := Function.update l.next (l.prior loc) (l.next loc)
        prior := if l.next loc ≠ -1 then Function.update l.prior (l.next loc) (l.prior loc)
          else l.prior
        tail := if l.next loc ≠ -1 then l.tail else l.prior loc }
  { l with data1 := Function.update l.data1 loc (-1) }

/-- Node `loc` gives up its first number, and is node `i` from then on. -/
def advance (l : RcvLossList) (loc i : Int) : RcvLossList :=
  let next := Function.update l.next i (l.next loc)
  let prior := Function.update l.prior i (l.prior loc)
  { l with
    data1 := Function.update (Function.update l.data1 i (incseq (l.data1 loc))) loc (-1)
    data2 := Function.update
      (if 0 < seqcmp (l.data2 loc) (incseq (l.data1 loc)) then
        Function.update l.data2 i (l.data2 loc)
      else l.data2) loc (-1)
    head := if l.head = loc then i else l.head
    next := if l.head = loc then next else Function.update next (prior i) i
    tail := if l.tail = loc then i else l.tail
    prior := if l.tail = loc then prior else Function.update prior (next i) i }

/-- Where node `i` ends once `seqno`, which is not its first number, is gone. -/
def endBefore (l : RcvLossList) (i seqno : Int) : Int :=
  if seqno = incseq (l.data1 i) then -1 else decseq seqno

/-- Node `i` keeps what is before `seqno`; node `loc` gets what is behind it. -/
def split (l : RcvLossList) (i loc seqno : Int) : RcvLossList :=
  let next := Function.update (Function.update l.next loc (l.next i)) i loc
  let prior := Function.update l.prior loc i
  { l with
    data1 := Function.update l.data1 loc (incseq seqno)
    data2 := Function.update
      (if 0 < seqcmp (l.data2 i) (incseq seqno) then Function.update l.data2 loc (l.data2 i)
      else l.data2) i (l.endBefore i seqno)
    next
    tail := if l.tail = i then loc else l.tail
    prior := if l.tail = i then prior else Function.update prior (next loc) loc }

def previous (l : RcvLossList) : Nat → Int → Int
  | 0, i => i
  | fuel + 1, i => if l.data1 i = -1 then previous l fuel ((i - 1 + l.size).tmod l.size) else i

def rounds (l : RcvLossList) : Nat := l.size.toNat

def remove (l : RcvLossList) (seqno : Int) : Bool × RcvLossList :=
  if l.length = 0 then (false, l)
  else
    let offset := seqoff (l.data1 l.head) seqno
    if offset < 0 then (false, l)
    else
      let loc := (l.head + offset).tmod l.size
      if seqno = l.data1 loc then
        let l' := if l.data2 loc = -1 then l.unlink loc else l.advance loc ((loc + 1).tmod l.size)
        (true, { l' with length := l.length - 1 })
      else
        let i := l.previous l.rounds ((loc - 1 + l.size).tmod l.size)
        if l.data2 i = -1 ∨ 0 < seqcmp seqno (l.data2 i) then (false, l)
        else
          let l' :=
            if seqno = l.data2 i then
              { l with data2 := Function.update l.data2 i (l.endBefore i seqno) }
            else l.split i ((loc + 1).tmod l.size) seqno
          (true, { l' with length := l.length - 1 })

def removeFrom (l : RcvLossList) (seqno : Int) : Nat → RcvLossList
  | 0 => l
  | n + 1 => removeFrom (l.remove seqno).2 (seqno + 1) n

/-- Where the numbers start again at 0, the loop ends before the largest one.
Without that, it must not count up to the largest one: there is no larger `int`. -/
def removeRange (l : RcvLossList) (seqno1 seqno2 : Int) : Option RcvLossList :=
  if seqno1 ≤ seqno2 then
    if seqno2 = maxSeqNo then none else some (l.removeFrom seqno1 (seqno2 - seqno1 + 1).toNat)
  else
    some ((l.removeFrom seqno1 (maxSeqNo - seqno1).toNat).removeFrom 0 (seqno2 + 1).toNat)

def finds (l : RcvLossList) (p seqno1 seqno2 : Int) : Bool :=
  seqcmp (l.data1 p) seqno1 = 0 ∨
    (0 < seqcmp (l.data1 p) seqno1 ∧ seqcmp (l.data1 p) seqno2 ≤ 0) ∨
    (seqcmp (l.data1 p) seqno1 < 0 ∧ l.data2 p ≠ -1 ∧ 0 ≤ seqcmp (l.data2 p) seqno1)

def findFrom (l : RcvLossList) (seqno1 seqno2 : Int) : Nat → Int → Bool
  | 0, _ => false
  | fuel + 1, p =>
    if p ≠ -1 then l.finds p seqno1 seqno2 || findFrom l seqno1 seqno2 fuel (l.next p) else false

def find (l : RcvLossList) (seqno1 seqno2 : Int) : Bool :=
  if l.length = 0 then false else l.findFrom seqno1 seqno2 l.rounds l.head

def getLossLength (l : RcvLossList) : Int := l.length

def getFirstLostSeq (l : RcvLossList) : Int := if l.length = 0 then -1 else l.data1 l.head

def marked (seqno : Int) : Int := seqno - 0x80000000

def lossArrayFrom (l : RcvLossList) (limit : Int) : Nat → Int → List Int → List Int
  | 0, _, array => array
  | fuel + 1, i, array =>
    if (array.length : Int) < limit - 1 ∧ i ≠ -1 then
      lossArrayFrom l limit fuel (l.next i)
        (if l.data2 i ≠ -1 then array ++ [marked (l.data1 i), l.data2 i] else array ++ [l.data1 i])
    else array

def getLossArray (l : RcvLossList) (limit : Int) : List Int :=
  l.lossArrayFrom limit l.rounds l.head []

end RcvLossList
end NineWire.Udt
