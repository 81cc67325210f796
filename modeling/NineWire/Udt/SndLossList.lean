import NineWire.Chain
import NineWire.Udt.LossCells

/-! The sender's loss list, `CSndLossList`: ranges of sequence numbers in three
arrays, linked from the first to the last, and the set that they come to. -/
namespace NineWire.Udt
open NineWire.Ranges NineWire.Ring NineWire.Chain NineWire.Udt.SeqNo

/-- -1 stands for no number in `data1` and `data2`, and for no node elsewhere. -/
structure SndLossList where
  data1 : Int → Int
  data2 : Int → Int
  next : Int → Int
  head : Int
  length : Int
  size : Int
  lastInsertPos : Int

namespace SndLossList

def new (size : Int) : SndLossList where
  data1 _ := -1
  data2 _ := -1
  next _ := 0
  head := -1
  length := 0
  size
  lastInsertPos := -1

def put (l : SndLossList) (loc seqno1 seqno2 : Int) : SndLossList :=
  { l with
    data1 := Function.update l.data1 loc seqno1
    data2 := if seqno2 ≠ seqno1 then Function.update l.data2 loc seqno2 else l.data2 }

def insertEmpty (l : SndLossList) (seqno1 seqno2 : Int) : SndLossList :=
  { l.put 0 seqno1 seqno2 with
    head := 0
    next := Function.update l.next 0 (-1)
    lastInsertPos := 0
    length := l.length + seqlen seqno1 seqno2 }

def widen (l : SndLossList) (loc seqno1 seqno2 : Int) : Option Int × SndLossList :=
  if l.data2 loc = -1 then
    if seqno2 ≠ seqno1 then
      (some loc, { l with
        length := l.length + (seqlen seqno1 seqno2 - 1)
        data2 := Function.update l.data2 loc seqno2 })
    else (some loc, l)
  else if 0 < seqcmp seqno2 (l.data2 loc) then
    (some loc, { l with
      length := l.length + (seqlen (l.data2 loc) seqno2 - 1)
      data2 := Function.update l.data2 loc seqno2 })
  else (none, l)

def prior (l : SndLossList) (seqno : Int) : Nat → Int → Int
  | 0, i => i
  | fuel + 1, i =>
    if l.next i ≠ -1 ∧ seqcmp (l.data1 (l.next i)) seqno < 0 then prior l seqno fuel (l.next i)
    else i

def rounds (l : SndLossList) : Nat := l.size.toNat

/-- Behind node `i`: as a node of its own, or coalesced with `i`. -/
def insertAfter (l : SndLossList) (i loc seqno1 seqno2 : Int) : Option Int × SndLossList :=
  if l.data2 i = -1 ∨ seqcmp (l.data2 i) seqno1 < 0 then
    (some loc, { l.put loc seqno1 seqno2 with
      lastInsertPos := loc
      next := Function.update (Function.update l.next loc (l.next i)) i loc
      length := l.length + seqlen seqno1 seqno2 })
  else if seqcmp (l.data2 i) seqno2 < 0 then
    (some i, { l with
      lastInsertPos := i
      length := l.length + (seqlen (l.data2 i) seqno2 - 1)
      data2 := Function.update l.data2 i seqno2 })
  else (none, { l with lastInsertPos := i })

/-- The node that the numbers are in afterwards; none if they were there already. -/
def place (l : SndLossList) (seqno1 seqno2 : Int) : Option Int × SndLossList :=
  let offset := seqoff (l.data1 l.head) seqno1
  let loc := (l.head + offset + l.size).tmod l.size
  if offset < 0 then
    (some loc, { l.put loc seqno1 seqno2 with
      next := Function.update l.next loc l.head
      head := loc
      lastInsertPos := loc
      length := l.length + seqlen seqno1 seqno2 })
  else if 0 < offset then
    if seqno1 = l.data1 loc then { l with lastInsertPos := loc }.widen loc seqno1 seqno2
    else
      let i :=
        if l.lastInsertPos ≠ -1 ∧ seqcmp (l.data1 l.lastInsertPos) seqno1 < 0 then l.lastInsertPos
        else l.head
      l.insertAfter (l.prior seqno1 l.rounds i) loc seqno1 seqno2
  else
    let l := { l with lastInsertPos := l.head }
    if seqno2 ≠ seqno1 then l.widen loc seqno1 seqno2 else (none, l)

/-- Where node `loc` ends with the numbers of node `i` behind it, and how many
numbers there are then: they may overlap, or only touch. -/
def joined (l : SndLossList) (loc i : Int) : Int × Int :=
  if l.data2 i ≠ -1 then
    if 0 < seqcmp (l.data2 i) (l.data2 loc) then
      (l.data2 i,
        if 0 ≤ seqcmp (l.data2 loc) (l.data1 i) then l.length - seqlen (l.data1 i) (l.data2 loc)
        else l.length)
    else (l.data2 loc, l.length - seqlen (l.data1 i) (l.data2 i))
  else if l.data1 i = incseq (l.data2 loc) then (l.data1 i, l.length)
  else (l.data2 loc, l.length - 1)

def merge (l : SndLossList) (loc i : Int) : SndLossList :=
  { l with
    data1 := Function.update l.data1 i (-1)
    data2 := Function.update (Function.update l.data2 loc (l.joined loc i).1) i (-1)
    next := Function.update l.next loc (l.next i)
    length := (l.joined loc i).2 }

def coalesce (loc : Int) : Nat → SndLossList → SndLossList
  | 0, l => l
  | fuel + 1, l =>
    if l.next loc ≠ -1 ∧ l.data2 loc ≠ -1 then
      if seqcmp (l.data1 (l.next loc)) (incseq (l.data2 loc)) ≤ 0 then
        coalesce loc fuel (l.merge loc (l.next loc))
      else l
    else l

def insert (l : SndLossList) (seqno1 seqno2 : Int) : Int × SndLossList :=
  if l.length = 0 then
    let l' := l.insertEmpty seqno1 seqno2
    (l'.length, l')
  else
    match l.place seqno1 seqno2 with
    | (none, l') => (0, l')
    | (some loc, l') =>
      let l'' := coalesce loc l'.rounds l'
      (l''.length - l.length, l'')

def behead (l : SndLossList) (seqno : Int) : SndLossList :=
  let loc := (l.head + 1).tmod l.size
  let l' :=
    if l.data2 l.head = -1 then
      { l with data1 := Function.update l.data1 l.head (-1), head := l.next l.head }
    else
      { l with
        data1 := Function.update (Function.update l.data1 loc (incseq seqno)) l.head (-1)
        data2 := Function.update
          (if 0 < seqcmp (l.data2 l.head) (incseq seqno) then
            Function.update l.data2 loc (l.data2 l.head)
          else l.data2) l.head (-1)
        next := Function.update l.next loc (l.next l.head)
        head := loc }
  { l' with
    lastInsertPos := if l.lastInsertPos = l.head then -1 else l.lastInsertPos
    length := l.length - 1 }

/-- Node `i` keeps the numbers up to `seqno`; what is behind them, at `loc`, or
else the next node, becomes the head. -/
def cutAt (l : SndLossList) (i loc seqno last : Int) : SndLossList :=
  { l with
    data1 := Function.update l.data1 loc (incseq seqno)
    data2 := Function.update
      (if 0 < seqcmp (l.data2 i) (incseq seqno) then Function.update l.data2 loc (l.data2 i)
      else l.data2) i last
    next := Function.update (Function.update l.next loc (l.next i)) i loc
    head := loc }

def cut (l : SndLossList) (loc seqno : Int) : SndLossList :=
  let loc' := (loc + 1).tmod l.size
  if seqno = l.data1 loc then
    if l.data2 loc = -1 then { l with head := l.next loc } else l.cutAt loc loc' seqno (-1)
  else
    let i := l.prior seqno l.rounds l.head
    if l.data2 i = -1 then { l with head := l.next i }
    else if 0 < seqcmp (l.data2 i) seqno then l.cutAt i loc' seqno seqno
    else { l with head := l.next i }

def dropTo : Nat → Int → SndLossList → SndLossList
  | 0, _, l => l
  | fuel + 1, h, l =>
    if h ≠ l.head then
      dropTo fuel (l.next h) { l with
        data1 := Function.update l.data1 h (-1)
        data2 := if l.data2 h ≠ -1 then Function.update l.data2 h (-1) else l.data2
        length :=
          if l.data2 h ≠ -1 then l.length - seqlen (l.data1 h) (l.data2 h) else l.length - 1
        lastInsertPos := if l.lastInsertPos = h then -1 else l.lastInsertPos }
    else l

def remove (l : SndLossList) (seqno : Int) : SndLossList :=
  if l.length = 0 then l
  else
    let offset := seqoff (l.data1 l.head) seqno
    let loc := (l.head + offset + l.size).tmod l.size
    if offset = 0 then l.behead seqno
    else if 0 < offset then dropTo l.rounds l.head (l.cut loc seqno)
    else l

def getLossLength (l : SndLossList) : Int := l.length

def getLostSeq (l : SndLossList) : Int × SndLossList :=
  if l.length = 0 then (-1, l)
  else (l.data1 l.head, l.behead (l.data1 l.head))

end SndLossList
end NineWire.Udt
