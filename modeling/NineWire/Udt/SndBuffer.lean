import Mathlib.Logic.Function.Basic
import NineWire.Udt.MsgNo

/-! The sender's buffer, `CSndBuffer`: blocks linked to a ring, of which those
from the first to the last hold packets. -/
namespace NineWire.Udt

structure Block where
  data : List UInt8
  msgNo : Nat
  originTime : Nat
  ttl : Int
  deriving DecidableEq

/-- Blocks have numbers below `size`; new ones get the next numbers. -/
structure SndBuffer where
  next : Nat → Nat
  block : Nat → Block
  firstBlock : Nat
  currBlock : Nat
  lastBlock : Nat
  nextMsgNo : Nat
  bufferSize : Nat
  size : Nat
  mss : Nat
  count : Int

namespace SndBuffer

def new (size mss : Nat) : SndBuffer where
  next i := if i + 1 < size then i + 1 else 0
  block _ := { data := [], msgNo := 0, originTime := 0, ttl := 0 }
  firstBlock := 0
  currBlock := 0
  lastBlock := 0
  nextMsgNo := 1
  bufferSize := size
  size
  mss
  count := 0

/-- As many new blocks as there were at first, behind the last one. -/
def increase (b : SndBuffer) : SndBuffer :=
  let next i := if b.size ≤ i ∧ i + 1 < b.size + b.bufferSize then i + 1 else b.next i
  { b with
    next := Function.update
      (Function.update next (b.size + b.bufferSize - 1) (b.next b.lastBlock)) b.lastBlock b.size
    size := b.size + b.bufferSize }

def grow (n : Nat) : Nat → SndBuffer → SndBuffer
  | 0, b => b
  | fuel + 1, b => if b.size ≤ n + b.count then grow n fuel b.increase else b

def packet (b : SndBuffer) (data : List UInt8) (ttl : Int) (order : Bool) (now n i : Nat) :
    Block where
  data := (data.drop (i*b.mss)).take b.mss
  msgNo := msgWord b.nextMsgNo order (i = 0) (i + 1 = n)
  originTime := now
  ttl

def fill (packet : Nat → Block) : Nat → Nat → Nat → SndBuffer → SndBuffer
  | 0, _, s, b => { b with lastBlock := s }
  | n + 1, i, s, b =>
    fill packet n (i + 1) (b.next s) { b with block := Function.update b.block s (packet i) }

def packets (mss len : Nat) : Nat := len/mss + if len % mss ≠ 0 then 1 else 0

def append (b : SndBuffer) (n : Nat) (packet : Nat → Block) : SndBuffer :=
  let b' := fill packet n 0 b.lastBlock b
  { b' with
    count := b'.count + n
    nextMsgNo := if b'.nextMsgNo + 1 = maxMsgNo then 1 else b'.nextMsgNo + 1 }

def addBuffer (b : SndBuffer) (data : List UInt8) (ttl : Int) (order : Bool) (now : Nat) :
    SndBuffer :=
  let n := packets b.mss data.length
  let b' := grow n (n + b.count + 1 - b.size).toNat b
  b'.append n (b'.packet data ttl order now n)

def readData (b : SndBuffer) : Option Block × SndBuffer :=
  if b.currBlock = b.lastBlock then (none, b)
  else (some (b.block b.currBlock), { b with currBlock := b.next b.currBlock })

def ahead (b : SndBuffer) : Nat → Nat → Nat
  | 0, p => p
  | n + 1, p => ahead b n (b.next p)

/-- What a look at a packet says: it, or that its message `msgno` is too old, and
how many blocks there are of that. -/
inductive Look where
  | found (block : Block)
  | expired (msgno msglen : Nat)
  deriving DecidableEq

def skip (msgno : Nat) : Nat → Nat → Nat → Bool → SndBuffer → Nat × SndBuffer
  | 0, _, msglen, _, b => (msglen, b)
  | fuel + 1, p, msglen, move, b =>
    if msgno = getMsgSeq (b.block p).msgNo then
      let move := move || p = b.currBlock
      skip msgno fuel (b.next p) (msglen + 1) move
        (if move then { b with currBlock := b.next p } else b)
    else (msglen, b)

def readDataAt (b : SndBuffer) (offset now : Nat) : Look × SndBuffer :=
  let p := b.ahead offset b.firstBlock
  if 0 ≤ (b.block p).ttl ∧ (b.block p).ttl < ((now - (b.block p).originTime)/1000 : Nat) then
    let msgno := getMsgSeq (b.block p).msgNo
    let (msglen, b') := skip msgno b.size (b.next p) 1 false b
    (.expired msgno msglen, b')
  else (.found (b.block p), b)

def ackData (b : SndBuffer) (offset : Nat) : SndBuffer :=
  { b with firstBlock := b.ahead offset b.firstBlock, count := b.count - offset }

def getCurrBufSize (b : SndBuffer) : Int := b.count

end SndBuffer
end NineWire.Udt
