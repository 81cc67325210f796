import Mathlib.Logic.Function.Basic
import NineWire.Udt.MsgNo

/-! The receiver's buffer, `CRcvBuffer`: a ring of slots for the packets that came
in, from where the reader is over what is acknowledged to what is not yet. -/
namespace NineWire.Udt

structure Packet where
  msgNo : Nat
  data : List UInt8
  deriving DecidableEq

/-- A unit's packet, and its flag: 0 free, 1 occupied, 2 read but not freed, 3 dropped. -/
structure RcvUnit where
  packet : Packet
  flag : Nat
  deriving DecidableEq

structure RcvBuffer where
  unit : Int → Option RcvUnit
  size : Int
  startPos : Int
  lastAckPos : Int
  maxPos : Int

namespace RcvBuffer

def new (size : Int) : RcvBuffer where
  unit _ := none
  size
  startPos := 0
  lastAckPos := 0
  maxPos := 0

/-- Refused where the slot is taken; how far packets reach is noted even so. -/
def addData (b : RcvBuffer) (packet : Packet) (offset : Int) : Bool × RcvBuffer :=
  let pos := (b.lastAckPos + offset).tmod b.size
  let b := if b.maxPos < offset then { b with maxPos := offset } else b
  if b.unit pos ≠ none then (false, b)
  else (true, { b with unit := Function.update b.unit pos (some { packet, flag := 1 }) })

def ackData (b : RcvBuffer) (len : Int) : RcvBuffer :=
  { b with
    lastAckPos := (b.lastAckPos + len).tmod b.size
    maxPos := if b.maxPos - len < 0 then 0 else b.maxPos - len }

def getRcvDataSize (b : RcvBuffer) : Int :=
  if b.startPos ≤ b.lastAckPos then b.lastAckPos - b.startPos
  else b.size + b.lastAckPos - b.startPos

def getAvailBufSize (b : RcvBuffer) : Int := b.size - b.getRcvDataSize - 1

def after (b : RcvBuffer) (i : Int) : Int := if i + 1 = b.size then 0 else i + 1

def rounds (b : RcvBuffer) : Nat := b.size.toNat + 1

def dropFrom (b : RcvBuffer) (msgno : Nat) (n : Int) : Nat → Int → RcvBuffer
  | 0, _ => b
  | fuel + 1, i =>
    if i ≠ n then
      let b' :=
        match b.unit i with
        | some u =>
          if msgno = u.packet.msgNo then
            { b with unit := Function.update b.unit i (some { u with flag := 3 }) }
          else b
        | none => b
      dropFrom b' msgno n fuel ((i + 1).tmod b.size)
    else b

def dropMsg (b : RcvBuffer) (msgno : Nat) : RcvBuffer :=
  b.dropFrom msgno ((b.lastAckPos + b.maxPos).tmod b.size) b.rounds b.startPos

def whole (b : RcvBuffer) : Nat → Int → Bool
  | 0, _ => true
  | fuel + 1, i =>
    if i ≠ b.lastAckPos then
      match b.unit i with
      | none => false
      | some u =>
        if u.flag ≠ 1 then false
        else if getMsgBoundary u.packet.msgNo = 1 ∨ getMsgBoundary u.packet.msgNo = 3 then true
        else whole b fuel (b.after i)
    else true

def skipBad : Nat → RcvBuffer → RcvBuffer
  | 0, b => b
  | fuel + 1, b =>
    if b.startPos ≠ b.lastAckPos then
      match b.unit b.startPos with
      | none => skipBad fuel { b with startPos := b.after b.startPos }
      | some u =>
        if u.flag = 1 ∧ 1 < getMsgBoundary u.packet.msgNo ∧ b.whole b.rounds b.startPos then b
        else
          skipBad fuel { b with
            unit := Function.update b.unit b.startPos none
            startPos := b.after b.startPos }
    else b

/-- Where the search for a message is: its head or -1, its tail, and whether what
is acknowledged has been passed. -/
structure Scan where
  p : Int
  q : Int
  passack : Bool

/-- What a slot says of the message that is searched for: where its head is, and
whether this is its tail. -/
def look (u : Option RcvUnit) (p q : Int) : Int × Bool :=
  match u with
  | some u =>
    if u.flag = 1 then
      match getMsgBoundary u.packet.msgNo with
      | 3 => (q, true)
      | 2 => (q, false)
      | 1 => (p, p ≠ -1)
      | _ => (p, false)
    -- a hole in this message, restart the search
    else (-1, false)
  | none => (-1, false)

def inOrder (u : Option RcvUnit) : Bool :=
  match u with
  | some u => getMsgOrderFlag u.packet.msgNo
  | none => true

def search (b : RcvBuffer) : Nat → Scan → Bool × Scan
  | 0, s => (false, s)
  | n + 1, s =>
    let (p, found) := look (b.unit s.q) s.p s.q
    if found ∧ (!s.passack || !inOrder (b.unit s.q)) then (true, { s with p })
    else
      let q := b.after s.q
      search b n { p, q, passack := s.passack || q = b.lastAckPos }

def scanMsg (b : RcvBuffer) : Bool × Scan × RcvBuffer :=
  if b.startPos = b.lastAckPos ∧ b.maxPos ≤ 0 then (false, ⟨-1, -1, false⟩, b)
  else
    let b := skipBad b.rounds b
    let (found, s) := b.search (b.maxPos + b.getRcvDataSize + 1).toNat
      { p := -1, q := b.startPos, passack := b.startPos = b.lastAckPos }
    -- if the message is larger than the receiver buffer, return part of the message
    (found || (s.p ≠ -1 && (s.q + 1).tmod b.size = s.p), s, b)

/-- The packets from slot `p` on up to slot `e`, as far as there is room; what was
read is freed, or else marked as read. -/
def copy (passack : Bool) (e : Int) : Nat → Int → Nat → List UInt8 → RcvBuffer → List UInt8 × RcvBuffer
  | 0, _, _, data, b => (data, b)
  | fuel + 1, p, rs, data, b =>
    if p ≠ e then
      let packet := (b.unit p).map (·.packet.data) |>.getD []
      let unit := if passack then (b.unit p).map fun u => { u with flag := 2 } else none
      copy passack e fuel (b.after p) (rs - (packet.take rs).length) (data ++ packet.take rs)
        { b with unit := Function.update b.unit p unit }
    else (data, b)

def readMsg (b : RcvBuffer) (len : Nat) : List UInt8 × RcvBuffer :=
  match b.scanMsg with
  | (false, _, b) => ([], b)
  | (true, s, b) =>
    let e := (s.q + 1).tmod b.size
    let (data, b) := copy s.passack e b.rounds s.p len [] b
    (data, if s.passack then b else { b with startPos := e })

end RcvBuffer
end NineWire.Udt
