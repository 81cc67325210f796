import NineWire.Udt.AckWindow
import NineWire.Udt.LossReport
import NineWire.Udt.RcvBuffer
import NineWire.Udt.SndBuffer

/-! The two halves of a connection, as `CUDT` runs them: the one that sends
messages and is told what came in, and the one that takes them in and tells.
What only decides when something is done (timers, the congestion window, the
round trip times) is a parameter. -/
namespace NineWire.Udt
open NineWire.Udt.SeqNo

/-- The packets of a transfer: `ack` is a full acknowledgement with the free room
it tells of, `ack2` acknowledges one. -/
inductive Wire
  | data (seqNo : Int) (packet : Packet)
  | ack (ackSeqNo ack avail : Int)
  | lightAck (ack : Int)
  | ack2 (ackSeqNo : Int)
  | nak (losslist : List Int)
  | drop (msgno : Nat) (first last : Int)
  deriving DecidableEq

structure Sender where
  sndBuffer : SndBuffer
  sndLossList : SndLossList
  sndLastAck : Int
  sndLastDataAck : Int
  sndCurrSeqNo : Int
  flowWindowSize : Int
  sndBufSize : Int
  payloadSize : Nat
  broken : Bool

namespace Sender

/-- The size of the message where it is taken, as the `int` that C code gets to see. -/
def sendmsg (s : Sender) (data : List UInt8) (msttl : Int) (inorder : Bool) (now : Nat) :
    Int × Sender :=
  if s.broken then (-1, s)
  else if data.length = 0 then (0, s)
  else if s.sndBufSize*s.payloadSize < data.length then (-1, s)
  else if (s.sndBufSize - s.sndBuffer.getCurrBufSize)*s.payloadSize < data.length then (-6001, s)
  else (data.length, { s with sndBuffer := s.sndBuffer.addBuffer data msttl inorder now })

/-- A packet that is lost again goes first, then one that was not sent yet. A message
that is too old is given up. -/
def packData (s : Sender) (congestionWindow : Int) (now : Nat) : Option Wire × Sender :=
  let seqNo := s.sndLossList.getLostSeq.1
  let s := { s with sndLossList := s.sndLossList.getLostSeq.2 }
  if 0 ≤ seqNo then
    let offset := seqoff s.sndLastDataAck seqNo
    if offset < 0 then (none, s)
    else
      match s.sndBuffer.readDataAt offset.toNat now with
      | (.expired msgno msglen, sndBuffer) =>
        let last := incseqBy seqNo msglen
        (some (.drop msgno seqNo last),
          { s with
            sndBuffer
            sndLossList := s.sndLossList.remove last
            sndCurrSeqNo :=
              if seqcmp s.sndCurrSeqNo (incseq last) < 0 then incseq last else s.sndCurrSeqNo })
      | (.found block, sndBuffer) =>
        if block.data.length = 0 then (none, { s with sndBuffer })
        else (some (.data seqNo ⟨block.msgNo, block.data⟩), { s with sndBuffer })
  else
    let cwnd := if s.flowWindowSize < congestionWindow then s.flowWindowSize else congestionWindow
    if seqlen s.sndLastAck (incseq s.sndCurrSeqNo) ≤ cwnd then
      match s.sndBuffer.readData with
      | (some block, sndBuffer) =>
        if block.data.length ≠ 0 then
          let sndCurrSeqNo := incseq s.sndCurrSeqNo
          (some (.data sndCurrSeqNo ⟨block.msgNo, block.data⟩),
            { s with sndBuffer, sndCurrSeqNo })
        else (none, { s with sndBuffer })
      | (none, sndBuffer) => (none, { s with sndBuffer })
    else (none, s)

def processLightAck (s : Sender) (ack : Int) : Sender :=
  if 0 ≤ seqcmp ack s.sndLastAck then
    { s with
      flowWindowSize := s.flowWindowSize - seqoff s.sndLastAck ack
      sndLastAck := ack }
  else s

def acknowledge (s : Sender) (ack : Int) : Sender :=
  let offset := seqoff s.sndLastDataAck ack
  if offset ≤ 0 then s
  else
    { s with
      sndBuffer := s.sndBuffer.ackData offset.toNat
      sndLastDataAck := ack
      sndLossList := s.sndLossList.remove (decseq ack) }

def processAck (s : Sender) (ack avail : Int) : Sender :=
  -- this should not happen: attack or bug
  if 0 < seqcmp ack (incseq s.sndCurrSeqNo) then { s with broken := true }
  else if 0 ≤ seqcmp ack s.sndLastAck then
    acknowledge { s with flowWindowSize := avail, sndLastAck := ack } ack
  else s.acknowledge ack

/-- Nothing where the words of the report end too soon. -/
def processNak (s : Sender) (losslist : List Int) : Option Sender :=
  match LossReport.decode s.sndLastAck s.sndCurrSeqNo losslist s.sndLossList with
  | none => none
  | some (secure, sndLossList) => some { s with sndLossList, broken := s.broken || !secure }

/-- No answer for too long: what is not acknowledged is taken for lost. -/
def expire (s : Sender) : Sender :=
  if 0 < s.sndBuffer.getCurrBufSize ∧ incseq s.sndCurrSeqNo ≠ s.sndLastAck ∧
      s.sndLossList.getLossLength = 0 then
    { s with sndLossList := (s.sndLossList.insert s.sndLastAck s.sndCurrSeqNo).2 }
  else s

end Sender

structure Receiver where
  rcvBuffer : RcvBuffer
  rcvLossList : RcvLossList
  rcvLastAck : Int
  rcvLastAckAck : Int
  rcvCurrSeqNo : Int
  ackSeqNo : Int
  ackWindow : AckWindow

namespace Receiver

/-- A packet behind the largest number so far reports those between as lost. -/
def detectLoss (r : Receiver) (seqNo : Int) : Option Wire × Receiver :=
  if 0 < seqcmp seqNo (incseq r.rcvCurrSeqNo) then
    (some (.nak (LossReport.gapReport r.rcvCurrSeqNo seqNo)),
      { r with rcvLossList := r.rcvLossList.insert (incseq r.rcvCurrSeqNo) (decseq seqNo) })
  else (none, r)

/-- The largest number so far, or else one that is not lost any more. -/
def noteSeqNo (r : Receiver) (seqNo : Int) : Receiver :=
  if 0 < seqcmp seqNo r.rcvCurrSeqNo then { r with rcvCurrSeqNo := seqNo }
  else { r with rcvLossList := (r.rcvLossList.remove seqNo).2 }

def processData (r : Receiver) (seqNo : Int) (packet : Packet) : Option Wire × Receiver :=
  let offset := seqoff r.rcvLastAck seqNo
  if offset < 0 ∨ r.rcvBuffer.getAvailBufSize ≤ offset then (none, r)
  else
    let (added, rcvBuffer) := r.rcvBuffer.addData packet offset
    let r := { r with rcvBuffer }
    if !added then (none, r)
    else
      let (nak, r) := r.detectLoss seqNo
      (nak, r.noteSeqNo seqNo)

def nextAck (r : Receiver) : Int :=
  if r.rcvLossList.getLossLength = 0 then incseq r.rcvCurrSeqNo
  else r.rcvLossList.getFirstLostSeq

def sendLightAck (r : Receiver) : Option Wire :=
  if r.nextAck = r.rcvLastAckAck then none else some (.lightAck r.nextAck)

def maxAckSeqNo : Int := 0x7FFFFFFF

def incack (ackNo : Int) : Int := if ackNo = maxAckSeqNo then 0 else ackNo + 1

def tellAck (r : Receiver) (now : Nat) : Option Wire × Receiver :=
  if 0 < seqcmp r.rcvLastAck r.rcvLastAckAck then
    let ackSeqNo := incack r.ackSeqNo
    -- a minimum flow window of 2 is used, to break potential deadlock
    let avail := if r.rcvBuffer.getAvailBufSize < 2 then 2 else r.rcvBuffer.getAvailBufSize
    (some (.ack ackSeqNo r.rcvLastAck avail),
      { r with ackSeqNo, ackWindow := r.ackWindow.store ackSeqNo r.rcvLastAck now })
  else (none, r)

/-- `recent` where the last acknowledgement went out too short a time ago to repeat it. -/
def sendAck (r : Receiver) (recent : Bool) (now : Nat) : Option Wire × Receiver :=
  let ack := r.nextAck
  if ack = r.rcvLastAckAck then (none, r)
  else if 0 < seqcmp ack r.rcvLastAck then
    let r := { r with
      rcvLastAck := ack
      rcvBuffer := r.rcvBuffer.ackData (seqoff r.rcvLastAck ack) }
    r.tellAck now
  else if ack = r.rcvLastAck then
    if recent then (none, r) else r.tellAck now
  else (none, r)

def processAck2 (r : Receiver) (ackSeqNo : Int) (now : Nat) : Receiver :=
  match r.ackWindow.acknowledge ackSeqNo now with
  | (some (rtt, ack), ackWindow) =>
    { r with
      ackWindow
      rcvLastAckAck :=
        if 0 < rtt ∧ 0 < seqcmp ack r.rcvLastAckAck then ack else r.rcvLastAckAck }
  | (none, ackWindow) => { r with ackWindow }

/-- Nothing where the loop over the numbers overflows. -/
def processDrop (r : Receiver) (msgno : Nat) (first last : Int) : Option Receiver :=
  match r.rcvLossList.removeRange first last with
  | none => none
  | some rcvLossList =>
    some { r with
      rcvBuffer := r.rcvBuffer.dropMsg msgno
      rcvLossList
      rcvCurrSeqNo :=
        if seqcmp first (incseq r.rcvCurrSeqNo) ≤ 0 ∧ 0 < seqcmp last r.rcvCurrSeqNo then last
        else r.rcvCurrSeqNo }

/-- The size of the message that was read, as C code gets to see it, and the message. -/
def recvmsg (r : Receiver) (len : Nat) : Int × List UInt8 × Receiver :=
  if len = 0 then (0, [], r)
  else
    let (data, rcvBuffer) := r.rcvBuffer.readMsg len
    (if data.length = 0 then -6002 else data.length, data, { r with rcvBuffer })

end Receiver
end NineWire.Udt
