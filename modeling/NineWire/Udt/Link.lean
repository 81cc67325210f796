import NineWire.Refinement
import NineWire.Udt.Transfer

/-! A sender, a receiver and the packets between them, which may get lost, come
twice and overtake each other. What it is for is a pipe of messages. -/
namespace NineWire.Udt
open NineWire.Refinement NineWire.Udt.SeqNo

/-- What two ends agree on when they connect: the first sequence number and the
sizes, in packets but for that of a packet. The sender is told a flow window of the
size of the receive buffer, or of the flight flag size where it is told late. -/
structure Terms where
  isn : Int
  payloadSize : Nat
  sndBufSize : Int
  window : Int
  rcvBufSize : Int
  flightFlagSize : Int
  isn_nonneg : 0 ≤ isn
  isn_le : isn ≤ maxSeqNo
  payload_pos : 0 < payloadSize
  rcv_min : 32 ≤ rcvBufSize
  rcv_le : rcvBufSize ≤ window
  window_le : window ≤ flightFlagSize
  flight_lt : flightFlagSize < 0x10000000

theorem Terms.window_pos (c : Terms) : 0 < c.window := by
  have hmin := c.rcv_min
  have hrcv := c.rcv_le
  omega

/-- All packets that were ever sent, each with the number of new data packets
there were until then. -/
structure Link where
  snd : Sender
  rcv : Receiver
  net : List (Nat × Wire)
  sent : Nat

namespace Link

def new (c : Terms) : Link where
  snd :=
    { sndBuffer := .new 32 c.payloadSize
      sndLossList := .new (c.window*2)
      sndLastAck := c.isn
      sndLastDataAck := c.isn
      sndCurrSeqNo := c.isn - 1
      flowWindowSize := c.window
      sndBufSize := c.sndBufSize
      payloadSize := c.payloadSize
      broken := false }
  rcv :=
    { rcvBuffer := .new c.rcvBufSize
      rcvLossList := .new c.flightFlagSize
      rcvLastAck := c.isn
      rcvLastAckAck := c.isn
      rcvCurrSeqNo := c.isn - 1
      ackSeqNo := 0
      ackWindow := .new 1024 }
  net := []
  sent := 0

inductive Action
  | sendmsg (data : List UInt8) (now : Nat)
  | packData (congestionWindow : Int) (now : Nat)
  | expire
  | sendLightAck
  | sendAck (recent : Bool) (now : Nat)
  | recvmsg (len : Nat)
  /-- Packet `i` comes in, and a full acknowledgement is acknowledged or not. -/
  | deliver (i : Nat) (reply : Bool) (now : Nat)

/-- What the ends' users see: messages that were taken and read, and that the
sender is broken or the code does what C++ does not define. -/
inductive Event
  | quiet
  | sent (data : List UInt8)
  | received (len : Nat) (data : List UInt8)
  | broken
  | undefined
  deriving DecidableEq

def post (l : Link) : Option Wire → Link
  | none => l
  | some w => { l with net := l.net ++ [(l.sent, w)] }

def deliverSnd (l : Link) (w : Wire) (reply : Bool) : Event × Link :=
  match w with
  | .ack ackSeqNo ack avail =>
    let snd := l.snd.processAck ack avail
    (if snd.broken then .broken else .quiet,
      { l with snd }.post (if reply then some (.ack2 ackSeqNo) else none))
  | .lightAck ack => (.quiet, { l with snd := l.snd.processLightAck ack })
  | .nak losslist =>
    match l.snd.processNak losslist with
    | some snd => (if snd.broken then .broken else .quiet, { l with snd })
    | none => (.undefined, l)
  | _ => (.quiet, l)

def deliverRcv (l : Link) (w : Wire) (now : Nat) : Event × Link :=
  match w with
  | .data seqNo packet =>
    (.quiet, { l with rcv := (l.rcv.processData seqNo packet).2 }.post
      (l.rcv.processData seqNo packet).1)
  | .ack2 ackSeqNo => (.quiet, { l with rcv := l.rcv.processAck2 ackSeqNo now })
  | .drop msgno first last =>
    match l.rcv.processDrop msgno first last with
    | some rcv => (.quiet, { l with rcv })
    | none => (.undefined, l)
  | _ => (.quiet, l)

def deliver (l : Link) (w : Wire) (reply : Bool) (now : Nat) : Event × Link :=
  match w with
  | .data .. | .ack2 .. | .drop .. => l.deliverRcv w now
  | .ack .. | .lightAck .. | .nak .. => l.deliverSnd w reply

/-- A packet counts as new when it has a new sequence number. -/
def packData (l : Link) (congestionWindow : Int) (now : Nat) : Link :=
  let (wire, snd) := l.snd.packData congestionWindow now
  { l with
    snd
    sent := if snd.sndCurrSeqNo = l.snd.sndCurrSeqNo then l.sent else l.sent + 1 }.post wire

/-- Messages are sent without a time to live, to be read in order. -/
def react (l : Link) : Action → Event × Link
  | .sendmsg data now =>
    let (size, snd) := l.snd.sendmsg data (-1) true now
    (if 0 < size then .sent data else .quiet, { l with snd })
  | .packData congestionWindow now => (.quiet, l.packData congestionWindow now)
  | .expire => (.quiet, { l with snd := l.snd.expire })
  | .sendLightAck => (.quiet, l.post l.rcv.sendLightAck)
  | .sendAck recent now =>
    let (wire, rcv) := l.rcv.sendAck recent now
    (.quiet, { l with rcv }.post wire)
  | .recvmsg len =>
    let (size, data, rcv) := l.rcv.recvmsg len
    (if 0 < size then .received len data else .quiet, { l with rcv })
  | .deliver i reply now =>
    match l.net[i]? with
    | some (_, w) => l.deliver w reply now
    | none => (.quiet, l)

/-- The number of new packets after which no packet is still on its way: a quarter of
the 2^31 sequence numbers. -/
def lifetime : Nat := 0x20000000

/-- The network keeps no packet while more than `lifetime` new ones are sent. -/
def Fresh (l : Link) : Action → Prop
  | .deliver i _ _ =>
    match l.net[i]? with
    | some (m, _) => l.sent ≤ m + lifetime
    | none => False
  | _ => True

instance (l : Link) : (a : Action) → Decidable (l.Fresh a)
  | .deliver i _ _ =>
    match h : l.net[i]? with
    | some (m, _) => decidable_of_iff (l.sent ≤ m + lifetime) (by simp [Fresh, h])
    | none => .isFalse (by simp [Fresh, h])
  | .sendmsg .. | .packData .. | .expire | .sendLightAck | .sendAck .. | .recvmsg .. =>
    .isTrue trivial

end Link

/-- A pipe of messages: each is read once, in the order they were sent, as far as
there is room for it. -/
inductive Pipe : List (List UInt8) → Link.Event → List (List UInt8) → Prop
  | quiet (ms : List (List UInt8)) : Pipe ms .quiet ms
  | sent (ms : List (List UInt8)) (m : List UInt8) : Pipe ms (.sent m) (ms ++ [m])
  | received (ms : List (List UInt8)) (m : List UInt8) (len : Nat) :
    Pipe (m :: ms) (.received len (m.take len)) ms

end NineWire.Udt
