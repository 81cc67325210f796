import Mathlib.Logic.Function.Basic
import NineWire.Udt.Link

/-! Two sockets that connect to each other in rendezvous mode, each by its own
requests, and then send messages both ways. What they are for is a pipe in each
direction. -/
namespace NineWire.Udt.Rendezvous

inductive Peer
  | left
  | right
  deriving DecidableEq

def Peer.other : Peer → Peer
  | .left => .right
  | .right => .left

/-- Sizes in packets, as `setOpt` leaves them. -/
structure Options where
  flightFlagSize : Int
  sndBufSize : Int
  rcvBufSize : Int
  rcv_min : 32 ≤ rcvBufSize
  rcv_le : rcvBufSize ≤ flightFlagSize
  flight_lt : flightFlagSize < 0x10000000

/-- Both sockets, before they connect. Their packets have the same size. -/
structure Setup where
  mss : Nat
  options : Peer → Options
  isn : Peer → Int
  socketID : Peer → Int
  mss_min : 96 ≤ mss
  isn_nonneg : ∀ x, 0 ≤ isn x
  isn_le : ∀ x, isn x ≤ SeqNo.maxSeqNo
  id_pos : ∀ x, 0 < socketID x

/-- What is read of a handshake. Requests are 0 and then -1, and -2 answers those
that come to a socket which is connected. -/
structure HandShake where
  type : Int
  isn : Int
  mss : Int
  flightFlagSize : Int
  reqType : Int
  id : Int
  deriving DecidableEq

def HandShake.blank : HandShake := ⟨0, 0, 0, 0, 0, 0⟩

def dgram : Int := 2

inductive Body
  | handShake (hs : HandShake)
  | keepAlive
  | transfer (w : Wire)
  deriving DecidableEq

/-- `id` is that of the socket it is for, or 0 for one that waits for a request. -/
structure Datagram where
  dest : Peer
  id : Int
  body : Body

/-- The end whose messages a packet is about. -/
def Datagram.flow (d : Datagram) : Option (Peer × Wire) :=
  match d.body with
  | .transfer w =>
    match w with
    | .data .. | .ack2 .. | .drop .. => some (d.dest.other, w)
    | .ack .. | .lightAck .. | .nak .. => some (d.dest, w)
  | _ => none

/-- One socket. It has both halves of a transfer once it is connected. -/
structure End where
  options : Options
  mss : Int
  isn : Int
  socketID : Int
  peerID : Int
  connecting : Bool
  connReq : HandShake
  connRes : HandShake
  halves : Option (Sender × Receiver)

namespace End

def connect (setup : Setup) (x : Peer) : End :=
  let o := setup.options x
  { options := o
    mss := setup.mss
    isn := setup.isn x
    socketID := setup.socketID x
    peerID := 0
    connecting := true
    connReq :=
      { type := dgram
        isn := setup.isn x
        mss := setup.mss
        flightFlagSize :=
          if o.rcvBufSize < o.flightFlagSize then o.rcvBufSize else o.flightFlagSize
        reqType := 0
        id := setup.socketID x }
    connRes := .blank
    halves := none }

/-- `POST_CONNECT` takes over what the last response tells. -/
def postConnect (e : End) : End :=
  let payloadSize := (e.connRes.mss - 48 - 16).toNat
  { e with
    connecting := false
    mss := e.connRes.mss
    peerID := e.connRes.id
    halves := some (
      { sndBuffer := .new 32 payloadSize
        sndLossList := .new (e.connRes.flightFlagSize*2)
        sndLastAck := e.isn
        sndLastDataAck := e.isn
        sndCurrSeqNo := e.isn - 1
        flowWindowSize := e.connRes.flightFlagSize
        sndBufSize := e.options.sndBufSize
        payloadSize
        broken := false },
      { rcvBuffer := .new e.options.rcvBufSize
        rcvLossList := .new e.options.flightFlagSize
        rcvLastAck := e.connRes.isn
        rcvLastAckAck := e.connRes.isn
        rcvCurrSeqNo := e.connRes.isn - 1
        ackSeqNo := 0
        ackWindow := .new 1024 }) }

def take (e : End) (hs : HandShake) : End := { e with connRes := hs }

def ask (e : End) : End := { e with connReq := { e.connReq with reqType := -1 } }

/-- The second half of `connect`: 0 when it is connected, 1 when it takes another
handshake. After -1 the call returns as if it were connected. -/
def connectResponse (e : End) (body : Body) : Int × End :=
  if !e.connecting then (-1, e)
  else
    match body with
    | .handShake hs =>
      let e := e.take hs
      if hs.reqType = 1 then (-1, e)
      else if e.connReq.reqType = 0 ∨ hs.reqType = 0 then (1, e.ask)
      else (0, e.postConnect)
    -- the other end is connected then, so that its last handshake will do
    | .keepAlive | .transfer (.data ..) =>
      if e.connRes.type ≠ 0 then (0, e.postConnect) else (-1, e)
    | .transfer _ => (-1, e)

def processHandShake (e : End) (hs : HandShake) : Option HandShake :=
  if 0 < hs.reqType ∨ hs.reqType ≠ -2 then
    some
      { type := 0
        isn := e.isn
        mss := e.mss
        flightFlagSize := e.options.flightFlagSize
        reqType := -2
        id := e.socketID }
  else none

end End

/-- All packets that were ever sent, each with the numbers of new data packets
there were from both ends until then. -/
structure Pair where
  ends : Peer → End
  net : List ((Peer → Nat) × Datagram)
  sent : Peer → Nat

inductive Action
  | request (x : Peer)
  /-- The time to connect is over. -/
  | giveUp (x : Peer)
  | sendmsg (x : Peer) (data : List UInt8) (now : Nat)
  | recvmsg (x : Peer) (len : Nat)
  | packData (x : Peer) (congestionWindow : Int) (now : Nat)
  | expire (x : Peer)
  | sendLightAck (x : Peer)
  | sendAck (x : Peer) (recent : Bool) (now : Nat)
  /-- Packet `i` comes in, and a full acknowledgement is acknowledged or not. -/
  | deliver (i : Nat) (reply : Bool) (now : Nat)

/-- What happens to the messages of an end, or that a call of `connect` ends without
a connection. -/
inductive Event
  | flow (x : Peer) (e : Link.Event)
  | failed (x : Peer)
  deriving DecidableEq

namespace Pair

def new (setup : Setup) : Pair where
  ends := End.connect setup
  net := []
  sent _ := 0

def setEnd (s : Pair) (x : Peer) (e : End) : Pair := { s with ends := Function.update s.ends x e }

def setHalves (s : Pair) (x : Peer) (snd : Sender) (rcv : Receiver) : Pair :=
  s.setEnd x { s.ends x with halves := some (snd, rcv) }

def post (s : Pair) (x : Peer) (id : Int) (body : Body) : Pair :=
  { s with net := s.net ++ [(s.sent, ⟨x.other, id, body⟩)] }

def count (s : Pair) (x : Peer) (new : Bool) : Pair :=
  { s with sent := if new then Function.update s.sent x (s.sent x + 1) else s.sent }

def transmit (s : Pair) (x : Peer) : Option Wire → Pair
  | none => s
  | some w => s.post x (s.ends x).peerID (.transfer w)

/-- A packet for a socket that is not connected, which `connect` gets to see. -/
def meet (s : Pair) (x : Peer) (body : Body) : Event × Pair :=
  let (code, e) := (s.ends x).connectResponse body
  (if code < 0 then .failed x else .flow x .quiet, s.setEnd x e)

def process (s : Pair) (x : Peer) (snd : Sender) (rcv : Receiver) (w : Wire) (reply : Bool)
    (now : Nat) : Event × Pair :=
  match w with
  | .data seqNo packet =>
    let (nak, rcv) := rcv.processData seqNo packet
    (.flow x.other .quiet, (s.setHalves x snd rcv).transmit x nak)
  | .ack2 ackSeqNo => (.flow x.other .quiet, s.setHalves x snd (rcv.processAck2 ackSeqNo now))
  | .drop msgno first last =>
    match rcv.processDrop msgno first last with
    | some rcv => (.flow x.other .quiet, s.setHalves x snd rcv)
    | none => (.flow x.other .undefined, s)
  | .ack ackSeqNo ack avail =>
    let snd := snd.processAck ack avail
    (.flow x (if snd.broken then .broken else .quiet),
      (s.setHalves x snd rcv).transmit x (if reply then some (.ack2 ackSeqNo) else none))
  | .lightAck ack => (.flow x .quiet, s.setHalves x (snd.processLightAck ack) rcv)
  | .nak losslist =>
    match snd.processNak losslist with
    | some snd => (.flow x (if snd.broken then .broken else .quiet), s.setHalves x snd rcv)
    | none => (.flow x .undefined, s)

/-- How the receive queue's worker finds the socket for a packet. -/
def arrive (s : Pair) (d : Datagram) (reply : Bool) (now : Nat) : Event × Pair :=
  let e := s.ends d.dest
  match e.halves with
  | some (snd, rcv) =>
    if d.id ≠ e.socketID then (.flow d.dest .quiet, s)
    else
      match d.body with
      | .handShake hs =>
        match e.processHandShake hs with
        | some res => (.flow d.dest .quiet, s.post d.dest e.peerID (.handShake res))
        | none => (.flow d.dest .quiet, s)
      | .keepAlive => (.flow d.dest .quiet, s)
      | .transfer w => s.process d.dest snd rcv w reply now
  | none =>
    if e.connecting ∧ (d.id = 0 ∨ d.id = e.socketID) then s.meet d.dest d.body
    else (.flow d.dest .quiet, s)

def onHalves (s : Pair) (x : Peer) (call : Sender → Receiver → Event × Pair) : Event × Pair :=
  match (s.ends x).halves with
  | some (snd, rcv) => call snd rcv
  | none => (.flow x .quiet, s)

/-- Messages are sent without a time to live, to be read in order. -/
def react (s : Pair) : Action → Event × Pair
  | .request x =>
    let e := s.ends x
    (.flow x .quiet,
      if e.connecting then s.post x e.connRes.id (.handShake e.connReq) else s)
  | .giveUp x => (.flow x .quiet, s.setEnd x { s.ends x with connecting := false })
  | .sendmsg x data now => s.onHalves x fun snd rcv =>
    let (size, snd) := snd.sendmsg data (-1) true now
    (.flow x (if 0 < size then .sent data else .quiet), s.setHalves x snd rcv)
  | .recvmsg x len => s.onHalves x fun snd rcv =>
    let (size, data, rcv) := rcv.recvmsg len
    (.flow x.other (if 0 < size then .received len data else .quiet), s.setHalves x snd rcv)
  | .packData x congestionWindow now => s.onHalves x fun snd rcv =>
    let (wire, snd') := snd.packData congestionWindow now
    (.flow x .quiet,
      ((s.setHalves x snd' rcv).count x (snd'.sndCurrSeqNo ≠ snd.sndCurrSeqNo)).transmit x wire)
  | .expire x => s.onHalves x fun snd rcv =>
    (.flow x .quiet,
      if 0 < snd.sndBuffer.getCurrBufSize then s.setHalves x snd.expire rcv
      else s.post x (s.ends x).peerID .keepAlive)
  | .sendLightAck x => s.onHalves x fun _ rcv =>
    (.flow x.other .quiet, s.transmit x rcv.sendLightAck)
  | .sendAck x recent now => s.onHalves x fun snd rcv =>
    let (wire, rcv) := rcv.sendAck recent now
    (.flow x.other .quiet, (s.setHalves x snd rcv).transmit x wire)
  | .deliver i reply now =>
    match s.net[i]? with
    | some (_, d) => s.arrive d reply now
    | none => (.flow .left .quiet, s)

/-- The network keeps no packet of a transfer while more than `Link.lifetime` new ones
are sent. -/
def Fresh (s : Pair) : Action → Prop
  | .deliver i _ _ =>
    match s.net[i]? with
    | some (m, d) =>
      match d.flow with
      | some (x, _) => s.sent x ≤ m x + Link.lifetime
      | none => True
    | none => False
  | _ => True

instance (s : Pair) : (a : Action) → Decidable (s.Fresh a)
  | .deliver i _ _ =>
    match h : s.net[i]? with
    | some (m, d) =>
      match hflow : d.flow with
      | some (x, _) =>
        decidable_of_iff (s.sent x ≤ m x + Link.lifetime) (by simp [Fresh, h, hflow])
      | none => .isTrue (by simp [Fresh, h, hflow])
    | none => .isFalse (by simp [Fresh, h])
  | .request _ | .giveUp _ | .sendmsg .. | .recvmsg .. | .packData .. | .expire _
  | .sendLightAck _ | .sendAck .. => .isTrue trivial

end Pair

inductive Pipes : (Peer → List (List UInt8)) → Event → (Peer → List (List UInt8)) → Prop
  | flow (p : Peer → List (List UInt8)) (x : Peer) {e : Link.Event} {ms : List (List UInt8)} :
    Pipe (p x) e ms → Pipes p (.flow x e) (Function.update p x ms)

end NineWire.Udt.Rendezvous
