import Mathlib.Data.Finset.Insert
import NineWire.LittleEndian
import NineWire.Transition
import NineWire.Wire.Data

/-! `SecureTransport`: concurrent `send_with` calls at one end, concurrent
`recv` calls at the other, and a network in between that may hand a receiver
any bytes at all. -/
namespace NineWire.Transport
open NineWire.LittleEndian NineWire.Transition
open NineWire.Wire (Bytes)

/-- `StatelessTransportState`, for one direction. -/
structure Crypto where
  writeMessage : UInt64 → Bytes → Option Bytes
  readMessage : UInt64 → Bytes → Option Bytes
  overhead : ∀ nonce payload message, writeMessage nonce payload = some message →
    message.length = payload.length + 16
  opens : ∀ nonce payload message, writeMessage nonce payload = some message →
    readMessage nonce message = some payload

/-- `u64::to_be_bytes` and back. -/
def toBeBytes (nonce : UInt64) : Bytes := (toLe 8 nonce.toNat).reverse
def fromBeBytes (bs : Bytes) : UInt64 := UInt64.ofNat (ofLe bs.reverse)

/-- Where a `send_with` stands. It has its nonce from the start. -/
inductive SendStage where
  | numbered
  | sending
  | returned (n : Nat)
  | failed
  | dropped
  deriving DecidableEq

/-- `message` is what `write_message` made of `buf`. -/
structure Send where
  nonce : UInt64
  buf : Bytes
  message : Option Bytes
  stage : SendStage
  deriving DecidableEq

/-- Where a `recv` stands: at its await, between the await and the lock with a
datagram in `tmp`, or over. -/
inductive RecvStage where
  | waiting
  | holding (incoming : Bytes)
  | returned (nonce : UInt64) (payload : Bytes)
  | failed
  | dropped
  deriving DecidableEq

structure Recv where
  size : Nat
  stage : RecvStage
  deriving DecidableEq

/-- The sending half of one `SecureTransport` and the receiving half of its peer. -/
structure Channel where
  nonceOutgoing : UInt64
  sends : List Send
  nonceIncoming : Finset UInt64
  recvs : List Recv

def Channel.start : Channel where
  nonceOutgoing := 0
  sends := []
  nonceIncoming := ∅
  recvs := []

inductive SendStep where
  | encrypt
  | sent
  | fails
  | cancel

inductive Action where
  | sendWith (buf : Bytes)
  | send (j : Nat) (a : SendStep)
  | recv (size : Nat)
  | receive (i : Nat) (incoming : Bytes)
  | recvFails (i : Nat)
  | cancel (i : Nat)
  | decrypt (i : Nat)

section Channel
variable (crypto : Crypto)

/-- `fetch_add`. -/
def Channel.sendWith (s : Channel) (buf : Bytes) : Channel :=
  { s with
    nonceOutgoing := s.nonceOutgoing + 1
    sends := s.sends ++ [{ nonce := s.nonceOutgoing, buf, message := none, stage := .numbered }] }

def Send.next (send : Send) : SendStep → Option Send
  | .encrypt =>
    if send.stage = .numbered then
      match crypto.writeMessage send.nonce send.buf with
      | some message => some { send with message := some message, stage := .sending }
      | none => some { send with stage := .failed }
    else none
  | .sent => if send.stage = .sending then some { send with stage := .returned send.buf.length } else none
  | .fails => if send.stage = .sending then some { send with stage := .failed } else none
  | .cancel => if send.stage = .sending then some { send with stage := .dropped } else none

def nonceOf (incoming : Bytes) : UInt64 := fromBeBytes (incoming.take 8)
def messageOf (incoming : Bytes) : Bytes := incoming.drop 8

/-- `read_message` into a buffer of `size` bytes. -/
def readInto (size : Nat) (nonce : UInt64) (message : Bytes) : Option Bytes :=
  (crypto.readMessage nonce message).filter fun payload => payload.length ≤ size

/-- From the lock to its release: a nonce that was seen, or a failure to
decrypt, sends the receiver back to its await. -/
def Channel.decrypt (s : Channel) (i : Nat) (recv : Recv) (incoming : Bytes) : Channel :=
  let nonce := nonceOf incoming
  if nonce ∈ s.nonceIncoming then { s with recvs := s.recvs.set i { recv with stage := .waiting } }
  else
    match readInto crypto recv.size nonce (messageOf incoming) with
    | some payload =>
      { s with
        nonceIncoming := insert nonce s.nonceIncoming
        recvs := s.recvs.set i { recv with stage := .returned nonce payload } }
    | none => { s with recvs := s.recvs.set i { recv with stage := .waiting } }

def Channel.wake (s : Channel) (i : Nat) (stage : RecvStage) : Option Channel := do
  let recv ← s.recvs[i]?
  if recv.stage = .waiting then some { s with recvs := s.recvs.set i { recv with stage } } else none

/-- A datagram that `receive` hands to a receiver has at least the bytes of a
nonce; nothing else is known of it. -/
def Channel.step (s : Channel) : Action → Option Channel
  | .sendWith buf => some (s.sendWith buf)
  | .send j a => do
    let send ← s.sends[j]?
    let send ← send.next crypto a
    return { s with sends := s.sends.set j send }
  | .recv size => some { s with recvs := s.recvs ++ [{ size, stage := .waiting }] }
  | .receive i incoming => if 8 ≤ incoming.length then s.wake i (.holding incoming) else none
  | .recvFails i => s.wake i .failed
  | .cancel i => s.wake i .dropped
  | .decrypt i => do
    let recv ← s.recvs[i]?
    match recv.stage with
    | .holding incoming => some (s.decrypt crypto i recv incoming)
    | _ => none

/-- The AEAD accepts only what the peer produced. -/
def Authentic (s : Channel) : Action → Prop
  | .decrypt i => ∀ (recv : Recv) incoming payload, s.recvs[i]? = some recv →
    recv.stage = .holding incoming →
    crypto.readMessage (nonceOf incoming) (messageOf incoming) = some payload →
    ∃ send ∈ s.sends, send.nonce = nonceOf incoming ∧ send.message = some (messageOf incoming)
  | _ => True

end Channel

end NineWire.Transport
