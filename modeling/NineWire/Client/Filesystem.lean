import NineWire.Server.Session
import NineWire.Wire.Ser

/-! The client's transactions: one request, and the reply `handle_client` sends
to it while nothing else is in flight. -/
namespace NineWire.Client
open NineWire.Wire NineWire.Server NineWire.Transition

/-- How a client call ends when it does not return: with an `io::Error`, kept
as its text, with a panic, or waiting for a reply that never arrives. -/
inductive Failure where
  | error (text : ByteString)
  | panicked
  | noReply
  deriving DecidableEq

def maxMessageSize : Nat := 1280 - 64 - 8 - 16

/-- `maxlen - TWRITE_OVERHEAD`, unless it underflows. -/
def writeBound (maxlen : Nat) : Option Nat :=
  if twriteOverhead ≤ maxlen then some (maxlen - twriteOverhead) else none

/-- Bound writes by the max message size. -/
def bounded (maxlen : Nat) : TMessage → Option TMessage
  | .twrite ⟨fid, offset, data⟩ =>
    (writeBound maxlen).map fun bound => .twrite ⟨fid, offset, data.take bound⟩
  | message => some message

/-- The datagram `transact` sends: the bounded message, or an `Rerror` in its
place when it does not serialize. -/
def requestData (maxlen : Nat) (tag : UInt16) (message : TMessage) : Option Bytes :=
  (bounded maxlen message).bind fun message =>
    match message.serialize tag with
    | .ok data => some data
    | .error e => ((RMessage.rerror ⟨e.toString⟩).serialize tag).toOption

section Filesystem
variable {W P O : Type} (handler : Serve W P O)

/-- A datagram to an idle session, and the datagram it is answered with. -/
def exchange (server : Session W P O) (incoming : Bytes) : Option (Bytes × Session W P O) :=
  (exec (Session.step handler) server
      [.recv incoming 0, .top, .complete 0, .send, .pending, .top]).bind fun server =>
    match server.log with
    | .sent _ _ bytes :: _ => some (bytes, server)
    | _ => none

/-- `transact`, under the tag it picked. A reply that is too long for the
receive buffer, cannot be decoded or has another tag is dropped. -/
def transact (maxlen : Nat) (tag : UInt16) (message : TMessage) :
    EStateM Failure (Session W P O) RMessage := fun server =>
  match requestData maxlen tag message with
  | none => .error .panicked server
  | some data =>
    match exchange handler server data with
    | none => .error .noReply server
    | some (bytes, server) =>
      if bytes.length ≤ maxMessageSize then
        match deserializeR bytes with
        | .ok (tag', resp) => if tag' = tag then .ok resp server else .error .noReply server
        | .error _ => .error .noReply server
      else .error .noReply server

def openFid (maxlen : Nat) (tag : UInt16) (fid : UInt32) :
    EStateM Failure (Session W P O) Qid := do
  match ← transact handler maxlen tag (.topen ⟨fid, 0⟩) with
  | .rerror ⟨ename⟩ => throw (.error ename)
  | .ropen ⟨qid, _⟩ => return qid
  | _ => throw (.error "unexpected message type")

def readAt (maxlen : Nat) (tag : UInt16) (fid : UInt32) (count : UInt32) (offset : UInt64) :
    EStateM Failure (Session W P O) Bytes := do
  match ← transact handler maxlen tag (.tread ⟨fid, offset, count⟩) with
  | .rerror ⟨ename⟩ => throw (.error ename)
  | .rread ⟨data⟩ => return data
  | _ => throw (.error "unexpected message type")

end Filesystem

end NineWire.Client
