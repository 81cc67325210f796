import NineWire.Client.Directory
import NineWire.Client.Routing
import NineWire.Util.FidPool

/-! One `Filesystem` at work with `handle_client` at the other end: its fid pool,
its handles and the operations on them, its calls, the datagrams under way and
the session. Sends do not fail. -/
namespace NineWire.Client
open NineWire.Wire NineWire.Server NineWire.Transition NineWire.Util

/-- Where the owner of a fid stands: an operation that waits for call `c`, a
handle of the user, a clunk task before and after its call, or dropped. -/
inductive HandleStage where
  | awaiting (c : Nat) (goal : Goal)
  | live (kind : Kind)
  | spawned
  | clunking (c : Nat)
  | dropped
  deriving DecidableEq

structure Handle where
  fid : UInt32
  stage : HandleStage
  deriving DecidableEq

/-- `origin` tells the call whose datagram the session received under a serial. -/
structure Mount (W P O : Type) where
  pool : FidPool
  handles : List Handle
  traffic : Traffic
  server : Session W P O
  origin : Nat → Option Nat

def versionData : Bytes := [100, 255, 255, 168, 4, 0, 0, 6, 0, 57, 80, 50, 48, 48, 48]

def handshake : List Server.Action := [.top, .recv versionData 0, .top]

inductive MountAction where
  | attach (uname aname : ByteString)
  | openDirAt (h : Nat) (path : String)
  | openAt (h : Nat) (path : String)
  | readDir (h : Nat)
  | io (message : TMessage)
  | poll (c : Nat) (p : Poll)
  | resume (h : Nat)
  | drop (h : Nat)
  | cancel (h : Nat)
  | clunk (h : Nat)
  | arrive (c pick : Nat)
  | lose (c : Nat)
  | serve (a : Server.Action)
  | answer
  | deliver (c : Nat)
  | recvFails

def isIo : TMessage → Bool
  | .tstat _ | .tread _ | .twrite _ => true
  | _ => false

section Mount
variable {W P O : Type} (handler : Serve W P O)

def Mount.start (world : W) : Option (Mount W P O) :=
  (exec (Session.step handler) (.start world) handshake).map fun server =>
    { pool := .new, handles := [], traffic := .start Server.maxMessageSize, server,
      origin := fun _ => none }

def Mount.hasTag (s : Mount W P O) : Bool := (pickTag s.traffic.client.inflight.keys 0).isSome

/-- Where an outcome leaves the owner of a fid. One that fails, or panics for
want of a tag, drops the handle, which spawns the clunk task. -/
def Mount.stage (s : Mount W P O) : Outcome → HandleStage
  | .done kind => .live kind
  | .fails _ => .spawned
  | .request _ goal =>
    if s.hasTag then .awaiting s.traffic.client.calls.length goal else .spawned

def Mount.call (s : Mount W P O) (message : TMessage) : Mount W P O :=
  { s with traffic := { s.traffic with client := s.traffic.client.call message } }

def Mount.request (s : Mount W P O) : Outcome → Mount W P O
  | .request message _ => s.call message
  | _ => s

def Mount.setStage (s : Mount W P O) (h : Nat) (handle : Handle) (stage : HandleStage) :
    Mount W P O :=
  { s with handles := s.handles.set h { handle with stage } }

def Mount.proceed (s : Mount W P O) (h : Nat) (handle : Handle) (outcome : Outcome) : Mount W P O :=
  (s.request outcome).setStage h handle (s.stage outcome)

/-- An operation begins with a fid of its own; without one, `get_fid` panics. -/
def Mount.begin (s : Mount W P O) (operation : UInt32 → Outcome) : Mount W P O :=
  match s.pool.get with
  | some (fid, pool) =>
    let outcome := operation fid
    { s.request outcome with pool, handles := s.handles ++ [⟨fid, s.stage outcome⟩] }
  | none => s

def Mount.giveBack (s : Mount W P O) (h : Nat) (handle : Handle) : Option (Mount W P O) := do
  let pool ← s.pool.put handle.fid
  return { s with pool }.setStage h handle .dropped

def Mount.result (s : Mount W P O) (c : Nat) : Option RMessage :=
  match s.traffic.client.calls[c]?.map Call.stage with
  | some (.returned resp) => some resp
  | _ => none

def Mount.resume (s : Mount W P O) (h : Nat) (handle : Handle) : Option (Mount W P O) :=
  match handle.stage with
  | .awaiting c goal => do
    let traffic ← s.traffic.step (.poll c .resume)
    let s := { s with traffic }
    match s.result c with
    | some resp => some (s.proceed h handle (goal.next handle.fid resp))
    | none => some (s.proceed h handle (.fails (.error "unexpected end of file")))
  | .clunking c => do
    let traffic ← s.traffic.step (.poll c .resume)
    { s with traffic }.giveBack h handle
  | _ => none

/-- The clunk task makes its call. Without a tag it panics, which drops the fid. -/
def Mount.clunk (s : Mount W P O) (h : Nat) (handle : Handle) : Option (Mount W P O) :=
  if s.hasTag then
    let c := s.traffic.client.calls.length
    some ((s.call (.tclunk ⟨handle.fid⟩)).setStage h handle (.clunking c))
  else s.giveBack h handle

def Mount.arrive (s : Mount W P O) (c pick : Nat) : Option (Mount W P O) := do
  let call ← s.traffic.client.calls[c]?
  let incoming ← call.data
  let traffic ← s.traffic.step (.transmit c)
  let server ← s.server.step handler (.recv incoming pick)
  return { s with traffic, server, origin := Function.update s.origin s.server.serial (some c) }

def Mount.answer (s : Mount W P O) : Option (Mount W P O) := do
  let server ← s.server.step handler .send
  match server.log with
  | .sent owed _ bytes :: _ => do
    let c ← s.origin owed.serial
    return { s with
      traffic := { s.traffic with fates := Function.update s.traffic.fates c (.answered bytes) }
      server }
  | _ => none

def isInternal : Server.Action → Bool
  | .top | .complete _ | .pending | .else_ => true
  | .recv _ _ | .send => false

def Mount.transfer (s : Mount W P O) (a : TrafficAction) : Option (Mount W P O) :=
  (s.traffic.step a).map fun traffic => { s with traffic }

/-- A call can be sent at any time; what it returns, and that it is dropped, is
up to whoever made it. -/
def Mount.poll (s : Mount W P O) (c : Nat) (p : Poll) : Option (Mount W P O) := do
  let call ← s.traffic.client.calls[c]?
  match p with
  | .sent => s.transfer (.poll c .sent)
  | .sendFails => none
  | p => if isIo call.message then s.transfer (.poll c p) else none

def Mount.step (s : Mount W P O) : MountAction → Option (Mount W P O)
  | .attach uname aname => some (s.begin (Client.attach uname aname))
  | .openDirAt h path => do
    let handle ← s.handles[h]?
    if handle.stage = .live .directory then some (s.begin (Client.openDirAt handle.fid path))
    else none
  | .openAt h path => do
    let handle ← s.handles[h]?
    if handle.stage = .live .directory then some (s.begin (Client.openAt handle.fid path)) else none
  | .readDir h => do
    let handle ← s.handles[h]?
    if handle.stage = .live .directory then some (s.proceed h handle (openReadDir handle.fid))
    else none
  | .io message => if isIo message then some (s.call message) else none
  | .poll c p => s.poll c p
  | .resume h => do
    let handle ← s.handles[h]?
    s.resume h handle
  | .drop h => do
    let handle ← s.handles[h]?
    match handle.stage with
    | .live _ => some (s.setStage h handle .spawned)
    | _ => none
  | .cancel h => do
    let handle ← s.handles[h]?
    match handle.stage with
    | .awaiting c _ => (s.transfer (.poll c .cancel)).map fun s => s.setStage h handle .spawned
    | _ => none
  | .clunk h => do
    let handle ← s.handles[h]?
    if handle.stage = .spawned then s.clunk h handle else none
  | .arrive c pick => s.arrive handler c pick
  | .lose c => s.transfer (.lose c)
  | .serve a =>
    if isInternal a then (s.server.step handler a).map fun server => { s with server } else none
  | .answer => s.answer handler
  | .deliver c => s.transfer (.deliver c)
  | .recvFails => s.transfer .recvFails

end Mount

end NineWire.Client
