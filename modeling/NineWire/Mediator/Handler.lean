import Mathlib.Algebra.Ring.Nat
import Std.Data.TreeMap.Lemmas
import NineWire.Correlation
import NineWire.Wire.Data

/-! The mediator: a registrant gets the rendezvous requests for its name as a
stream and sends its decisions back as another. Between two awaits a call runs
alone. The entry that `get_async` returns locks its bucket until the call is
over; the orders of steps this rules out are allowed here too. -/
namespace NineWire.Mediator
open NineWire.Wire (Bytes)

inductive Code where
  | invalidArgument
  | notFound
  | alreadyExists
  | permissionDenied
  | internal
  | unavailable
  deriving DecidableEq

structure Status where
  code : Code
  message : String
  deriving DecidableEq

structure Endpoint where
  addr : Bytes
  port : UInt32
  pubkey : Bytes
  deriving DecidableEq

def validateEndpoint (ep : Endpoint) (server : Bool) : Except Status Unit := do
  if ep.addr.length ≠ 16 then
    throw ⟨.invalidArgument, "bad address"⟩
  if ¬(1 ≤ ep.port.toNat ∧ ep.port.toNat < 65536) then
    throw ⟨.invalidArgument, "bad port"⟩
  if ¬server ∧ ep.pubkey ≠ [] then
    throw ⟨.invalidArgument, "you don't get a public key"⟩
  if server ∧ ep.pubkey.length ≠ 32 then
    throw ⟨.invalidArgument, "bad public key"⟩

inductive Req where
  | registration (name : String) (endpoint : Option Endpoint)
  | approveId (id : UInt64)
  | denyId (id : UInt64)
  deriving DecidableEq

/-- `reply` is the call whose one-shot sender this is. -/
structure PlsRendezvous where
  ep : Endpoint
  reply : Nat
  deriving DecidableEq

/-- Where a `rendezvous` call stands: at one of its three awaits, or over. -/
inductive CallStage where
  | looking
  | enqueueing (r : Nat)
  | waiting
  | returned (res : Except Status Endpoint)
  | dropped
  deriving DecidableEq

/-- A `rendezvous` call past its checks. `reply` is what its one-shot channel
holds. -/
structure Caller where
  name : String
  ep : Endpoint
  stage : CallStage
  reply : Option (Option Endpoint)
  deriving DecidableEq

/-- Where a `register` stream stands: at its `select!`, at its `yield`, or over. -/
inductive StreamStage where
  | selecting
  | yielding
  | ended
  deriving DecidableEq

structure Registration where
  name : String
  endpoint : Endpoint
  ctr : UInt64
  inflight : Std.TreeMap UInt64 Nat
  queue : Option PlsRendezvous
  stage : StreamStage

def Registration.start (name : String) (endpoint : Endpoint) : Registration where
  name
  endpoint
  ctr := 1
  inflight := ∅
  queue := none
  stage := .selecting

/-- Requests taken in by a registration, forwarded by it under an id, and
decided on: approved or not. -/
abbrev Event := Correlation.Event Nat Nat (Nat × UInt64) Endpoint Bool

/-- `mappings` keeps for each name the registration whose sender is stored
there. No function reads the log. -/
structure Handler where
  mappings : Std.TreeMap String Nat
  registrations : List Registration
  callers : List Caller
  log : List Event

def Handler.start : Handler where
  mappings := ∅
  registrations := []
  callers := []
  log := []

def Handler.inUse (s : Handler) (name : String) : Bool :=
  match s.mappings[name]? with
  | some r => s.registrations[r]?.any (·.stage ≠ .ended)
  | none => false

def Handler.register (s : Handler) (first : Option Req) : Except Status Handler :=
  match first with
  | some (.registration name (some endpoint)) => do
    validateEndpoint endpoint true
    if s.inUse name then
      throw ⟨.alreadyExists, "requested name is in use"⟩
    return { s with
      mappings := s.mappings.insert name s.registrations.length
      registrations := s.registrations ++ [.start name endpoint] }
  | some (.registration _ none) => throw ⟨.invalidArgument, "unspecified endpoint"⟩
  | _ => throw ⟨.invalidArgument, "first request must be registration"⟩

def Handler.rendezvous (s : Handler) (name : String) (endpoint : Option Endpoint) :
    Except Status Handler :=
  match endpoint with
  | some ep => do
    validateEndpoint ep false
    return { s with callers := s.callers ++ [{ name, ep, stage := .looking, reply := none }] }
  | none => throw ⟨.invalidArgument, "unspecified endpoint"⟩

def Handler.moveTo (s : Handler) (c : Nat) (caller : Caller) (stage : CallStage) : Handler :=
  { s with callers := s.callers.set c { caller with stage } }

def Handler.lookUp (s : Handler) (c : Nat) (caller : Caller) : Handler :=
  match s.mappings[caller.name]? with
  | some r => s.moveTo c caller (.enqueueing r)
  | none => s.moveTo c caller (.returned (.error ⟨.notFound, "unknown name"⟩))

/-- `pls_sender.send`, which waits for room. -/
def Handler.enqueue (s : Handler) (c : Nat) (caller : Caller) (r : Nat) : Option Handler := do
  let reg ← s.registrations[r]?
  if reg.stage = .ended then
    return s.moveTo c caller (.returned (.error ⟨.internal, "mapping is broken"⟩))
  else if reg.queue = none then
    return { s.moveTo c caller .waiting with
      registrations := s.registrations.set r { reg with queue := some ⟨caller.ep, c⟩ }
      log := .accept r c caller.ep :: s.log }
  else none

def Handler.held (s : Handler) (c : Nat) : Bool :=
  s.registrations.any fun reg => reg.queue.any (·.reply = c) || reg.inflight.values.contains c

def Handler.wake (s : Handler) (c : Nat) (caller : Caller) : Option Handler :=
  match caller.reply with
  | some (some ep) => some (s.moveTo c caller (.returned (.ok ep)))
  | some none =>
    some (s.moveTo c caller (.returned (.error ⟨.permissionDenied, "rendezvous denied by peer"⟩)))
  | none =>
    if s.held c then none
    else some (s.moveTo c caller (.returned (.error ⟨.unavailable, "no reply from peer"⟩)))

def Handler.waits (s : Handler) (c : Nat) : Bool := s.callers[c]?.any (·.stage = .waiting)

def Registration.stop (reg : Registration) : Registration :=
  { reg with inflight := ∅, queue := none, stage := .ended }

/-- `rdv_requests.recv`. At `u64::MAX` the counter overflows, which panics. -/
def Handler.forward (s : Handler) (r : Nat) (reg : Registration) (req : PlsRendezvous) : Handler :=
  let id := reg.ctr
  if id.toNat + 1 < 2^64 then
    { s with
      registrations := s.registrations.set r { reg with
        ctr := id + 1, inflight := reg.inflight.insert id req.reply, queue := none,
        stage := .yielding }
      log := .issue (r, id) req.reply req.ep :: s.log }
  else { s with registrations := s.registrations.set r reg.stop }

def Handler.retain (s : Handler) (r : Nat) (reg : Registration) : Handler :=
  { s with registrations := s.registrations.set r { reg with
      inflight := reg.inflight.filter fun _ c => s.waits c, stage := .selecting } }

/-- `reply.send`, which fails if the receiver is gone. -/
def Handler.reply (s : Handler) (c : Nat) (answer : Option Endpoint) : Handler :=
  if s.waits c then
    { s with callers := s.callers.modify c fun caller => { caller with reply := some answer } }
  else s

def Registration.answer (reg : Registration) (approve : Bool) : Option Endpoint :=
  if approve then some reg.endpoint else none

def Handler.decide (s : Handler) (r : Nat) (reg : Registration) (id : UInt64) (approve : Bool) :
    Handler :=
  match reg.inflight[id]? with
  | some c =>
    let s' := s.reply c (reg.answer approve)
    { s' with log := .decide (r, id) approve (if s.waits c then some c else none) :: s.log }.retain r
      { reg with inflight := reg.inflight.erase id }
  | none => { s with log := .decide (r, id) approve none :: s.log }.retain r reg

def Handler.message (s : Handler) (r : Nat) (reg : Registration) : Option Req → Handler
  | some (.approveId id) => s.decide r reg id true
  | some (.denyId id) => s.decide r reg id false
  | _ => s.retain r reg

inductive Action where
  | register (first : Option Req)
  | rendezvous (name : String) (endpoint : Option Endpoint)
  | lookUp (c : Nat)
  | enqueue (c : Nat)
  | wake (c : Nat)
  | giveUp (c : Nat)
  | forward (r : Nat)
  | resume (r : Nat)
  | message (r : Nat) (req : Option Req)
  | stop (r : Nat)

def Handler.step (s : Handler) : Action → Option Handler
  | .register first => some ((s.register first).toOption.getD s)
  | .rendezvous name endpoint => some ((s.rendezvous name endpoint).toOption.getD s)
  | .lookUp c => do
    let caller ← s.callers[c]?
    if caller.stage = .looking then some (s.lookUp c caller) else none
  | .enqueue c => do
    let caller ← s.callers[c]?
    match caller.stage with
    | .enqueueing r => s.enqueue c caller r
    | _ => none
  | .wake c => do
    let caller ← s.callers[c]?
    if caller.stage = .waiting then s.wake c caller else none
  | .giveUp c => do
    let caller ← s.callers[c]?
    match caller.stage with
    | .returned _ | .dropped => none
    | _ => some (s.moveTo c caller .dropped)
  | .forward r => do
    let reg ← s.registrations[r]?
    let req ← reg.queue
    if reg.stage = .selecting then some (s.forward r reg req) else none
  | .resume r => do
    let reg ← s.registrations[r]?
    if reg.stage = .yielding then some (s.retain r reg) else none
  | .message r req => do
    let reg ← s.registrations[r]?
    if reg.stage = .selecting then some (s.message r reg req) else none
  | .stop r => do
    let reg ← s.registrations[r]?
    if reg.stage = .ended then none
    else some { s with registrations := s.registrations.set r reg.stop }

end NineWire.Mediator
