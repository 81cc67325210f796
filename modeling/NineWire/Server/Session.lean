import NineWire.Server.Dispatch
import NineWire.Transition
import NineWire.Wire.De

/-! `handle_client` as a transition system: the receive branch, the reply
branch with its inner loop, and the deferred session reset. A failed `send` or
`recv` and a panic have no transition: the task is over. -/
namespace NineWire.Server
open NineWire.Wire

def maxInFlight : Nat := 16

inductive Cause where
  | version (req : Tversion)
  | badVersion
  | flush (oldtag : UInt16)
  | request (req : TMessage)
  | undecodable (e : DeserializeError)
  deriving DecidableEq

/-- A reply owed: the tag it goes out under and the datagram that asked for
it. `serial` numbers the datagrams, so that equal ones stay apart; the source
keeps the tag alone. -/
structure Owed where
  serial : Nat
  tag : UInt16
  cause : Cause
  deriving DecidableEq

/-- What a tagged future waits for: a reply that is `ready`, or a dispatch. -/
inductive Hdl where
  | ready (resp : RMessage)
  | dispatch (req : TMessage)

structure TaggedFuture where
  tag : Owed
  flushes : Option Owed
  hdl : Hdl

inductive Event where
  | received (serial : Nat) (incoming : Bytes) (initialized : Bool)
  | sent (owed : Owed) (resp : RMessage) (bytes : Bytes)
  /-- `flushes` was assigned over a flush that had not been answered. -/
  | displaced (owed : Owed)
  deriving DecidableEq

inductive Pc where
  | top
  | select
  | reply (tag : Owed) (flushes : Option Owed) (resp : RMessage)
  | flush (tag : Owed)
  | poll
  | done

/-- The locals of `handle_client`, with the log of what it received and sent,
newest first. -/
structure Session (W P O : Type) where
  mgr : ResourceManager W P O
  inflight : List TaggedFuture
  initialized : Bool
  nextSession : Option (Owed × Tversion)
  pc : Pc
  serial : Nat
  log : List Event

def Session.start {W P O : Type} (world : W) : Session W P O where
  mgr := { resources := fun _ => none, world }
  inflight := []
  initialized := false
  nextSession := none
  pc := .top
  serial := 0
  log := []

/-- One scheduling choice. `recv` picks which of the futures carrying a
flushed tag the search meets first; `complete` picks which one is ready. -/
inductive Action where
  | top
  | recv (incoming : Bytes) (pick : Nat)
  | complete (i : Nat)
  | send
  | pending
  | else_

/-- The bytes of a reply, or of the serialization error in its place. -/
def serialized (resp : RMessage) (tag : UInt16) : Option Bytes :=
  match resp.serialize tag with
  | .ok bytes => some bytes
  | .error e => ((RMessage.rerror ⟨e.toString⟩).serialize tag).toOption

section Session
variable {W P O : Type} (handler : Serve W P O)

def Session.send (s : Session W P O) (owed : Owed) (resp : RMessage) (pc : Pc) :
    Option (Session W P O) :=
  (serialized resp owed.tag).map fun bytes =>
    { s with pc, log := .sent owed resp bytes :: s.log }

def Session.push (s : Session W P O) (tag : Owed) (hdl : Hdl) : Session W P O :=
  { s with inflight := ⟨tag, none, hdl⟩ :: s.inflight }

def versionReply (req : Tversion) : RMessage :=
  if req.msize.toNat < 256 then .rerror ⟨"Tversion: message size too small"⟩
  else .rversion ⟨min req.msize (UInt32.ofNat maxMessageSize),
    if req.version = "9P2000" then "9P2000" else "unknown"⟩

def Session.top (s : Session W P O) : Option (Session W P O) :=
  match s.inflight, s.nextSession with
  | [], some (owed, req) =>
    let s := { s with
      mgr := { s.mgr with resources := fun _ => none }
      nextSession := none
      initialized := s.initialized || !(req.msize.toNat < 256) }
    s.send owed (versionReply req) .select
  | _, _ => some { s with pc := .select }

/-- `inflight.iter_pin_mut().find(|h| h.tag == oldtag)`, in any order. -/
def Session.flush (s : Session W P O) (owed : Owed) (oldtag : UInt16) (pick : Nat) :
    Option (Session W P O) :=
  if s.inflight.any fun fut => fut.tag.tag = oldtag then
    match s.inflight[pick]? with
    | some fut =>
      if fut.tag.tag = oldtag then
        some { s with
          inflight := s.inflight.set pick { fut with flushes := some owed }
          log := fut.flushes.toList.map .displaced ++ s.log }
      else none
    | none => none
  else some (s.push owed (.ready (.rflush {})))

def Session.accept (s : Session W P O) (serial : Nat) (pick : Nat) :
    Except DeserializeError (UInt16 × TMessage) → Option (Session W P O)
  | .ok (tag, .tversion req) =>
    if tag = notag then some { s with nextSession := some (⟨serial, tag, .version req⟩, req) }
    else some (s.push ⟨serial, tag, .badVersion⟩ (.ready (.rerror ⟨"Tversion: invalid tag"⟩)))
  | .ok (tag, .tflush ⟨oldtag⟩) => s.flush ⟨serial, tag, .flush oldtag⟩ oldtag pick
  | .ok (tag, req) => some (s.push ⟨serial, tag, .request req⟩ (.dispatch req))
  | .error e =>
    match e.tag with
    | some tag =>
      some (s.push ⟨serial, tag, .undecodable e⟩ (.ready (.rerror ⟨e.toString⟩)))
    | none => some s

def isTversion : Except DeserializeError (UInt16 × TMessage) → Bool
  | .ok (_, .tversion _) => true
  | _ => false

/-- The guard of the receive branch; a datagram longer than the buffer is not
delivered. -/
def Session.Receives (s : Session W P O) (incoming : Bytes) : Prop :=
  s.inflight.length < maxInFlight ∧ s.nextSession.isNone ∧ incoming.length ≤ maxMessageSize

instance (s : Session W P O) (incoming : Bytes) : Decidable (s.Receives incoming) :=
  inferInstanceAs (Decidable (_ ∧ _ ∧ _))

def Session.received (s : Session W P O) (incoming : Bytes) : Session W P O :=
  { s with
    pc := .top
    serial := s.serial + 1
    log := .received s.serial incoming s.initialized :: s.log }

def Session.recv (s : Session W P O) (incoming : Bytes) (pick : Nat) : Option (Session W P O) :=
  if s.Receives incoming then
    let des := deserializeT incoming
    -- while no session is initialized, everything but a Tversion is thrown out
    if !s.initialized && !isTversion des then some (s.received incoming)
    else (s.received incoming).accept s.serial pick des
  else none

/-- The future at `i` is ready: its reply comes off the set with its tags. -/
def Session.complete (s : Session W P O) (i : Nat) : Option (Session W P O) :=
  match s.inflight[i]? with
  | none => none
  | some ⟨tag, flushes, hdl⟩ =>
    let s := { s with inflight := s.inflight.eraseIdx i }
    match hdl with
    | .ready resp => some { s with pc := .reply tag flushes resp }
    | .dispatch req =>
      match (dispatch handler maxMessageSize req).run s.mgr with
      | .ok resp mgr => some { s with mgr, pc := .reply tag flushes resp }
      | .error (.err text) mgr => some { s with mgr, pc := .reply tag flushes (.rerror ⟨text⟩) }
      | .error .panic _ => none

def Session.step (s : Session W P O) : Action → Option (Session W P O)
  | .top =>
    match s.pc with
    | .top => s.top
    | _ => none
  | .recv incoming pick =>
    match s.pc with
    | .select => s.recv incoming pick
    | _ => none
  | .complete i =>
    match s.pc with
    | .select | .poll => s.complete handler i
    | _ => none
  | .send =>
    match s.pc with
    | .reply tag none resp => s.send tag resp .poll
    | .reply tag (some flush) resp => s.send tag resp (.flush flush)
    | .flush tag => s.send tag (.rflush {}) .poll
    | _ => none
  | .pending =>
    match s.pc with
    | .poll => some { s with pc := .top }
    | _ => none
  | .else_ =>
    match s.pc with
    | .select =>
      -- both branches disabled: receiving is gated off and there is no future to wait for
      if ¬(s.inflight.length < maxInFlight ∧ s.nextSession.isNone) ∧ s.inflight.isEmpty then
        some { s with pc := .done }
      else none
    | _ => none

end Session

end NineWire.Server
