import NineWire.Notify
import NineWire.Wire.Data

/-! One connected socket of the UDT layer, as far as the calls of the wrapper and
its own threads see it, and the `RPoll` entry through which it wakes waiters. -/
namespace NineWire.Udt
open NineWire.Notify NineWire.Table
open NineWire.Wire (Bytes)

/-- Where the socket is kept: in `m_Sockets`; in `m_ClosedSockets`, then there
with its waiters woken by its removal; and in neither. -/
inductive Status where
  | opened
  | closed
  | removing
  | removed
  deriving DecidableEq

inductive Errno where
  | invSock
  | connLost
  | largeMsg
  | asyncSnd
  | asyncRcv
  deriving DecidableEq

/-- What `udt_getlasterror` turns into `WouldBlock`. -/
def Errno.wouldBlock : Errno → Bool
  | .asyncSnd | .asyncRcv => true
  | _ => false

/-- What the peer's `sendmsg` sends, which sends nothing for an empty buffer. -/
structure Message where
  data : Bytes
  nonempty : data ≠ []

/-- `m_iSndBufSize`, in blocks, and `m_iPayloadSize`. -/
structure Config where
  sndBufSize : Nat
  payloadSize : Nat

/-- `messages` can be read. `blocks` is the send buffer: what is not acknowledged
yet, each block with the number of its message; `accepted` counts the messages. -/
structure Socket where
  status : Status
  broken : Bool
  messages : List Message
  blocks : List Nat
  accepted : Nat

def Socket.start : Socket where
  status := .opened
  broken := false
  messages := []
  blocks := []
  accepted := 0

def Socket.found (u : Socket) : Bool := u.status = .opened

def Socket.recvmsg (u : Socket) (len : Nat) : Except Errno (Bytes × Socket) :=
  if u.found then
    if len = 0 then .ok ([], u)
    else
      match u.messages with
      | message :: messages => .ok (message.data.take len, { u with messages })
      | [] => .error (if u.broken then .connLost else .asyncRcv)
  else .error .invSock

def Config.blocksOf (cfg : Config) (len : Nat) : Nat :=
  len / cfg.payloadSize + if len % cfg.payloadSize ≠ 0 then 1 else 0

def Socket.room (cfg : Config) (u : Socket) : Nat :=
  (cfg.sndBufSize - u.blocks.length) * cfg.payloadSize

def Socket.sendmsg (cfg : Config) (u : Socket) (len : Nat) : Except Errno Socket :=
  if u.found then
    if u.broken then .error .connLost
    else if len = 0 then .ok u
    else if cfg.sndBufSize * cfg.payloadSize < len then .error .largeMsg
    else if u.room cfg < len then .error .asyncSnd
    else .ok { u with
      blocks := u.blocks ++ List.replicate (cfg.blocksOf len) u.accepted
      accepted := u.accepted + 1 }
  else .error .invSock

/-- The option `UDT_SNDDATA`, which is not written where `lookup` throws. -/
def Socket.getsockopt (u : Socket) : Option Nat := if u.found then some u.blocks.length else none

/-- `send_data`: `inflight` is 0 from the start, and the result is not looked at. -/
def Socket.sendData (u : Socket) : Nat := u.getsockopt.getD 0

/-! `RPoll`. -/

inductive Side where
  | readable
  | writable
  deriving DecidableEq

structure Events where
  in_ : Bool
  out : Bool

def Events.contains (events : Events) : Side → Bool
  | .readable => events.in_
  | .writable => events.out

/-- The two `Notify`s, by where they are among those there are. -/
structure SocketData where
  readable : Nat
  writable : Nat

def SocketData.side (ent : SocketData) : Side → Nat
  | .readable => ent.readable
  | .writable => ent.writable

/-- The entry of the socket in `evts`. Its `Notify`s live on with the waiters
once it is removed. -/
structure RPoll where
  notifies : Notifies
  entry : Option SocketData

/-- `entry_sync(socket).or_default()`. -/
def RPoll.orDefault (p : RPoll) : SocketData × RPoll :=
  match p.entry with
  | some ent => (ent, p)
  | none =>
    let ent := ⟨p.notifies.length, p.notifies.length + 1⟩
    (ent, { notifies := p.notifies ++ [0, 0], entry := some ent })

def RPoll.updateEvents (p : RPoll) (events : Events) (value : Bool) : RPoll :=
  let ent := p.orDefault.1
  let p := p.orDefault.2
  if value then
    let readable := if events.in_ then notifyWaiters p.notifies ent.readable else p.notifies
    { p with notifies := if events.out then notifyWaiters readable ent.writable else readable }
  else p

def RPoll.removeUsock (p : RPoll) : RPoll := { p with entry := none }

def RPoll.waiter (p : RPoll) (side : Side) : Option Notified :=
  p.entry.map fun ent => notified p.notifies (ent.side side)

def RPoll.readable (p : RPoll) : Option Notified := p.waiter .readable
def RPoll.writable (p : RPoll) : Option Notified := p.waiter .writable

/-- With the entry that `CUDT::open` makes. -/
def RPoll.start : RPoll :=
    ({ notifies := [], entry := none } : RPoll).updateEvents ⟨false, false⟩ false

section RPoll
variable {p : RPoll} {ent : SocketData} {side : Side} {w : Notified}

def RPoll.Listed (p : RPoll) : Prop :=
  ∀ ent, p.entry = some ent → ∀ side, ent.side side < p.notifies.length

theorem orDefault_entry (h : p.entry = some ent) : p.orDefault = (ent, p) := by
  rw [RPoll.orDefault, h]

theorem updateEvents_entry (h : p.entry = some ent) (events : Events) (value : Bool) :
    (p.updateEvents events value).entry = some ent := by
  unfold RPoll.updateEvents
  rw [orDefault_entry h]
  cases value <;> exact h

theorem orDefault_grows (p : RPoll) : Grows p.notifies p.orDefault.2.notifies := by
  unfold RPoll.orDefault
  split
  · exact .refl _
  · exact .append _ _

theorem updateEvents_grows (p : RPoll) (events : Events) (value : Bool) :
    Grows p.notifies (p.updateEvents events value).notifies := by
  refine (orDefault_grows p).trans ?_
  unfold RPoll.updateEvents
  cases value with
  | false => exact .refl _
  | true =>
    obtain ⟨in_, out⟩ := events
    cases in_ <;> cases out
    · exact .refl _
    · exact .notifyWaiters _ _
    · exact .notifyWaiters _ _
    · exact (Grows.notifyWaiters _ _).trans (.notifyWaiters _ _)

theorem RPoll.Listed.orDefault (h : p.Listed) : p.orDefault.2.Listed := by
  unfold RPoll.orDefault
  split
  · exact h
  · intro ent hent side
    obtain rfl := Option.some.inj hent
    cases side <;> simp [SocketData.side]

theorem RPoll.Listed.updateEvents (h : p.Listed) (events : Events) (value : Bool) :
    (p.updateEvents events value).Listed := by
  intro ent hent side
  have hsame : (p.updateEvents events value).entry = p.orDefault.2.entry := by
    unfold RPoll.updateEvents
    cases value <;> rfl
  have hlen : (p.updateEvents events value).notifies.length = p.orDefault.2.notifies.length := by
    unfold RPoll.updateEvents notifyWaiters
    obtain ⟨in_, out⟩ := events
    cases value <;> cases in_ <;> cases out <;> simp
  rw [hsame] at hent
  rw [hlen]
  exact h.orDefault ent hent side

theorem signalled_updateEvents {events : Events} (hent : p.entry = some ent)
    (hside : events.contains side) (hmade : w.Made p.notifies) (hw : w.notify = ent.side side) :
    w.signalled (p.updateEvents events true).notifies := by
  unfold RPoll.updateEvents
  rw [orDefault_entry hent]
  obtain ⟨in_, out⟩ := events
  cases side with
  | readable =>
    obtain rfl : in_ = true := hside
    have hsignalled : w.signalled (notifyWaiters p.notifies ent.readable) := hmade.signalled hw
    cases out with
    | false => exact hsignalled
    | true => exact Notified.signalled_grow hsignalled (.notifyWaiters _ _)
  | writable =>
    obtain rfl : out = true := hside
    cases in_ with
    | false => exact hmade.signalled hw
    | true => exact (hmade.grow (.notifyWaiters _ ent.readable)).signalled hw

theorem waiter_some (h : p.waiter side = some w) :
    ∃ ent, p.entry = some ent ∧ w = notified p.notifies (ent.side side) := by
  obtain ⟨ent, hent, hw⟩ := Option.map_eq_some_iff.mp h
  exact ⟨ent, hent, hw.symm⟩

end RPoll

end NineWire.Udt
