import NineWire.Transition
import NineWire.Udt.Socket

/-! The calls of any number of tasks on one `Connection`, between the steps of
the UDT layer's threads. `recv`, `send_with` and `flush` are one loop: try, make
a waiter, try again, await the waiter. -/
namespace NineWire.Udt
open NineWire.Notify NineWire.Table NineWire.Transition
open NineWire.Wire (Bytes)

/-- A call, with the length of its buffer. -/
inductive Op where
  | recv (len : Nat)
  | sendWith (len : Nat)
  | flush
  deriving DecidableEq

def Op.side : Op → Side
  | .recv _ => .readable
  | .sendWith _ | .flush => .writable

def Op.waiter (p : RPoll) : Op → Option Notified
  | .recv _ => p.readable
  | .sendWith _ | .flush => p.writable

theorem waiter_side (op : Op) (p : RPoll) : op.waiter p = p.waiter op.side := by
  cases op <;> rfl

/-- How a call ends. The `unwrap` of a missing entry panics. -/
inductive Outcome where
  | received (data : Bytes)
  | sent (len : Nat)
  | flushed
  | failed (e : Errno)
  | panicked
  deriving DecidableEq

/-- A try that fails, unless it only would block. -/
def refuse (u : Socket) (e : Errno) : Option (Outcome × Socket) :=
  if e.wouldBlock then none else some (.failed e, u)

/-- One try: how the loop ends, and what it did to the socket; none where it
goes on. -/
def Op.attempt (cfg : Config) (u : Socket) : Op → Option (Outcome × Socket)
  | .recv len =>
    match u.recvmsg len with
    | .ok (data, u') => some (.received data, u')
    | .error e => refuse u e
  | .sendWith len =>
    match u.sendmsg cfg len with
    | .ok u' => some (.sent len, u')
    | .error e => refuse u e
  | .flush => if u.sendData = 0 then some (.flushed, u) else none

/-- Where a call stands: before its first try, before it makes its waiter, with
the waiter before its second try, at its await, or over. -/
inductive Stage where
  | trying
  | registering
  | retrying (w : Notified)
  | awaiting (w : Notified)
  | ended (outcome : Outcome)
  | dropped
  deriving DecidableEq

structure Task where
  op : Op
  stage : Stage
  deriving DecidableEq

structure Ended where
  op : Op
  outcome : Outcome
  socket : Socket

/-- `pending` are the calls of `update_events` that are due. No function reads
the log of what ended, newest first. -/
structure Connection where
  socket : Socket
  rpoll : RPoll
  pending : List Events
  tasks : List Task
  log : List Ended

def Connection.start : Connection where
  socket := .start
  rpoll := .start
  pending := []
  tasks := []
  log := []

inductive Action where
  | call (op : Op)
  | run (i : Nat)
  | drop (i : Nat)
  /-- `ackData` of the receive buffer makes messages readable. -/
  | deliver (messages : List Message)
  /-- `ackData` of the send buffer. -/
  | acknowledge (blocks : Nat)
  /-- `m_bBroken` is set, with a call of `update_events` to follow or without. -/
  | breaks (told : Bool)
  | updateEvents (j : Nat)
  /-- `checkBrokenSockets` moves the socket to `m_ClosedSockets`. -/
  | close
  /-- `removeSocket`, up to `remove_usock`. -/
  | remove
  | removeUsock

def Connection.moveTo (s : Connection) (i : Nat) (task : Task) (stage : Stage) : Connection :=
  { s with tasks := s.tasks.set i { task with stage } }

def Connection.finish (s : Connection) (i : Nat) (task : Task) (outcome : Outcome) : Connection :=
  { s.moveTo i task (.ended outcome) with log := ⟨task.op, outcome, s.socket⟩ :: s.log }

def Connection.attempt (cfg : Config) (s : Connection) (i : Nat) (task : Task) (blocked : Stage) :
    Connection :=
  match task.op.attempt cfg s.socket with
  | some (outcome, socket) => { s with socket }.finish i task outcome
  | none => s.moveTo i task blocked

def Connection.run (cfg : Config) (s : Connection) (i : Nat) (task : Task) : Option Connection :=
  match task.stage with
  | .trying => some (s.attempt cfg i task .registering)
  | .registering =>
    match task.op.waiter s.rpoll with
    | some w => some (s.moveTo i task (.retrying w))
    | none => some (s.finish i task .panicked)
  | .retrying w => some (s.attempt cfg i task (.awaiting w))
  | .awaiting w => if w.signalled s.rpoll.notifies then some (s.moveTo i task .trying) else none
  | .ended _ | .dropped => none

def Connection.step (cfg : Config) (s : Connection) : Action → Option Connection
  | .call op => some { s with tasks := s.tasks ++ [⟨op, .trying⟩] }
  | .run i => do
    let task ← s.tasks[i]?
    s.run cfg i task
  | .drop i => do
    let task ← s.tasks[i]?
    match task.stage with
    | .ended _ | .dropped => none
    | _ => some (s.moveTo i task .dropped)
  | .deliver messages =>
    if s.socket.status = .opened ∧ ¬s.socket.broken then
      some { s with
        socket := { s.socket with messages := s.socket.messages ++ messages }
        pending := s.pending ++ [⟨true, false⟩] }
    else none
  | .acknowledge blocks =>
    if s.socket.status = .opened ∧ ¬s.socket.broken ∧ 0 < blocks ∧
        blocks ≤ s.socket.blocks.length then
      some { s with
        socket := { s.socket with blocks := s.socket.blocks.drop blocks }
        pending := s.pending ++ [⟨false, true⟩] }
    else none
  | .breaks told =>
    if s.socket.status = .opened ∧ ¬s.socket.broken then
      some { s with
        socket := { s.socket with broken := true }
        pending := if told then s.pending ++ [⟨true, true⟩] else s.pending }
    else none
  | .updateEvents j => do
    let events ← s.pending[j]?
    some { s with rpoll := s.rpoll.updateEvents events true, pending := s.pending.eraseIdx j }
  | .close =>
    if s.socket.status = .opened ∧ s.socket.broken then
      some { s with socket := { s.socket with status := .closed } }
    else none
  | .remove =>
    if s.socket.status = .closed then
      some { s with
        socket := { s.socket with status := .removing }
        rpoll := s.rpoll.updateEvents ⟨true, true⟩ true }
    else none
  | .removeUsock =>
    if s.socket.status = .removing then
      some { s with socket := { s.socket with status := .removed }, rpoll := s.rpoll.removeUsock }
    else none

inductive Tries : Stage → Stage → Prop
  | first : Tries .trying .registering
  | second {w} : Tries (.retrying w) (.awaiting w)

inductive Stepped (cfg : Config) (s : Connection) : Action → Connection → Prop
  | call {op} : Stepped cfg s (.call op) { s with tasks := s.tasks ++ [⟨op, .trying⟩] }
  | ends {i task next outcome socket} (htask : s.tasks[i]? = some task)
      (htries : Tries task.stage next)
      (hattempt : task.op.attempt cfg s.socket = some (outcome, socket)) :
      Stepped cfg s (.run i) ({ s with socket }.finish i task outcome)
  | blocks {i task next} (htask : s.tasks[i]? = some task) (htries : Tries task.stage next)
      (hattempt : task.op.attempt cfg s.socket = none) :
      Stepped cfg s (.run i) (s.moveTo i task next)
  | registers {i task w} (htask : s.tasks[i]? = some task) (hstage : task.stage = .registering)
      (hw : s.rpoll.waiter task.op.side = some w) :
      Stepped cfg s (.run i) (s.moveTo i task (.retrying w))
  | panics {i task} (htask : s.tasks[i]? = some task) (hstage : task.stage = .registering)
      (hw : s.rpoll.waiter task.op.side = none) :
      Stepped cfg s (.run i) (s.finish i task .panicked)
  | wakes {i task w} (htask : s.tasks[i]? = some task) (hstage : task.stage = .awaiting w)
      (hw : w.signalled s.rpoll.notifies) : Stepped cfg s (.run i) (s.moveTo i task .trying)
  | drops {i task} (htask : s.tasks[i]? = some task) :
      Stepped cfg s (.drop i) (s.moveTo i task .dropped)
  | deliver {messages} (hopen : s.socket.status = .opened) :
      Stepped cfg s (.deliver messages)
        { s with
          socket := { s.socket with messages := s.socket.messages ++ messages }
          pending := s.pending ++ [⟨true, false⟩] }
  | acknowledge {blocks} (hopen : s.socket.status = .opened) :
      Stepped cfg s (.acknowledge blocks)
        { s with
          socket := { s.socket with blocks := s.socket.blocks.drop blocks }
          pending := s.pending ++ [⟨false, true⟩] }
  | breaks {told} (hopen : s.socket.status = .opened) :
      Stepped cfg s (.breaks told)
        { s with
          socket := { s.socket with broken := true }
          pending := if told then s.pending ++ [⟨true, true⟩] else s.pending }
  | updateEvents {j events} (hevents : s.pending[j]? = some events) :
      Stepped cfg s (.updateEvents j)
        { s with rpoll := s.rpoll.updateEvents events true, pending := s.pending.eraseIdx j }
  | close (hbroken : s.socket.broken = true) :
      Stepped cfg s .close { s with socket := { s.socket with status := .closed } }
  | remove (hclosed : s.socket.status = .closed) :
      Stepped cfg s .remove
        { s with
          socket := { s.socket with status := .removing }
          rpoll := s.rpoll.updateEvents ⟨true, true⟩ true }
  | removeUsock (hremoving : s.socket.status = .removing) :
      Stepped cfg s .removeUsock
        { s with
          socket := { s.socket with status := .removed }
          rpoll := s.rpoll.removeUsock }

section Stepped
variable {cfg : Config} {s s' : Connection} {a : Action} {i : Nat} {task : Task}

theorem attempt_cases {next : Stage} (htask : s.tasks[i]? = some task)
    (htries : Tries task.stage next) : Stepped cfg s (.run i) (s.attempt cfg i task next) := by
  unfold Connection.attempt
  cases hattempt : task.op.attempt cfg s.socket with
  | none => exact .blocks htask htries hattempt
  | some result => exact .ends htask htries hattempt

theorem run_cases (htask : s.tasks[i]? = some task) (h : s.run cfg i task = some s') :
    Stepped cfg s (.run i) s' := by
  unfold Connection.run at h
  split at h
  · rename_i hstage
    obtain rfl := Option.some.inj h
    exact attempt_cases htask (hstage ▸ .first)
  · rename_i hstage
    split at h
    · rename_i w hw
      obtain rfl := Option.some.inj h
      exact .registers htask hstage ((waiter_side _ _).symm.trans hw)
    · rename_i hw
      obtain rfl := Option.some.inj h
      exact .panics htask hstage ((waiter_side _ _).symm.trans hw)
  · rename_i w hstage
    obtain rfl := Option.some.inj h
    exact attempt_cases htask (hstage ▸ .second)
  · rename_i w hstage
    obtain ⟨hw, h⟩ := Option.ite_none_right_eq_some.mp h
    obtain rfl := Option.some.inj h
    exact .wakes htask hstage hw
  · cases h
  · cases h

theorem step_cases (h : s.step cfg a = some s') : Stepped cfg s a s' := by
  cases a with
  | call op =>
    obtain rfl := Option.some.inj h
    exact .call
  | run i =>
    obtain ⟨task, htask, h⟩ := Option.bind_eq_some_iff.mp h
    exact run_cases htask h
  | drop i =>
    obtain ⟨task, htask, h⟩ := Option.bind_eq_some_iff.mp h
    split at h
    · cases h
    · cases h
    · obtain rfl := Option.some.inj h
      exact .drops htask
  | updateEvents j =>
    obtain ⟨events, hevents, h⟩ := Option.bind_eq_some_iff.mp h
    obtain rfl := Option.some.inj h
    exact .updateEvents hevents
  | deliver messages =>
    obtain ⟨hguard, h⟩ := Option.ite_none_right_eq_some.mp h
    obtain rfl := Option.some.inj h
    exact .deliver hguard.1
  | acknowledge blocks =>
    obtain ⟨hguard, h⟩ := Option.ite_none_right_eq_some.mp h
    obtain rfl := Option.some.inj h
    exact .acknowledge hguard.1
  | breaks told =>
    obtain ⟨hguard, h⟩ := Option.ite_none_right_eq_some.mp h
    obtain rfl := Option.some.inj h
    exact .breaks hguard.1
  | close =>
    obtain ⟨hguard, h⟩ := Option.ite_none_right_eq_some.mp h
    obtain rfl := Option.some.inj h
    exact .close hguard.2
  | remove =>
    obtain ⟨hguard, h⟩ := Option.ite_none_right_eq_some.mp h
    obtain rfl := Option.some.inj h
    exact .remove hguard
  | removeUsock =>
    obtain ⟨hguard, h⟩ := Option.ite_none_right_eq_some.mp h
    obtain rfl := Option.some.inj h
    exact .removeUsock hguard

end Stepped

end NineWire.Udt
