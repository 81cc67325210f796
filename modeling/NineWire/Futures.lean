import Mathlib.Tactic.Common

/-! Futures that are kept in one place, where they are polled and replaced. A
future runs to completion once: polled again after that, it panics. General:
what a future was called with, what it returns and its errors are parameters. -/
namespace NineWire.Futures
variable {ι ε α β σ : Type}

/-- What a poll of a fallible future returns, unless it panics. -/
inductive Polled (ε α : Type) where
  | pending
  | ready (a : α)
  | failed (e : ε)
  | panicked
  deriving DecidableEq

/-- `ready!(..)?`: go on with what is ready, return early with anything else. -/
def Polled.andThen (polled : Polled ε α) (s : σ) (next : α → Polled ε β × σ) :
    Polled ε β × σ :=
  match polled with
  | .pending => (.pending, s)
  | .ready a => next a
  | .failed e => (.failed e, s)
  | .panicked => (.panicked, s)

/-- `pending()`, or a call of an `async fn` and how far it is. -/
inductive Stored (ι : Type) where
  | never
  | created (args : ι)
  | running (args : ι)
  | completed (args : ι)
  deriving DecidableEq

/-- Poll the stored future. `answer` is none while it has to wait. -/
def Stored.poll (fut : Stored ι) (answer : Option (Except ε α)) : Polled ε α × Stored ι :=
  match fut, answer with
  | .never, _ => (.pending, .never)
  | .created args, none => (.pending, .running args)
  | .running args, none => (.pending, .running args)
  | .created args, some (.ok a) => (.ready a, .completed args)
  | .running args, some (.ok a) => (.ready a, .completed args)
  | .created args, some (.error e) => (.failed e, .completed args)
  | .running args, some (.error e) => (.failed e, .completed args)
  | .completed args, _ => (.panicked, .completed args)

def Stored.live : Stored ι → Option ι
  | .created args | .running args => some args
  | .never | .completed _ => none

variable {fut : Stored ι} {args : ι}

theorem poll_none (h : fut.live = some args) :
    fut.poll (none : Option (Except ε α)) = (.pending, .running args) := by
  cases fut with
  | created _ | running _ =>
    obtain rfl := Option.some.inj h
    rfl
  | never | completed _ => cases h

theorem poll_ok (h : fut.live = some args) (a : α) :
    fut.poll (some (.ok a : Except ε α)) = (.ready a, .completed args) := by
  cases fut with
  | created _ | running _ =>
    obtain rfl := Option.some.inj h
    rfl
  | never | completed _ => cases h

theorem poll_error (h : fut.live = some args) (e : ε) :
    fut.poll (some (.error e : Except ε α)) = (.failed e, .completed args) := by
  cases fut with
  | created _ | running _ =>
    obtain rfl := Option.some.inj h
    rfl
  | never | completed _ => cases h

/-- A poll does not depend on whether there were others before it. -/
theorem poll_running (h : fut.live = some args) (answer : Option (Except ε α)) :
    (Stored.running args).poll answer = fut.poll answer := by
  cases fut with
  | created _ | running _ =>
    obtain rfl := Option.some.inj h
    cases answer with
    | none => rfl
    | some res => cases res <;> rfl
  | never | completed _ => cases h

theorem poll_completed (answer : Option (Except ε α)) :
    (Stored.completed args).poll answer = (.panicked, .completed args) := by
  cases answer with
  | none => rfl
  | some res => cases res <;> rfl

theorem poll_dead (h : fut.live = none) (answer : Option (Except ε α)) :
    fut.poll answer = (.pending, fut) ∨ fut.poll answer = (.panicked, fut) := by
  cases fut with
  | never => exact .inl rfl
  | completed args => exact .inr (poll_completed answer)
  | created _ | running _ => cases h

end NineWire.Futures
