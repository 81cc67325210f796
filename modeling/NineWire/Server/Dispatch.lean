import Mathlib.Logic.Function.Basic
import NineWire.Server.Traits

/-! `dispatch`: one request against the fid table. The table lock is taken
before the first lookup and held to the end, so a dispatch is one transition
of the table whatever else is in flight. -/
namespace NineWire.Server
open NineWire.Wire

/-- 1280 for the IPv6 MTU, 64 for IP+UDP+UDT, 8 and 16 for nonce and tag. -/
def maxMessageSize : Nat := 1280 - 64 - 8 - 16

def rerror (ename : ByteString) : Abort := .err ename

section Dispatch
variable {W P O : Type}

abbrev DispatchM (W P O α : Type) := EStateM Abort (ResourceManager W P O) α

/-- `if cond { return Err(rerror(ename)) }`. -/
def throwIf (cond : Bool) (ename : ByteString) : DispatchM W P O Unit :=
  if cond then throw (rerror ename) else pure ()

/-- Run a resource call on the shared state only. -/
def await {α : Type} (call : Call W α) : DispatchM W P O α := fun mgr =>
  match call.run mgr.world with
  | .ok a world => .ok a { mgr with world }
  | .error e world => .error e { mgr with world }

def containsKey (fid : UInt32) : DispatchM W P O Bool := do
  return ((← get).resources fid).isSome

/-- `resources.get(&fid).ok_or_else(|| rerror(ename))?`. -/
def getFid (fid : UInt32) (ename : ByteString) : DispatchM W P O (Resource P O) := do
  match (← get).resources fid with
  | some resource => return resource
  | none => throw (rerror ename)

/-- The `ares` of an attach: none for NOFID, else an open resource. -/
def getAfid (afid : UInt32) : DispatchM W P O (Option O) :=
  if afid = nofid then pure none else do
    match (← get).resources afid with
    | some (.open_ res) => return some res
    | _ => throw (rerror "fid invalid")

def insert (fid : UInt32) (resource : Resource P O) : DispatchM W P O Unit :=
  modify fun mgr => { mgr with resources := Function.update mgr.resources fid (some resource) }

def remove (fid : UInt32) : DispatchM W P O Unit :=
  modify fun mgr => { mgr with resources := Function.update mgr.resources fid none }

def dispatch (handler : Serve W P O) (maxlen : Nat) : TMessage → DispatchM W P O RMessage
  -- unimplemented!()
  | .tversion _ | .tflush _ => throw .panic
  | .tauth ⟨afid, uname, aname⟩ => do
    throwIf (afid = nofid) "fid invalid"
    throwIf (← containsKey afid) "fid in use"
    let res ← await (handler.auth uname aname)
    let aqid := handler.openQid res
    insert afid (.open_ res)
    return .rauth ⟨aqid⟩
  | .tattach ⟨fid, afid, uname, aname⟩ => do
    throwIf (fid = nofid) "fid invalid"
    throwIf (← containsKey fid) "fid in use"
    let ares ← getAfid afid
    let res ← await (handler.attach ares uname aname)
    let qid := handler.pathQid res
    insert fid (.path res)
    return .rattach ⟨qid⟩
  | .twalk ⟨fid, newfid, wname⟩ => do
    throwIf (newfid = nofid) "Invalid argument"
    throwIf (← containsKey newfid) "fid in use"
    match ← getFid fid "Fid not" with
    | .path resource => do
      let (wqid, newResource) ← await (handler.walk resource wname)
      match newResource with
      | some new => do
        let wqid := if wname.isEmpty then wqid else wqid ++ [handler.pathQid new]
        insert newfid (.path new)
        return .rwalk ⟨wqid⟩
      | none => return .rwalk ⟨wqid⟩
    | .open_ _ => throw (rerror "fid open for I/O")
  | .topen ⟨fid, mode⟩ => do
    match ← getFid fid "fid invalid" with
    | .path resource => do
      let openResource ← await (handler.open_ resource mode)
      let qid := handler.openQid openResource
      insert fid (.open_ openResource)
      return .ropen ⟨qid, 0⟩
    | .open_ _ => throw (rerror "fid open for I/O")
  | .tcreate ⟨fid, name, perm, mode⟩ => do
    match ← getFid fid "fid invalid" with
    | .path resource => do
      let openResource ← await (handler.create resource name perm mode)
      let qid := handler.openQid openResource
      insert fid (.open_ openResource)
      return .rcreate ⟨qid, 0⟩
    | .open_ _ => throw (rerror "fid open for I/O")
  | .tread ⟨fid, offset, count⟩ => do
    match ← getFid fid "fid invalid" with
    | .open_ resource => do
      let data ← await (handler.read resource offset count)
      return .rread ⟨data.take (maxlen - rreadOverhead)⟩
    | .path _ => throw (rerror "fid not open for read")
  | .treads _ => throw (rerror "not implemented")
  | .twrite ⟨fid, offset, data⟩ => do
    match ← getFid fid "fid invalid" with
    | .open_ resource => do
      let count ← await (handler.write resource offset data)
      return .rwrite ⟨count⟩
    | .path _ => throw (rerror "fid not open for write")
  | .tclunk ⟨fid⟩ => do
    let _ ← getFid fid "fid invalid"
    remove fid
    return .rclunk {}
  | .tremove ⟨fid⟩ => do
    let resource ← getFid fid "fid invalid"
    remove fid
    match resource with
    | .path res => await (handler.pathRemove res)
    | .open_ res => await (handler.openRemove res)
    return .rremove {}
  | .tstat ⟨fid⟩ => do
    let stat ← match ← getFid fid "fid invalid" with
      | .path res => await (handler.pathStat res)
      | .open_ res => await (handler.openStat res)
    return .rstat ⟨stat⟩
  | .twstat ⟨fid, stat⟩ => do
    match ← getFid fid "fid invalid" with
    | .path res => await (handler.pathWstat res stat)
    | .open_ res => await (handler.openWstat res stat)
    return .rwstat {}

section Sequencing
variable {α β : Type} {mgr mgr' : ResourceManager W P O} {e : Abort} {b : β}

theorem throw_run : (throw e : DispatchM W P O α).run mgr = .error e mgr := rfl

theorem containsKey_bind (fid : UInt32) (f : Bool → DispatchM W P O β) :
    (containsKey fid >>= f).run mgr = (f (mgr.resources fid).isSome).run mgr := rfl

theorem insert_bind (fid : UInt32) (resource : Resource P O) (f : Unit → DispatchM W P O β) :
    (insert fid resource >>= f).run mgr = (f ()).run
      { mgr with resources := Function.update mgr.resources fid (some resource) } := rfl

theorem remove_bind (fid : UInt32) (f : Unit → DispatchM W P O β) :
    (remove fid >>= f).run mgr =
      (f ()).run { mgr with resources := Function.update mgr.resources fid none } := rfl

theorem throwIf_bind_ok {cond : Bool} {ename : ByteString} {f : Unit → DispatchM W P O β} :
    (throwIf cond ename >>= f).run mgr = .ok b mgr' ↔
      cond = false ∧ (f ()).run mgr = .ok b mgr' := by
  cases cond <;> simp [throwIf]

theorem throwIf_bind_error {cond : Bool} {ename : ByteString} {f : Unit → DispatchM W P O β} :
    (throwIf cond ename >>= f).run mgr = .error e mgr' ↔
      (e = rerror ename ∧ mgr' = mgr ∧ cond = true) ∨
        (cond = false ∧ (f ()).run mgr = .error e mgr') := by
  cases cond <;> simp [throwIf, eq_comm]

theorem getFid_bind_ok {fid : UInt32} {ename : ByteString}
    {f : Resource P O → DispatchM W P O β} :
    (getFid fid ename >>= f).run mgr = .ok b mgr' ↔
      ∃ resource, mgr.resources fid = some resource ∧ (f resource).run mgr = .ok b mgr' := by
  cases h : mgr.resources fid <;> simp [getFid, h, throw_run]

theorem getFid_bind_error {fid : UInt32} {ename : ByteString}
    {f : Resource P O → DispatchM W P O β} :
    (getFid fid ename >>= f).run mgr = .error e mgr' ↔
      (e = rerror ename ∧ mgr' = mgr ∧ mgr.resources fid = none) ∨
        ∃ resource, mgr.resources fid = some resource ∧
          (f resource).run mgr = .error e mgr' := by
  cases h : mgr.resources fid <;> simp [getFid, h, throw_run, eq_comm]

theorem await_bind_ok {call : Call W α} {f : α → DispatchM W P O β} :
    (await call >>= f).run mgr = .ok b mgr' ↔ ∃ a world,
      call.run mgr.world = .ok a world ∧ (f a).run { mgr with world } = .ok b mgr' := by
  rw [EStateM.run_bind]
  cases h : call.run mgr.world <;> simp_all [await, EStateM.run]

theorem await_bind_error {call : Call W α} {f : α → DispatchM W P O β} :
    (await call >>= f).run mgr = .error e mgr' ↔
      (∃ world, call.run mgr.world = .error e world ∧ mgr' = { mgr with world }) ∨
        ∃ a world, call.run mgr.world = .ok a world ∧
          (f a).run { mgr with world } = .error e mgr' := by
  rw [EStateM.run_bind]
  cases h : call.run mgr.world <;> simp_all [await, EStateM.run, eq_comm]

end Sequencing

end Dispatch

end NineWire.Server
