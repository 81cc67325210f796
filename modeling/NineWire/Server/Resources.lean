import NineWire.Server.StepCases
import NineWire.Server.FidTable
import NineWire.Stateful
import NineWire.Transition

/-! Invariants of the resources. What every resource call keeps, `dispatch`
keeps of the whole fid table, and a session keeps over every run. -/
namespace NineWire.Server
open NineWire.Wire NineWire.Stateful NineWire.Transition

variable {W P O : Type}

structure ResourceInvariant (W P O : Type) where
  world : W → Prop
  path : P → Prop
  open_ : O → Prop
  /-- The walks the invariant is promised for. -/
  walks : P → List ByteString → Prop

def ResourceInvariant.resource (I : ResourceInvariant W P O) : Resource P O → Prop
  | .path res => I.path res
  | .open_ res => I.open_ res

structure ResourceInvariant.Holds (I : ResourceInvariant W P O) (mgr : ResourceManager W P O) :
    Prop where
  world : I.world mgr.world
  resource : ∀ fid resource, mgr.resources fid = some resource → I.resource resource

structure Serve.Respects (handler : Serve W P O) (I : ResourceInvariant W P O) : Prop where
  remove : ∀ resource, I.resource resource →
    Keeps I.world (removeCall handler resource) fun _ => True
  stat : ∀ resource, I.resource resource →
    Keeps I.world (statCall handler resource) fun _ => True
  wstat : ∀ stat resource, I.resource resource →
    Keeps I.world (wstatCall handler stat resource) fun _ => True
  walk : ∀ res wname, I.path res → I.walks res wname →
    Keeps I.world (handler.walk res wname) fun walked => ∀ new ∈ walked.2, I.path new
  open_ : ∀ res mode, I.path res → Keeps I.world (handler.open_ res mode) I.open_
  create : ∀ res name perm mode, I.path res →
    Keeps I.world (handler.create res name perm mode) I.open_
  read : ∀ res offset count, I.open_ res →
    Keeps I.world (handler.read res offset count) fun _ => True
  write : ∀ res offset data, I.open_ res →
    Keeps I.world (handler.write res offset data) fun _ => True
  auth : ∀ uname aname, Keeps I.world (handler.auth uname aname) I.open_
  attach : ∀ ares uname aname, (∀ res ∈ ares, I.open_ res) →
    Keeps I.world (handler.attach ares uname aname) I.path

def ResourceInvariant.Walks (I : ResourceInvariant W P O) (mgr : ResourceManager W P O)
    (req : TMessage) : Prop :=
  ∀ fid newfid wname res, req = .twalk ⟨fid, newfid, wname⟩ →
    mgr.resources fid = some (.path res) → I.walks res wname

variable {handler : Serve W P O} {I : ResourceInvariant W P O} {mgr mgr' : ResourceManager W P O}
  {req : TMessage} {resp : RMessage} {e : Abort}

theorem ResourceInvariant.Holds.authenticated (h : I.Holds mgr) {afid : UInt32} {ares : Option O}
    (hares : Authenticated mgr afid ares) : ∀ res ∈ ares, I.open_ res := by
  intro res hres
  obtain rfl := Option.mem_def.mp hres
  exact h.resource afid _ hares.2

theorem ResourceInvariant.Holds.bound (h : I.Holds mgr) {fid : UInt32} {resource : Resource P O}
    {world : W} (hworld : I.world world) (hresource : I.resource resource) :
    I.Holds (mgr.bound fid resource world) where
  world := hworld
  resource fid' resource' heq := by
    by_cases hfid : fid' = fid
    · subst hfid
      obtain rfl : resource = resource' := by simpa [ResourceManager.bound] using heq
      exact hresource
    · exact h.resource fid' resource' (by simpa [ResourceManager.bound, hfid] using heq)

theorem ResourceInvariant.Holds.unbound (h : I.Holds mgr) {fid : UInt32} {world : W}
    (hworld : I.world world) : I.Holds (mgr.unbound fid world) where
  world := hworld
  resource fid' resource' heq := by
    by_cases hfid : fid' = fid
    · subst hfid
      simp [ResourceManager.unbound] at heq
    · exact h.resource fid' resource' (by simpa [ResourceManager.unbound, hfid] using heq)

theorem ResourceInvariant.Holds.same (h : I.Holds mgr) {world : W} (hworld : I.world world) :
    I.Holds { mgr with world } :=
  ⟨hworld, h.resource⟩

/-- A dispatch that succeeds keeps the invariant. -/
theorem Serve.Respects.served {maxlen : Nat} (hkeeps : handler.Respects I) (h : I.Holds mgr)
    (hwalks : I.Walks mgr req) (hserved : Served handler maxlen mgr req resp mgr') :
    I.Holds mgr' := by
  cases hserved with
  | tauth hfid hfree hcall =>
    obtain ⟨hworld, hres⟩ := (hkeeps.auth _ _ _ h.world).1 _ _ hcall
    exact h.bound hworld hres
  | tattach hfid hfree hares hcall =>
    obtain ⟨hworld, hres⟩ := (hkeeps.attach _ _ _ (h.authenticated hares) _ h.world).1 _ _ hcall
    exact h.bound hworld hres
  | twalkFull hfid hfree hres hcall =>
    have hwalk := hkeeps.walk _ _ (h.resource _ _ hres) (hwalks _ _ _ _ rfl hres)
    obtain ⟨hworld, hnew⟩ := (hwalk _ h.world).1 _ _ hcall
    exact h.bound hworld (hnew _ rfl)
  | twalkPart hfid hfree hres hcall =>
    have hwalk := hkeeps.walk _ _ (h.resource _ _ hres) (hwalks _ _ _ _ rfl hres)
    exact h.same ((hwalk _ h.world).1 _ _ hcall).1
  | topen hres hcall =>
    obtain ⟨hworld, hnew⟩ := (hkeeps.open_ _ _ (h.resource _ _ hres) _ h.world).1 _ _ hcall
    exact h.bound hworld hnew
  | tcreate hres hcall =>
    obtain ⟨hworld, hnew⟩ := (hkeeps.create _ _ _ _ (h.resource _ _ hres) _ h.world).1 _ _ hcall
    exact h.bound hworld hnew
  | tread hres hcall =>
    exact h.same ((hkeeps.read _ _ _ (h.resource _ _ hres) _ h.world).1 _ _ hcall).1
  | twrite hres hcall =>
    exact h.same ((hkeeps.write _ _ _ (h.resource _ _ hres) _ h.world).1 _ _ hcall).1
  | tclunk hres => exact h.unbound h.world
  | tremove hres hcall =>
    exact h.unbound ((hkeeps.remove _ (h.resource _ _ hres) _ h.world).1 _ _ hcall).1
  | tstat hres hcall =>
    exact h.same ((hkeeps.stat _ (h.resource _ _ hres) _ h.world).1 _ _ hcall).1
  | twstat hres hcall =>
    exact h.same ((hkeeps.wstat _ _ (h.resource _ _ hres) _ h.world).1 _ _ hcall).1

/-- What a failed call leaves behind keeps it too. -/
theorem Serve.Respects.callFails {world : W} (hkeeps : handler.Respects I) (h : I.Holds mgr)
    (hwalks : I.Walks mgr req) (hfails : CallFails handler mgr req e world) : I.world world := by
  cases hfails with
  | tauth hfid hfree hcall => exact (hkeeps.auth _ _ _ h.world).2 _ _ hcall
  | tattach hfid hfree hares hcall =>
    exact (hkeeps.attach _ _ _ (h.authenticated hares) _ h.world).2 _ _ hcall
  | twalk hfid hfree hres hcall =>
    have hwalk := hkeeps.walk _ _ (h.resource _ _ hres) (hwalks _ _ _ _ rfl hres)
    exact (hwalk _ h.world).2 _ _ hcall
  | topen hres hcall => exact (hkeeps.open_ _ _ (h.resource _ _ hres) _ h.world).2 _ _ hcall
  | tcreate hres hcall => exact (hkeeps.create _ _ _ _ (h.resource _ _ hres) _ h.world).2 _ _ hcall
  | tread hres hcall => exact (hkeeps.read _ _ _ (h.resource _ _ hres) _ h.world).2 _ _ hcall
  | twrite hres hcall => exact (hkeeps.write _ _ _ (h.resource _ _ hres) _ h.world).2 _ _ hcall
  | tremove hres hcall => exact (hkeeps.remove _ (h.resource _ _ hres) _ h.world).2 _ _ hcall
  | tstat hres hcall => exact (hkeeps.stat _ (h.resource _ _ hres) _ h.world).2 _ _ hcall
  | twstat hres hcall => exact (hkeeps.wstat _ _ (h.resource _ _ hres) _ h.world).2 _ _ hcall

theorem Serve.Respects.failed (hkeeps : handler.Respects I) (h : I.Holds mgr)
    (hwalks : I.Walks mgr req) (hfailed : Failed handler mgr req e mgr') : I.Holds mgr' := by
  cases hfailed with
  | unimplemented hreq => exact h
  | refused hename hsame => exact h
  | call hcall =>
    have hworld := hkeeps.callFails h hwalks hcall
    cases req with
    | tremove m => exact h.unbound hworld
    | _ => exact h.same hworld

variable {s s' : Session W P O} {a : Action}

inductive TableStep (handler : Serve W P O) (s : Session W P O) :
    Action → ResourceManager W P O → Prop
  | same (a : Action) : TableStep handler s a s.mgr
  | reset (a : Action) : TableStep handler s a { s.mgr with resources := fun _ => none }
  | served {i fut req resp mgr} (hfut : s.inflight[i]? = some fut) (hhdl : fut.hdl = .dispatch req)
      (hserved : Served handler maxMessageSize s.mgr req resp mgr) :
      TableStep handler s (.complete i) mgr
  | failed {i fut req text mgr} (hfut : s.inflight[i]? = some fut)
      (hhdl : fut.hdl = .dispatch req) (hfailed : Failed handler s.mgr req (.err text) mgr) :
      TableStep handler s (.complete i) mgr

theorem table_step (h : s.step handler a = some s') : TableStep handler s a s'.mgr := by
  cases step_cases h with
  | reset hpc hempty hnext hbytes => exact .reset _
  | complete hpc hfut hresp =>
    rename_i i fut resp mgr
    obtain ⟨tag, flushes, hdl⟩ := fut
    cases hresp with
    | ready => exact .same _
    | served hrun => exact .served hfut rfl (dispatch_ok hrun)
    | failed hrun => exact .failed hfut rfl (dispatch_error hrun)
  | _ => exact .same _

def ResourceInvariant.WalksStep (I : ResourceInvariant W P O) (s : Session W P O) : Action → Prop
  | .complete i => ∀ fut req, s.inflight[i]? = some fut → fut.hdl = .dispatch req → I.Walks s.mgr req
  | _ => True

theorem Serve.Respects.step (hkeeps : handler.Respects I) (h : I.Holds s.mgr) (hwalks : I.WalksStep s a)
    (hstep : s.step handler a = some s') : I.Holds s'.mgr := by
  have htable := table_step hstep
  generalize s'.mgr = mgr at htable ⊢
  cases htable with
  | same => exact h
  | reset => exact ⟨h.world, nofun⟩
  | served hfut hhdl hserved => exact hkeeps.served h (hwalks _ _ hfut hhdl) hserved
  | failed hfut hhdl hfailed => exact hkeeps.failed h (hwalks _ _ hfut hhdl) hfailed

/-- What the resource calls keep holds in every state of every run. -/
theorem Serve.Respects.run {world : W} (hkeeps : handler.Respects I) (hworld : I.world world)
    (h : Steps (Session.step handler) I.WalksStep (.start world) s) : I.Holds s.mgr := by
  let J : Session W P O → Prop := fun s => I.Holds s.mgr
  have hstart : J (.start world) := ⟨hworld, nofun⟩
  exact h.invariant hstart fun hJ hok hstep => hkeeps.step hJ hok hstep

end NineWire.Server
