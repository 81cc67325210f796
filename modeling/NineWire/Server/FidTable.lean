import NineWire.Server.Dispatch

/-! What one dispatch can do to the fid table and to the shared state: every
way it succeeds, every way it fails, and the table each of them leaves. -/
namespace NineWire.Server
open NineWire.Wire

variable {W P O : Type}

def ResourceManager.bound (mgr : ResourceManager W P O) (fid : UInt32)
    (resource : Resource P O) (world : W) : ResourceManager W P O :=
  { resources := Function.update mgr.resources fid (some resource), world }

def ResourceManager.unbound (mgr : ResourceManager W P O) (fid : UInt32)
    (world : W) : ResourceManager W P O :=
  { resources := Function.update mgr.resources fid none, world }

def removeCall (handler : Serve W P O) : Resource P O → Call W Unit
  | .path res => handler.pathRemove res
  | .open_ res => handler.openRemove res

def statCall (handler : Serve W P O) : Resource P O → Call W Stat
  | .path res => handler.pathStat res
  | .open_ res => handler.openStat res

def wstatCall (handler : Serve W P O) (stat : Stat) : Resource P O → Call W Unit
  | .path res => handler.pathWstat res stat
  | .open_ res => handler.openWstat res stat

def Authenticated (mgr : ResourceManager W P O) (afid : UInt32) : Option O → Prop
  | none => afid = nofid
  | some res => afid ≠ nofid ∧ mgr.resources afid = some (.open_ res)

inductive Served (handler : Serve W P O) (maxlen : Nat) (mgr : ResourceManager W P O) :
    TMessage → RMessage → ResourceManager W P O → Prop
  | tauth {afid uname aname res world} (hfid : afid ≠ nofid) (hfree : mgr.resources afid = none)
      (hcall : (handler.auth uname aname).run mgr.world = .ok res world) :
      Served handler maxlen mgr (.tauth ⟨afid, uname, aname⟩) (.rauth ⟨handler.openQid res⟩)
        (mgr.bound afid (.open_ res) world)
  | tattach {fid afid uname aname ares res world} (hfid : fid ≠ nofid)
      (hfree : mgr.resources fid = none) (hares : Authenticated mgr afid ares)
      (hcall : (handler.attach ares uname aname).run mgr.world = .ok res world) :
      Served handler maxlen mgr (.tattach ⟨fid, afid, uname, aname⟩)
        (.rattach ⟨handler.pathQid res⟩) (mgr.bound fid (.path res) world)
  | twalkFull {fid newfid wname res wqid new world} (hfid : newfid ≠ nofid)
      (hfree : mgr.resources newfid = none) (hres : mgr.resources fid = some (.path res))
      (hcall : (handler.walk res wname).run mgr.world = .ok (wqid, some new) world) :
      Served handler maxlen mgr (.twalk ⟨fid, newfid, wname⟩)
        (.rwalk ⟨if wname.isEmpty then wqid else wqid ++ [handler.pathQid new]⟩)
        (mgr.bound newfid (.path new) world)
  | twalkPart {fid newfid wname res wqid world} (hfid : newfid ≠ nofid)
      (hfree : mgr.resources newfid = none) (hres : mgr.resources fid = some (.path res))
      (hcall : (handler.walk res wname).run mgr.world = .ok (wqid, none) world) :
      Served handler maxlen mgr (.twalk ⟨fid, newfid, wname⟩) (.rwalk ⟨wqid⟩) { mgr with world }
  | topen {fid mode res new world} (hres : mgr.resources fid = some (.path res))
      (hcall : (handler.open_ res mode).run mgr.world = .ok new world) :
      Served handler maxlen mgr (.topen ⟨fid, mode⟩) (.ropen ⟨handler.openQid new, 0⟩)
        (mgr.bound fid (.open_ new) world)
  | tcreate {fid name perm mode res new world} (hres : mgr.resources fid = some (.path res))
      (hcall : (handler.create res name perm mode).run mgr.world = .ok new world) :
      Served handler maxlen mgr (.tcreate ⟨fid, name, perm, mode⟩)
        (.rcreate ⟨handler.openQid new, 0⟩) (mgr.bound fid (.open_ new) world)
  | tread {fid offset count res data world} (hres : mgr.resources fid = some (.open_ res))
      (hcall : (handler.read res offset count).run mgr.world = .ok data world) :
      Served handler maxlen mgr (.tread ⟨fid, offset, count⟩)
        (.rread ⟨data.take (maxlen - rreadOverhead)⟩) { mgr with world }
  | twrite {fid offset data res count world} (hres : mgr.resources fid = some (.open_ res))
      (hcall : (handler.write res offset data).run mgr.world = .ok count world) :
      Served handler maxlen mgr (.twrite ⟨fid, offset, data⟩) (.rwrite ⟨count⟩) { mgr with world }
  | tclunk {fid resource} (hres : mgr.resources fid = some resource) :
      Served handler maxlen mgr (.tclunk ⟨fid⟩) (.rclunk {}) (mgr.unbound fid mgr.world)
  | tremove {fid resource world} (hres : mgr.resources fid = some resource)
      (hcall : (removeCall handler resource).run mgr.world = .ok () world) :
      Served handler maxlen mgr (.tremove ⟨fid⟩) (.rremove {}) (mgr.unbound fid world)
  | tstat {fid resource stat world} (hres : mgr.resources fid = some resource)
      (hcall : (statCall handler resource).run mgr.world = .ok stat world) :
      Served handler maxlen mgr (.tstat ⟨fid⟩) (.rstat ⟨stat⟩) { mgr with world }
  | twstat {fid stat resource world} (hres : mgr.resources fid = some resource)
      (hcall : (wstatCall handler stat resource).run mgr.world = .ok () world) :
      Served handler maxlen mgr (.twstat ⟨fid, stat⟩) (.rwstat {}) { mgr with world }

inductive CallFails (handler : Serve W P O) (mgr : ResourceManager W P O) :
    TMessage → Abort → W → Prop
  | tauth {afid uname aname e world} (hfid : afid ≠ nofid) (hfree : mgr.resources afid = none)
      (hcall : (handler.auth uname aname).run mgr.world = .error e world) :
      CallFails handler mgr (.tauth ⟨afid, uname, aname⟩) e world
  | tattach {fid afid uname aname ares e world} (hfid : fid ≠ nofid)
      (hfree : mgr.resources fid = none) (hares : Authenticated mgr afid ares)
      (hcall : (handler.attach ares uname aname).run mgr.world = .error e world) :
      CallFails handler mgr (.tattach ⟨fid, afid, uname, aname⟩) e world
  | twalk {fid newfid wname res e world} (hfid : newfid ≠ nofid)
      (hfree : mgr.resources newfid = none) (hres : mgr.resources fid = some (.path res))
      (hcall : (handler.walk res wname).run mgr.world = .error e world) :
      CallFails handler mgr (.twalk ⟨fid, newfid, wname⟩) e world
  | topen {fid mode res e world} (hres : mgr.resources fid = some (.path res))
      (hcall : (handler.open_ res mode).run mgr.world = .error e world) :
      CallFails handler mgr (.topen ⟨fid, mode⟩) e world
  | tcreate {fid name perm mode res e world} (hres : mgr.resources fid = some (.path res))
      (hcall : (handler.create res name perm mode).run mgr.world = .error e world) :
      CallFails handler mgr (.tcreate ⟨fid, name, perm, mode⟩) e world
  | tread {fid offset count res e world} (hres : mgr.resources fid = some (.open_ res))
      (hcall : (handler.read res offset count).run mgr.world = .error e world) :
      CallFails handler mgr (.tread ⟨fid, offset, count⟩) e world
  | twrite {fid offset data res e world} (hres : mgr.resources fid = some (.open_ res))
      (hcall : (handler.write res offset data).run mgr.world = .error e world) :
      CallFails handler mgr (.twrite ⟨fid, offset, data⟩) e world
  | tremove {fid resource e world} (hres : mgr.resources fid = some resource)
      (hcall : (removeCall handler resource).run mgr.world = .error e world) :
      CallFails handler mgr (.tremove ⟨fid⟩) e world
  | tstat {fid resource e world} (hres : mgr.resources fid = some resource)
      (hcall : (statCall handler resource).run mgr.world = .error e world) :
      CallFails handler mgr (.tstat ⟨fid⟩) e world
  | twstat {fid stat resource e world} (hres : mgr.resources fid = some resource)
      (hcall : (wstatCall handler stat resource).run mgr.world = .error e world) :
      CallFails handler mgr (.twstat ⟨fid, stat⟩) e world

def refusals : List ByteString :=
  ["fid invalid", "fid in use", "Invalid argument", "Fid not", "fid open for I/O",
    "fid not open for read", "fid not open for write", "not implemented"]

/-- The table an error leaves: a remove has already unbound its fid. -/
def afterError (table : FidTable P O) : TMessage → FidTable P O
  | .tremove ⟨fid⟩ => Function.update table fid none
  | _ => table

/-- A dispatch that fails before or at its call: refused with everything as it
was, or given up on with what the failed call left. -/
inductive Failed (handler : Serve W P O) (mgr : ResourceManager W P O) (req : TMessage) :
    Abort → ResourceManager W P O → Prop
  | unimplemented (hreq : (∃ m, req = .tversion m) ∨ ∃ m, req = .tflush m) :
      Failed handler mgr req .panic mgr
  | refused {ename} (hename : ename ∈ refusals)
      (hsame : afterError mgr.resources req = mgr.resources) :
      Failed handler mgr req (rerror ename) mgr
  | call {e world} (hcall : CallFails handler mgr req e world) :
      Failed handler mgr req e ⟨afterError mgr.resources req, world⟩

variable {handler : Serve W P O} {maxlen : Nat} {mgr mgr' : ResourceManager W P O}
  {req : TMessage} {resp : RMessage} {e : Abort}

theorem getAfid_bind_ok {β : Type} {b : β} {afid : UInt32} {f : Option O → DispatchM W P O β} :
    (getAfid afid >>= f).run mgr = .ok b mgr' ↔
      ∃ ares, Authenticated mgr afid ares ∧ (f ares).run mgr = .ok b mgr' := by
  by_cases hn : afid = nofid
  · simp [getAfid, Authenticated, hn, Option.exists]
  · cases h : mgr.resources afid with
    | none => simp [getAfid, Authenticated, hn, h, throw_run, Option.exists]
    | some resource =>
      cases resource <;> simp [getAfid, Authenticated, hn, h, throw_run, Option.exists]

theorem getAfid_bind_error {β : Type} {afid : UInt32} {f : Option O → DispatchM W P O β} :
    (getAfid afid >>= f).run mgr = .error e mgr' ↔
      (e = rerror "fid invalid" ∧ mgr' = mgr ∧ ∀ ares, ¬Authenticated mgr afid ares) ∨
        ∃ ares, Authenticated mgr afid ares ∧ (f ares).run mgr = .error e mgr' := by
  by_cases hn : afid = nofid
  · simp [getAfid, Authenticated, hn, Option.exists, Option.forall]
  · cases h : mgr.resources afid with
    | none => simp [getAfid, Authenticated, hn, h, throw_run, eq_comm, Option.exists, Option.forall]
    | some resource =>
      cases resource <;>
        simp [getAfid, Authenticated, hn, h, throw_run, eq_comm, Option.exists, Option.forall]

/-- Every dispatch that succeeds is one of the `Served` cases. -/
theorem dispatch_ok (h : (dispatch handler maxlen req).run mgr = .ok resp mgr') :
    Served handler maxlen mgr req resp mgr' := by
  cases req with
  | tversion m => simp [dispatch, throw_run] at h
  | tflush m => simp [dispatch, throw_run] at h
  | treads m => simp [dispatch, throw_run] at h
  | tauth m =>
    simp only [dispatch, throwIf_bind_ok, containsKey_bind, await_bind_ok, insert_bind] at h
    obtain ⟨hfid, hfree, res, world, hcall, h⟩ := h
    cases h
    exact .tauth (by simpa using hfid) (by simpa using hfree) hcall
  | tattach m =>
    simp only [dispatch, throwIf_bind_ok, containsKey_bind, getAfid_bind_ok, await_bind_ok,
      insert_bind] at h
    obtain ⟨hfid, hfree, ares, hares, res, world, hcall, h⟩ := h
    cases h
    exact .tattach (by simpa using hfid) (by simpa using hfree) hares hcall
  | twalk m =>
    simp only [dispatch, throwIf_bind_ok, containsKey_bind, getFid_bind_ok] at h
    obtain ⟨hfid, hfree, resource, hres, h⟩ := h
    cases resource with
    | open_ res => simp [throw_run] at h
    | path res =>
      obtain ⟨⟨wqid, new⟩, world, hcall, h⟩ := await_bind_ok.mp h
      cases new with
      | some new =>
        cases h
        exact .twalkFull (by simpa using hfid) (by simpa using hfree) hres hcall
      | none =>
        cases h
        exact .twalkPart (by simpa using hfid) (by simpa using hfree) hres hcall
  | topen m =>
    obtain ⟨resource, hres, h⟩ := getFid_bind_ok.mp h
    cases resource with
    | open_ res => simp [throw_run] at h
    | path res =>
      obtain ⟨new, world, hcall, h⟩ := await_bind_ok.mp h
      cases h
      exact .topen hres hcall
  | tcreate m =>
    obtain ⟨resource, hres, h⟩ := getFid_bind_ok.mp h
    cases resource with
    | open_ res => simp [throw_run] at h
    | path res =>
      obtain ⟨new, world, hcall, h⟩ := await_bind_ok.mp h
      cases h
      exact .tcreate hres hcall
  | tread m =>
    obtain ⟨resource, hres, h⟩ := getFid_bind_ok.mp h
    cases resource with
    | path res => simp [throw_run] at h
    | open_ res =>
      obtain ⟨data, world, hcall, h⟩ := await_bind_ok.mp h
      cases h
      exact .tread hres hcall
  | twrite m =>
    obtain ⟨resource, hres, h⟩ := getFid_bind_ok.mp h
    cases resource with
    | path res => simp [throw_run] at h
    | open_ res =>
      obtain ⟨count, world, hcall, h⟩ := await_bind_ok.mp h
      cases h
      exact .twrite hres hcall
  | tclunk m =>
    obtain ⟨resource, hres, h⟩ := getFid_bind_ok.mp h
    cases h
    exact .tclunk hres
  | tremove m =>
    obtain ⟨resource, hres, h⟩ := getFid_bind_ok.mp h
    rw [remove_bind] at h
    cases resource <;>
    · obtain ⟨u, world, hcall, h⟩ := await_bind_ok.mp h
      cases h
      exact .tremove hres hcall
  | tstat m =>
    obtain ⟨resource, hres, h⟩ := getFid_bind_ok.mp h
    cases resource <;>
    · obtain ⟨stat, world, hcall, h⟩ := await_bind_ok.mp h
      cases h
      exact .tstat hres hcall
  | twstat m =>
    obtain ⟨resource, hres, h⟩ := getFid_bind_ok.mp h
    cases resource <;>
    · obtain ⟨u, world, hcall, h⟩ := await_bind_ok.mp h
      cases h
      exact .twstat hres hcall

theorem update_unbound {table : FidTable P O} {fid : UInt32} (h : table fid = none) :
    Function.update table fid none = table := by
  rw [← h]
  exact Function.update_eq_self fid table

/-- Every dispatch that fails is one of the `Failed` cases. -/
theorem dispatch_error (h : (dispatch handler maxlen req).run mgr = .error e mgr') :
    Failed handler mgr req e mgr' := by
  cases req with
  | tversion m =>
    cases h
    exact .unimplemented (.inl ⟨m, rfl⟩)
  | tflush m =>
    cases h
    exact .unimplemented (.inr ⟨m, rfl⟩)
  | treads m =>
    cases h
    exact .refused (by decide) rfl
  | tauth m =>
    simp only [dispatch, throwIf_bind_error, containsKey_bind, await_bind_error, insert_bind] at h
    obtain ⟨rfl, rfl, -⟩ | ⟨hfid, ⟨rfl, rfl, -⟩ | ⟨hfree, ⟨world, hcall, rfl⟩ | ⟨_, _, -, h⟩⟩⟩ := h
    · exact .refused (by decide) rfl
    · exact .refused (by decide) rfl
    · exact .call (.tauth (by simpa using hfid) (by simpa using hfree) hcall)
    · cases h
  | tattach m =>
    simp only [dispatch, throwIf_bind_error, containsKey_bind] at h
    obtain ⟨rfl, rfl, -⟩ | ⟨hfid, ⟨rfl, rfl, -⟩ | ⟨hfree, h⟩⟩ := h
    · exact .refused (by decide) rfl
    · exact .refused (by decide) rfl
    · obtain ⟨rfl, rfl, -⟩ | ⟨ares, hares, h⟩ := getAfid_bind_error.mp h
      · exact .refused (by decide) rfl
      · obtain ⟨world, hcall, rfl⟩ | ⟨_, _, -, h⟩ := await_bind_error.mp h
        · exact .call (.tattach (by simpa using hfid) (by simpa using hfree) hares hcall)
        · cases h
  | twalk m =>
    simp only [dispatch, throwIf_bind_error, containsKey_bind, getFid_bind_error] at h
    obtain ⟨rfl, rfl, -⟩ | ⟨hfid, ⟨rfl, rfl, -⟩ | ⟨hfree, ⟨rfl, rfl, -⟩ | ⟨resource, hres, h⟩⟩⟩ := h
    · exact .refused (by decide) rfl
    · exact .refused (by decide) rfl
    · exact .refused (by decide) rfl
    · cases resource with
      | open_ res =>
        cases h
        exact .refused (by decide) rfl
      | path res =>
        obtain ⟨world, hcall, rfl⟩ | ⟨⟨wqid, new⟩, _, -, h⟩ := await_bind_error.mp h
        · exact .call (.twalk (by simpa using hfid) (by simpa using hfree) hres hcall)
        · cases new <;> cases h
  | topen m =>
    obtain ⟨rfl, rfl, -⟩ | ⟨resource, hres, h⟩ := getFid_bind_error.mp h
    · exact .refused (by decide) rfl
    · cases resource with
      | open_ res =>
        cases h
        exact .refused (by decide) rfl
      | path res =>
        obtain ⟨world, hcall, rfl⟩ | ⟨_, _, -, h⟩ := await_bind_error.mp h
        · exact .call (.topen hres hcall)
        · cases h
  | tcreate m =>
    obtain ⟨rfl, rfl, -⟩ | ⟨resource, hres, h⟩ := getFid_bind_error.mp h
    · exact .refused (by decide) rfl
    · cases resource with
      | open_ res =>
        cases h
        exact .refused (by decide) rfl
      | path res =>
        obtain ⟨world, hcall, rfl⟩ | ⟨_, _, -, h⟩ := await_bind_error.mp h
        · exact .call (.tcreate hres hcall)
        · cases h
  | tread m =>
    obtain ⟨rfl, rfl, -⟩ | ⟨resource, hres, h⟩ := getFid_bind_error.mp h
    · exact .refused (by decide) rfl
    · cases resource with
      | path res =>
        cases h
        exact .refused (by decide) rfl
      | open_ res =>
        obtain ⟨world, hcall, rfl⟩ | ⟨_, _, -, h⟩ := await_bind_error.mp h
        · exact .call (.tread hres hcall)
        · cases h
  | twrite m =>
    obtain ⟨rfl, rfl, -⟩ | ⟨resource, hres, h⟩ := getFid_bind_error.mp h
    · exact .refused (by decide) rfl
    · cases resource with
      | path res =>
        cases h
        exact .refused (by decide) rfl
      | open_ res =>
        obtain ⟨world, hcall, rfl⟩ | ⟨_, _, -, h⟩ := await_bind_error.mp h
        · exact .call (.twrite hres hcall)
        · cases h
  | tclunk m =>
    obtain ⟨rfl, rfl, -⟩ | ⟨resource, -, h⟩ := getFid_bind_error.mp h
    · exact .refused (by decide) rfl
    · cases h
  | tremove m =>
    obtain ⟨rfl, rfl, hnone⟩ | ⟨resource, hres, h⟩ := getFid_bind_error.mp h
    · exact .refused (by decide) (update_unbound hnone)
    · rw [remove_bind] at h
      cases resource <;>
      · obtain ⟨world, hcall, rfl⟩ | ⟨_, _, -, h⟩ := await_bind_error.mp h
        · exact .call (.tremove hres hcall)
        · cases h
  | tstat m =>
    obtain ⟨rfl, rfl, -⟩ | ⟨resource, hres, h⟩ := getFid_bind_error.mp h
    · exact .refused (by decide) rfl
    · cases resource <;>
      · obtain ⟨world, hcall, rfl⟩ | ⟨_, _, -, h⟩ := await_bind_error.mp h
        · exact .call (.tstat hres hcall)
        · cases h
  | twstat m =>
    obtain ⟨rfl, rfl, -⟩ | ⟨resource, hres, h⟩ := getFid_bind_error.mp h
    · exact .refused (by decide) rfl
    · cases resource <;>
      · obtain ⟨world, hcall, rfl⟩ | ⟨_, _, -, h⟩ := await_bind_error.mp h
        · exact .call (.twstat hres hcall)
        · cases h

theorem Served.run (h : Served handler maxlen mgr req resp mgr') :
    (dispatch handler maxlen req).run mgr = .ok resp mgr' := by
  cases h with
  | tauth hfid hfree hcall =>
    simp only [dispatch, throwIf_bind_ok, containsKey_bind, await_bind_ok, insert_bind]
    exact ⟨by simpa using hfid, by simpa using hfree, _, _, hcall, rfl⟩
  | tattach hfid hfree hares hcall =>
    simp only [dispatch, throwIf_bind_ok, containsKey_bind, getAfid_bind_ok, await_bind_ok,
      insert_bind]
    exact ⟨by simpa using hfid, by simpa using hfree, _, hares, _, _, hcall, rfl⟩
  | twalkFull hfid hfree hres hcall =>
    simp only [dispatch, throwIf_bind_ok, containsKey_bind, getFid_bind_ok]
    exact ⟨by simpa using hfid, by simpa using hfree, _, hres, await_bind_ok.mpr ⟨_, _, hcall, rfl⟩⟩
  | twalkPart hfid hfree hres hcall =>
    simp only [dispatch, throwIf_bind_ok, containsKey_bind, getFid_bind_ok]
    exact ⟨by simpa using hfid, by simpa using hfree, _, hres, await_bind_ok.mpr ⟨_, _, hcall, rfl⟩⟩
  | topen hres hcall => exact getFid_bind_ok.mpr ⟨_, hres, await_bind_ok.mpr ⟨_, _, hcall, rfl⟩⟩
  | tcreate hres hcall => exact getFid_bind_ok.mpr ⟨_, hres, await_bind_ok.mpr ⟨_, _, hcall, rfl⟩⟩
  | tread hres hcall => exact getFid_bind_ok.mpr ⟨_, hres, await_bind_ok.mpr ⟨_, _, hcall, rfl⟩⟩
  | twrite hres hcall => exact getFid_bind_ok.mpr ⟨_, hres, await_bind_ok.mpr ⟨_, _, hcall, rfl⟩⟩
  | tclunk hres => exact getFid_bind_ok.mpr ⟨_, hres, rfl⟩
  | @tremove fid resource world hres hcall =>
    refine getFid_bind_ok.mpr ⟨_, hres, ?_⟩
    rw [remove_bind]
    cases resource <;> exact await_bind_ok.mpr ⟨_, _, hcall, rfl⟩
  | @tstat fid resource stat world hres hcall =>
    refine getFid_bind_ok.mpr ⟨_, hres, ?_⟩
    cases resource <;> exact await_bind_ok.mpr ⟨_, _, hcall, rfl⟩
  | @twstat fid stat resource world hres hcall =>
    refine getFid_bind_ok.mpr ⟨_, hres, ?_⟩
    cases resource <;> exact await_bind_ok.mpr ⟨_, _, hcall, rfl⟩

theorem CallFails.run {world : W} (h : CallFails handler mgr req e world) :
    (dispatch handler maxlen req).run mgr = .error e ⟨afterError mgr.resources req, world⟩ := by
  cases h with
  | tauth hfid hfree hcall =>
    simp only [dispatch, throwIf_bind_error, containsKey_bind, await_bind_error, insert_bind]
    exact .inr ⟨by simpa using hfid, .inr ⟨by simpa using hfree, .inl ⟨_, hcall, rfl⟩⟩⟩
  | tattach hfid hfree hares hcall =>
    simp only [dispatch, throwIf_bind_error, containsKey_bind, getAfid_bind_error]
    exact .inr ⟨by simpa using hfid, .inr ⟨by simpa using hfree,
      .inr ⟨_, hares, await_bind_error.mpr (.inl ⟨_, hcall, rfl⟩)⟩⟩⟩
  | twalk hfid hfree hres hcall =>
    simp only [dispatch, throwIf_bind_error, containsKey_bind, getFid_bind_error]
    exact .inr ⟨by simpa using hfid, .inr ⟨by simpa using hfree,
      .inr ⟨_, hres, await_bind_error.mpr (.inl ⟨_, hcall, rfl⟩)⟩⟩⟩
  | topen hres hcall =>
    exact getFid_bind_error.mpr (.inr ⟨_, hres, await_bind_error.mpr (.inl ⟨_, hcall, rfl⟩)⟩)
  | tcreate hres hcall =>
    exact getFid_bind_error.mpr (.inr ⟨_, hres, await_bind_error.mpr (.inl ⟨_, hcall, rfl⟩)⟩)
  | tread hres hcall =>
    exact getFid_bind_error.mpr (.inr ⟨_, hres, await_bind_error.mpr (.inl ⟨_, hcall, rfl⟩)⟩)
  | twrite hres hcall =>
    exact getFid_bind_error.mpr (.inr ⟨_, hres, await_bind_error.mpr (.inl ⟨_, hcall, rfl⟩)⟩)
  | @tremove fid resource e world hres hcall =>
    refine getFid_bind_error.mpr (.inr ⟨_, hres, ?_⟩)
    rw [remove_bind]
    cases resource <;> exact await_bind_error.mpr (.inl ⟨_, hcall, rfl⟩)
  | @tstat fid resource e world hres hcall =>
    refine getFid_bind_error.mpr (.inr ⟨_, hres, ?_⟩)
    cases resource <;> exact await_bind_error.mpr (.inl ⟨_, hcall, rfl⟩)
  | @twstat fid stat resource e world hres hcall =>
    refine getFid_bind_error.mpr (.inr ⟨_, hres, ?_⟩)
    cases resource <;> exact await_bind_error.mpr (.inl ⟨_, hcall, rfl⟩)

end NineWire.Server
