import NineWire.Res.Confinement
import NineWire.Res.Listing

/-! Calls while the file system stays as it is: how they end depends on the file
system alone, and `walk_one` is a function of the resource and the name. -/
namespace NineWire.Res
open NineWire.Wire NineWire.Os NineWire.Server NineWire.Stateful

def World.Still (fs : Fs) (world : World) : Prop := ∀ t, world.clock ≤ t → world.fs t = fs

structure World.Later (world world' : World) : Prop where
  fs : world'.fs = world.fs
  clock : world.clock ≤ world'.clock

/-- What the last step of a path leads to, unless it is a link. -/
def Fs.unlinked (fs : Fs) (path : Path) : Except String Metadata :=
  match fs.symlinkMetadata path with
  | .ok meta_ => if meta_.isSymlink then .error "No such file or directory" else .ok meta_
  | .error text => .error text

def PathResource.refreshed (self : PathResource) (call : Path → Except String Metadata) :
    Except Abort PathResource :=
  match self.realPath with
  | none => .error .panic
  | some path =>
    match call path with
    | .ok meta_ => .ok { self with qid := Res.qid meta_ }
    | .error text => .error (.err text)

/-- A step of a walk in a file system: the position it leads to, and the qid
found there. Only a step down inside a share looks out for links. -/
def PathResource.step (self : PathResource) (fs : Fs) (component : ByteString) :
    Except Abort PathResource :=
  match self.inner.follow self.handler.shares component with
  | none => .error (.err "No such file or directory")
  | some .root => .ok { self with inner := .root, qid := rootQid }
  | some .rpc => .ok { self with inner := .rpc, qid := rpcQid }
  | some (.onShare share rem) =>
    ({ self with inner := .onShare share rem } : PathResource).refreshed
      (if component = ".." ∨ self.inner = .root then fs.metadata else Fs.unlinked fs)

def PathResource.next (fs : Fs) (self : PathResource) (component : ByteString) :
    Option PathResource :=
  match (self.walkOne component).run { fs := fun _ => fs } with
  | .ok new _ => some new
  | .error _ _ => none

def settle {α : Type} (result : Except Abort α) (world : World) : EStateM.Result Abort World α :=
  match result with
  | .ok a => .ok a world
  | .error e => .error e world

def Settles {α : Type} (fs : Fs) (call : Call World α) (result : Except Abort α) : Prop :=
  ∀ world, world.Still fs → ∃ world', world.Later world' ∧ call.run world = settle result world'

section Settles
variable {α β : Type} {fs : Fs} {world world' world'' : World}

theorem World.Later.refl (world : World) : world.Later world := ⟨rfl, Nat.le_refl _⟩

theorem World.Later.trans (h : world.Later world') (h' : world'.Later world'') :
    world.Later world'' :=
  ⟨h'.fs.trans h.fs, h.clock.trans h'.clock⟩

theorem World.Still.later (h : world.Still fs) (hlater : world.Later world') : world'.Still fs := by
  intro t ht
  rw [hlater.fs]
  exact h t (hlater.clock.trans ht)

theorem Settles.pure (fs : Fs) (a : α) : Settles fs (pure a) (.ok a) :=
  fun world _ => ⟨world, .refl world, rfl⟩

theorem Settles.throw (fs : Fs) (e : Abort) : Settles fs (throw e : Call World α) (.error e) :=
  fun world _ => ⟨world, .refl world, rfl⟩

theorem Settles.bind {call : Call World α} {f : α → Call World β} {a : α} {result : Except Abort β}
    (hcall : Settles fs call (.ok a)) (hf : Settles fs (f a) result) :
    Settles fs (call >>= f) result := by
  intro world hstill
  obtain ⟨world', hlater, hrun⟩ := hcall world hstill
  obtain ⟨world'', hlater', hrun'⟩ := hf world' (hstill.later hlater)
  refine ⟨world'', hlater.trans hlater', ?_⟩
  rw [bind_run_ok hrun, hrun']

theorem Settles.bind_error {call : Call World α} {e : Abort} (hcall : Settles fs call (.error e))
    (f : α → Call World β) : Settles fs (call >>= f) (.error e) := by
  intro world hstill
  obtain ⟨world', hlater, hrun⟩ := hcall world hstill
  exact ⟨world', hlater, bind_run_error hrun f⟩

theorem Settles.map {call : Call World α} {result : Except Abort α} (h : Settles fs call result)
    (f : α → β) : Settles fs (f <$> call) (result.map f) := by
  rw [map_eq_pure_bind]
  cases result with
  | ok a => exact h.bind (Settles.pure fs (f a))
  | error e => exact h.bind_error _

theorem Settles.uncaught {call : Call World α} {handle : Abort → Call World α} {a : α}
    (h : Settles fs call (.ok a)) : Settles fs (tryCatch call handle) (.ok a) := by
  intro world hstill
  obtain ⟨world', hlater, hrun⟩ := h world hstill
  exact ⟨world', hlater, tryCatch_run_ok hrun handle⟩

theorem Settles.caught {call : Call World α} {handle : Abort → Call World α} {e : Abort}
    {result : Except Abort α} (h : Settles fs call (.error e))
    (hhandle : Settles fs (handle e) result) : Settles fs (tryCatch call handle) result := by
  intro world hstill
  obtain ⟨world', hlater, hrun⟩ := h world hstill
  obtain ⟨world'', hlater', hrun'⟩ := hhandle world' (hstill.later hlater)
  exact ⟨world'', hlater.trans hlater', (tryCatch_run_error hrun handle).trans hrun'⟩

theorem Settles.of_run {call : Call World α} {result : Except Abort α} {a : α}
    (h : Settles fs call result) (hstill : world.Still fs) (hrun : call.run world = .ok a world') :
    result = .ok a ∧ world.Later world' := by
  obtain ⟨world'', hlater, hrun'⟩ := h world hstill
  cases result with
  | ok b =>
    cases hrun.symm.trans hrun'
    exact ⟨rfl, hlater⟩
  | error e => cases hrun.symm.trans hrun'

theorem syscall_settles {call : Fs → Except String α} {a : α} (h : call fs = .ok a) :
    Settles fs (syscall call) (.ok a) := by
  intro world hstill
  rw [← hstill _ (Nat.le_refl _)] at h
  have hrun := syscall_run h
  refine ⟨_, ?_, hrun⟩
  exact ⟨rfl, Nat.le_succ _⟩

theorem access_settles {call : Fs → Path → Except String α} {path : Path} {a : α}
    (h : call fs path = .ok a) : Settles fs (access call path) (.ok a) := by
  intro world hstill
  rw [← hstill _ (Nat.le_refl _)] at h
  have hrun := access_run h
  refine ⟨_, ?_, hrun⟩
  exact ⟨rfl, Nat.le_succ _⟩

theorem access_settles_error {call : Fs → Path → Except String α} {path : Path} {text : String}
    (h : call fs path = .error text) : Settles fs (access call path) (.error (.err text)) := by
  intro world hstill
  rw [← hstill _ (Nat.le_refl _)] at h
  have hrun := access_run_error h
  refine ⟨_, ?_, hrun⟩
  exact ⟨rfl, Nat.le_succ _⟩

theorem access_of_run {call : Fs → Path → Except String α} {path : Path} {a : α}
    (hstill : world.Still fs) (hrun : (access call path).run world = .ok a world') :
    call fs path = .ok a ∧ world.Later world' := by
  cases hcall : call fs path with
  | ok b =>
    obtain ⟨hb, hlater⟩ := (access_settles hcall).of_run hstill hrun
    exact ⟨congrArg Except.ok (Except.ok.inj hb), hlater⟩
  | error text =>
    obtain ⟨herror, -⟩ := (access_settles_error hcall).of_run hstill hrun
    cases herror

end Settles

section Step
variable {config : Config} {fs : Fs} {self new : PathResource} {component : ByteString}

theorem realPathUnwrap_settles {path : Path} (h : self.realPath = some path) :
    Settles fs self.realPathUnwrap (.ok path) := by
  rw [PathResource.realPathUnwrap, h]
  exact Settles.pure fs path

theorem realPathUnwrap_settles_panic (h : self.realPath = none) :
    Settles fs self.realPathUnwrap (.error .panic) := by
  rw [PathResource.realPathUnwrap, h]
  exact Settles.throw fs .panic

/-- Asking for the qid of a position, by way of `stat`. -/
theorem metadata_settles (fs : Fs) (self : PathResource) :
    Settles fs (do
      let meta_ ← metadata (← self.realPathUnwrap)
      return { self with qid := Res.qid meta_ }) (self.refreshed fs.metadata) := by
  unfold PathResource.refreshed
  cases hpath : self.realPath with
  | none => exact (realPathUnwrap_settles_panic hpath).bind_error _
  | some path =>
    refine (realPathUnwrap_settles hpath).bind ?_
    cases hcall : fs.metadata path with
    | ok meta_ =>
      simp only [hcall]
      exact (access_settles hcall).bind (Settles.pure fs _)
    | error text =>
      simp only [hcall]
      exact (access_settles_error hcall).bind_error _

/-- And by way of `lstat`, which finds a link at its end. -/
theorem symlinkMetadata_settles (fs : Fs) (self : PathResource) :
    Settles fs (do
      let meta_ ← symlinkMetadata (← self.realPathUnwrap)
      if meta_.isSymlink then bail "No such file or directory"
      else return { self with qid := Res.qid meta_ }) (self.refreshed (Fs.unlinked fs)) := by
  unfold PathResource.refreshed Fs.unlinked
  cases hpath : self.realPath with
  | none => exact (realPathUnwrap_settles_panic hpath).bind_error _
  | some path =>
    refine (realPathUnwrap_settles hpath).bind ?_
    cases hcall : fs.symlinkMetadata path with
    | ok meta_ =>
      refine (access_settles hcall).bind ?_
      cases hlink : meta_.isSymlink with
      | true =>
        simp only [hcall, hlink, if_true]
        exact Settles.throw fs _
      | false =>
        simp only [hcall, hlink, Bool.false_eq_true, if_false]
        exact Settles.pure fs _
    | error text =>
      simp only [hcall]
      exact (access_settles_error hcall).bind_error _

theorem walkOne_settles (fs : Fs) (self : PathResource) (component : ByteString) :
    Settles fs (self.walkOne component) (self.step fs component) := by
  obtain ⟨handler, session, qid, inner⟩ := self
  unfold PathResource.walkOne
  by_cases hup : component = ".."
  · subst hup
    rw [if_pos rfl]
    cases inner with
    | root => exact Settles.pure fs _
    | rpc => exact Settles.pure fs _
    | onShare share rem =>
      by_cases hrem : rem.isEmpty = true
      · simp only [PathResource.step, PathInner.follow, if_true, hrem]
        exact Settles.pure fs _
      · simp only [PathResource.step, PathInner.follow, if_true, hrem, true_or]
        exact metadata_settles fs _
  · rw [if_neg hup]
    cases inner with
    | root =>
      by_cases hrpc : component = "rpc"
      · simp only [PathResource.step, PathInner.follow, hrpc, if_true]
        exact Settles.pure fs _
      · by_cases hshare : (handler.shares.get component).isSome = true
        · simp only [PathResource.step, PathInner.follow, hup, hrpc, hshare, if_true, if_false,
            or_true]
          exact metadata_settles fs _
        · simp only [PathResource.step, PathInner.follow, hup, hrpc, hshare, if_false]
          exact Settles.throw fs _
    | rpc =>
      simp only [PathResource.step, PathInner.follow, hup, if_false]
      exact Settles.throw fs _
    | onShare share rem =>
      simp only [PathResource.step, PathInner.follow, hup, if_false, false_or, reduceCtorEq]
      exact symlinkMetadata_settles fs _

theorem next_eq (fs : Fs) (self : PathResource) (component : ByteString) :
    self.next fs component = (self.step fs component).toOption := by
  have hstill : World.Still fs { fs := fun _ => fs } := fun _ _ => rfl
  obtain ⟨world', -, hrun⟩ := walkOne_settles fs self component _ hstill
  rw [PathResource.next, hrun]
  cases self.step fs component <;> rfl

end Step

def PathInner.Mounted (shares : ShareTable) : PathInner → Prop
  | .root | .rpc => True
  | .onShare share _ => (shares.get share).isSome

structure PathResource.Mounted (config : Config) (res : PathResource) : Prop where
  handler : res.handler = config
  inner : res.inner.Mounted config.shares

section Mounted
variable {config : Config} {fs : Fs} {self new : PathResource} {component : ByteString}

theorem PathInner.Mounted.follow {shares : ShareTable} {inner next : PathInner}
    (h : inner.Mounted shares) (hnext : inner.follow shares component = some next) :
    next.Mounted shares := by
  cases inner with
  | root =>
    simp only [PathInner.follow] at hnext
    split at hnext
    · cases hnext
      trivial
    · split at hnext
      · cases hnext
        trivial
      · split at hnext
        · rename_i hshare
          cases hnext
          exact hshare
        · cases hnext
  | rpc =>
    simp only [PathInner.follow] at hnext
    split at hnext <;> cases hnext
    trivial
  | onShare share rem =>
    simp only [PathInner.follow] at hnext
    split at hnext
    · cases hnext
      split
      · trivial
      · exact h
    · cases hnext
      exact h

theorem PathResource.Mounted.realPath {share : ByteString} {rem : List ByteString}
    (h : self.Mounted config) (hinner : self.inner = .onShare share rem) :
    ∃ path, self.realPath = some path := by
  have hshare := h.inner
  rw [hinner] at hshare
  obtain ⟨root, hroot⟩ := Option.isSome_iff_exists.mp hshare
  rw [← h.handler] at hroot
  exact ⟨_, realPath_onShare hinner hroot⟩

theorem walkOne_mounted (h : self.Mounted config) (component : ByteString) :
    Keeps (fun _ => True) (self.walkOne component) (PathResource.Mounted config) := by
  obtain ⟨rfl, hinner⟩ := h
  refine (walkOne_keeps fun _ _ _ _ _ => Keeps.trivial _).weaken fun new hnew => ?_
  exact ⟨hnew.1, hinner.follow hnew.2⟩

theorem PathResource.Mounted.next (h : self.Mounted config)
    (hnext : self.next fs component = some new) : new.Mounted config := by
  unfold PathResource.next at hnext
  split at hnext
  · rename_i new' world' hrun
    cases hnext
    exact ((walkOne_mounted h component _ trivial).1 _ _ hrun).2
  · cases hnext

theorem refreshed_error {path : Path} {call : Path → Except String Metadata} {e : Abort}
    (hpath : self.realPath = some path) (h : self.refreshed call = .error e) :
    ∃ text, e = .err text ∧ call path = .error text := by
  rw [PathResource.refreshed, hpath] at h
  simp only at h
  cases hcall : call path with
  | ok meta_ =>
    rw [hcall] at h
    cases h
  | error text =>
    rw [hcall] at h
    cases h
    exact ⟨text, rfl, rfl⟩

def Fs.Says (fs : Fs) (text : String) : Prop :=
  text = "No such file or directory" ∨
    ∃ path, fs.metadata path = .error text ∨ fs.symlinkMetadata path = .error text

/-- A step fails with an error, never with a panic. -/
theorem step_error {e : Abort} (h : self.Mounted config) (hstep : self.step fs component = .error e) :
    ∃ text, e = .err text ∧ Fs.Says fs text := by
  unfold PathResource.step at hstep
  split at hstep
  · cases hstep
    exact ⟨_, rfl, .inl rfl⟩
  · cases hstep
  · cases hstep
  · rename_i share rem hfollow
    rw [h.handler] at hfollow
    have hthere : PathResource.Mounted config { self with inner := .onShare share rem } :=
      ⟨h.handler, h.inner.follow hfollow⟩
    obtain ⟨path, hpath⟩ := hthere.realPath rfl
    obtain ⟨text, rfl, hcall⟩ := refreshed_error hpath hstep
    refine ⟨text, rfl, ?_⟩
    split at hcall
    · exact .inr ⟨path, .inl hcall⟩
    · unfold Fs.unlinked at hcall
      split at hcall
      · split at hcall
        · cases hcall
          exact .inl rfl
        · cases hcall
      · rename_i text' hlink
        cases hcall
        exact .inr ⟨path, .inr hlink⟩

end Mounted

end NineWire.Res
