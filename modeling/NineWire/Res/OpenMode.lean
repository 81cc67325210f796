import NineWire.Res.Bindings
import NineWire.Res.Listing

/-! The mode a fid was opened with, against what is later read and written
through it. The mode is looked at once, when the fid is opened; afterwards only
the kind of the open resource decides. -/
namespace NineWire.Server
open NineWire.Wire NineWire.Transition

inductive Access where
  | read
  | write
  deriving DecidableEq

def access : TMessage → Option (UInt32 × Access)
  | .tread m => some (m.fid, .read)
  | .twrite m => some (m.fid, .write)
  | _ => none

/-- The access bits of a mode grant it: 0 is read, 1 is write, 2 is read and
write, 3 is execute. -/
def Access.Granted (mode : UInt8) : Access → Prop
  | .read => mode &&& 3 = 0 ∨ mode &&& 3 = 2 ∨ mode &&& 3 = 3
  | .write => mode &&& 3 = 1 ∨ mode &&& 3 = 2

structure Tracked (W P O : Type) where
  session : Session W P O
  modes : UInt32 → Option UInt8
  accesses : List (UInt8 × Access)

def Tracked.start {W P O : Type} (world : W) : Tracked W P O where
  session := .start world
  modes := fun _ => none
  accesses := []

section Tracked
variable {W P O : Type}

def Session.dispatches (s : Session W P O) : Action → Option TMessage
  | .complete i => s.inflight[i]?.bind fun fut =>
    match fut.hdl with
    | .dispatch req => some req
    | .ready _ => none
  | _ => none

def Session.serves (handler : Serve W P O) (s : Session W P O) (a : Action) : Option TMessage :=
  (s.dispatches a).filter fun req =>
    match (dispatch handler maxMessageSize req).run s.mgr with
    | .ok _ _ => true
    | .error _ _ => false

def openedMode : TMessage → UInt32 → Option UInt8
  | .topen m, fid => if fid = m.fid then some m.mode else none
  | _, _ => none

def Tracked.performs (handler : Serve W P O) (t : Tracked W P O) (a : Action) :
    Option (UInt8 × Access) := do
  let req ← t.session.serves handler a
  let (fid, access) ← access req
  let mode ← t.modes fid
  return (mode, access)

def Tracked.step (handler : Serve W P O) (t : Tracked W P O) (a : Action) :
    Option (Tracked W P O) :=
  (t.session.step handler a).map fun s =>
    { session := s
      modes := fun fid => (s.mgr.resources fid).bind fun _ =>
        ((t.session.serves handler a).bind fun req => openedMode req fid).or (t.modes fid)
      accesses := (t.performs handler a).toList ++ t.accesses }

def Tracked.Enforced (t : Tracked W P O) : Prop :=
  ∀ mode access, (mode, access) ∈ t.accesses → access.Granted mode

variable {handler : Serve W P O} {t t' : Tracked W P O} {s s' : Session W P O} {a : Action}
  {req : TMessage}

theorem serves_eq_some : s.serves handler a = some req ↔ s.dispatches a = some req ∧
    ∃ resp mgr, Served handler maxMessageSize s.mgr req resp mgr := by
  rw [Session.serves, Option.filter_eq_some_iff]
  refine and_congr_right fun _ => ?_
  constructor
  · intro h
    split at h
    · rename_i resp mgr hrun
      exact ⟨resp, mgr, dispatch_ok hrun⟩
    · cases h
  · intro h
    obtain ⟨resp, mgr, hserved⟩ := h
    simp only [hserved.run]

theorem served_of_serves (hserves : s.serves handler a = some req)
    (hstep : s.step handler a = some s') :
    ∃ resp, Served handler maxMessageSize s.mgr req resp s'.mgr := by
  obtain ⟨hdispatches, resp, mgr, hserved⟩ := serves_eq_some.mp hserves
  cases a with
  | complete i =>
    obtain ⟨fut, hfut, hdl⟩ := Option.bind_eq_some_iff.mp hdispatches
    obtain ⟨tag, flushes, hdl'⟩ := fut
    cases hdl' with
    | ready resp => cases hdl
    | dispatch req' =>
      cases hdl
      have hcases := step_cases hstep
      cases hcases with
      | complete hpc hfut' hresp =>
        obtain rfl := Option.some.inj (hfut.symm.trans hfut')
        cases hresp with
        | served hrun => exact ⟨_, dispatch_ok hrun⟩
        | failed hrun => cases hserved.run.symm.trans hrun
  | _ => cases hdispatches

theorem tracked_step (h : t.step handler a = some t') :
    t.session.step handler a = some t'.session := by
  obtain ⟨s, hs, rfl⟩ := Option.map_eq_some_iff.mp h
  exact hs

/-- Every run of the session is tracked. -/
theorem tracked_of_reaches {world : W} (h : Reaches (Session.step handler) (.start world) s) :
    ∃ t, Reaches (Tracked.step handler) (.start world) t ∧ t.session = s := by
  induction h with
  | refl => exact ⟨.start world, .refl, rfl⟩
  | tail a _ _ hstep ih =>
    obtain ⟨t, hreach, rfl⟩ := ih
    exact ⟨_, .tail a hreach trivial (by rw [Tracked.step, hstep, Option.map_some]), rfl⟩

theorem mem_accesses (h : t.step handler a = some t') {mode : UInt8} {access : Access} :
    (mode, access) ∈ t'.accesses ↔
      t.performs handler a = some (mode, access) ∨ (mode, access) ∈ t.accesses := by
  obtain ⟨s, hs, rfl⟩ := Option.map_eq_some_iff.mp h
  simp [Option.mem_toList]

theorem performs_eq_some {mode : UInt8} {access : Access} :
    t.performs handler a = some (mode, access) ↔ ∃ req fid,
      t.session.serves handler a = some req ∧ Server.access req = some (fid, access) ∧
        t.modes fid = some mode := by
  simp only [Tracked.performs, Option.bind_eq_bind, Option.bind_eq_some_iff, Option.pure_def,
    Option.some.injEq, Prod.exists, Prod.mk.injEq]
  constructor
  · intro hcase
    obtain ⟨req, hreq, fid, acc, hacc, mode', hmode, rfl, rfl⟩ := hcase
    exact ⟨req, fid, hreq, hacc, hmode⟩
  · intro h
    obtain ⟨req, fid, hreq, hacc, hmode⟩ := h
    exact ⟨req, hreq, fid, access, hacc, mode, hmode, rfl, rfl⟩

inductive ModeStep (handler : Serve W P O) (t : Tracked W P O) (fid : UInt32) (mode : UInt8) :
    Option (Resource P O) → Prop
  | opened {res new world} (hcall : (handler.open_ res mode).run t.session.mgr.world = .ok new world) :
      ModeStep handler t fid mode (some (.open_ new))
  | kept {resource} (hmode : t.modes fid = some mode)
      (hstep : BindingStep (t.session.mgr.resources fid) (some resource)) :
      ModeStep handler t fid mode (some resource)

theorem mode_step (h : t.step handler a = some t') {fid : UInt32} {mode : UInt8}
    (hmode : t'.modes fid = some mode) :
    ModeStep handler t fid mode (t'.session.mgr.resources fid) := by
  have hstep := tracked_step h
  obtain ⟨s, hs, rfl⟩ := Option.map_eq_some_iff.mp h
  obtain ⟨resource, hbound, hmode⟩ := Option.bind_eq_some_iff.mp hmode
  simp only at hstep hbound ⊢
  rw [hbound]
  obtain hopened | ⟨-, hkept⟩ := Option.or_eq_some_iff.mp hmode
  · obtain ⟨req, hserves, hmode⟩ := Option.bind_eq_some_iff.mp hopened
    obtain ⟨resp, hserved⟩ := served_of_serves hserves hstep
    cases req with
    | topen m =>
      obtain ⟨fid', mode'⟩ := m
      simp only [openedMode] at hmode
      split at hmode
      · rename_i hfid
        subst hfid
        cases hmode
        generalize s.mgr = mgr at hserved hbound
        cases hserved with
        | topen hres hcall =>
          obtain rfl : _ = resource := by simpa [ResourceManager.bound] using hbound
          exact .opened hcall
      · cases hmode
    | _ => cases hmode
  · have hbinding := binding_step hstep fid
    rw [hbound] at hbinding
    exact .kept hkept hbinding

end Tracked

end NineWire.Server

namespace NineWire.Res
open NineWire.Wire NineWire.Server NineWire.Os NineWire.Transition

def OpenInner.Admits (mode : UInt8) : OpenInner → Prop
  | .rpc => mode &&& 3 ≠ 3
  | _ => mode = 0

theorem open_admits {res : PathResource} {mode : UInt8} {self : OpenResource} {world world' : World}
    (h : (res.open_ mode).run world = .ok self world') : self.inner.Admits mode := by
  unfold PathResource.open_ at h
  cases hinner : res.inner with
  | root =>
    simp only [hinner] at h
    split at h
    · cases h
    · rename_i hmode
      cases h
      exact not_not.mp hmode
  | rpc =>
    simp only [hinner] at h
    split at h
    · cases h
    · rename_i hmode
      cases h
      exact hmode
  | onShare share rem =>
    simp only [hinner] at h
    split at h
    · cases h
    · rename_i hmode
      obtain rfl := not_not.mp hmode
      obtain ⟨path, world₁, -, h⟩ := Stateful.bind_ok h
      unfold OpenResource.new at h
      split at h
      · obtain ⟨n, world₂, -, h⟩ := Stateful.bind_ok h
        cases h
        rfl
      · obtain ⟨n, world₂, -, h⟩ := Stateful.bind_ok h
        cases h
        rfl

def Admitted (t : Tracked World PathResource OpenResource) : Prop :=
  ∀ fid mode, t.modes fid = some mode →
    ∃ self, t.session.mgr.resources fid = some (.open_ self) ∧ self.inner.Admits mode

variable {config : Config} {t t' : Tracked World PathResource OpenResource} {a : Server.Action}

theorem admitted_step (hadmitted : Admitted t) (h : t.step (handler config) a = some t') :
    Admitted t' := by
  intro fid mode hmode
  have hstep := mode_step h hmode
  generalize t'.session.mgr.resources fid = binding at hstep
  cases hstep with
  | opened hcall => exact ⟨_, rfl, open_admits hcall⟩
  | kept hkept hbinding =>
    obtain ⟨self, hself, hadmits⟩ := hadmitted fid mode hkept
    rw [hself] at hbinding
    cases hbinding with
    | same => exact ⟨self, rfl, hadmits⟩

theorem reaches_admitted {world : World}
    (h : Reaches (Tracked.step (handler config)) (.start world) t) : Admitted t := by
  have hstart : Admitted (.start world) := by
    intro fid mode hmode
    cases hmode
  exact h.invariant hstart fun hadmitted _ hstep => admitted_step hadmitted hstep

/-- The condition on a step: a read or a write that is dispatched on the `rpc`
file is one that the fid was opened for. -/
def Permitted (t : Tracked World PathResource OpenResource) (a : Server.Action) : Prop :=
  ∀ fid mode self, t.modes fid = some mode → t.session.mgr.resources fid = some (.open_ self) →
    self.inner = .rpc →
    (∀ offset count, t.session.dispatches a = some (.tread ⟨fid, offset, count⟩) →
      mode &&& 3 ≠ 1) ∧
    (∀ offset data, t.session.dispatches a = some (.twrite ⟨fid, offset, data⟩) →
      data.length < 2^32 → mode &&& 3 ≠ 0)

theorem access_bits (mode : UInt8) :
    mode &&& 3 = 0 ∨ mode &&& 3 = 1 ∨ mode &&& 3 = 2 ∨ mode &&& 3 = 3 := by
  have hlt : (mode &&& 3).toNat < 2^2 := by
    rw [UInt8.toNat_and]
    exact Nat.and_lt_two_pow _ (by decide)
  simp only [← UInt8.toNat_inj, UInt8.toNat_ofNat]
  omega

/-- A write succeeds on the `rpc` file alone, whatever its mode was. -/
theorem write_ok_iff {self : OpenResource} (offset : UInt64) {data : Bytes} {world : World} :
    (∃ count world', (self.write offset data).run world = .ok count world') ↔
      self.inner = .rpc ∧ data.length < 2^32 := by
  unfold OpenResource.write
  cases self.inner with
  | rpc =>
    by_cases hlen : data.length < 2^32
    · rw [if_pos hlen]
      exact ⟨fun _ => ⟨rfl, hlen⟩, fun _ => ⟨_, world, rfl⟩⟩
    · rw [if_neg hlen]
      refine ⟨?_, fun h => (hlen h.2).elim⟩
      intro h
      obtain ⟨count, world', h⟩ := h
      cases h
  | _ =>
    constructor
    · intro h
      obtain ⟨count, world', h⟩ := h
      cases h
    · intro h
      obtain ⟨h, -⟩ := h
      cases h

/-- A step performs a granted access, if it performs one, exactly when it meets
the condition. -/
theorem granted_iff_permitted (config : Config) (hadmitted : Admitted t) :
    (∀ mode access, t.performs (handler config) a = some (mode, access) → access.Granted mode) ↔
      Permitted t a := by
  constructor
  · intro hgranted fid mode self hmode hself hrpc
    refine ⟨fun offset count hdispatches => ?_, fun offset data hdispatches hlen => ?_⟩
    · have hread : ((handler config).read self offset count).run t.session.mgr.world =
          .ok [] t.session.mgr.world := by
        simp [handler, OpenResource.read, hrpc]
      have hserves := serves_eq_some.mpr ⟨hdispatches, _, _, Served.tread hself hread⟩
      have := hgranted mode .read (performs_eq_some.mpr ⟨_, fid, hserves, rfl, hmode⟩)
      obtain h | h | h := this <;> rw [h] <;> decide
    · obtain ⟨count, world, hwrite⟩ := (write_ok_iff offset).mpr ⟨hrpc, hlen⟩
      have hserved : Served (handler config) maxMessageSize t.session.mgr
          (.twrite ⟨fid, offset, data⟩) (.rwrite ⟨count⟩) { t.session.mgr with world } :=
        .twrite hself hwrite
      have hserves := serves_eq_some.mpr ⟨hdispatches, _, _, hserved⟩
      have := hgranted mode .write (performs_eq_some.mpr ⟨_, fid, hserves, rfl, hmode⟩)
      obtain h | h := this <;> rw [h] <;> decide
  · intro hpermitted mode access hperforms
    obtain ⟨req, fid, hserves, haccess, hmode⟩ := performs_eq_some.mp hperforms
    obtain ⟨hdispatches, resp, mgr, hserved⟩ := serves_eq_some.mp hserves
    obtain ⟨self, hself, hadmits⟩ := hadmitted fid mode hmode
    have hbits := access_bits mode
    cases req with
    | tread m =>
      cases haccess
      cases hinner : self.inner with
      | rpc =>
        have hne := (hpermitted m.fid mode self hmode hself hinner).1 m.offset m.count hdispatches
        rw [hinner] at hadmits
        simp only [Access.Granted]
        tauto
      | _ =>
        rw [hinner] at hadmits
        cases hadmits
        exact .inl rfl
    | twrite m =>
      cases haccess
      generalize hreq : TMessage.twrite m = req at hserved
      cases hserved with
      | @twrite fid offset data self' count world hres hcall =>
        cases hreq
        cases hself.symm.trans hres
        obtain ⟨hrpc, hlen⟩ := (write_ok_iff offset).mp ⟨_, _, hcall⟩
        have hne := (hpermitted _ mode self hmode hself hrpc).2 _ _ hdispatches hlen
        rw [hrpc] at hadmits
        simp only [OpenInner.Admits] at hadmits
        simp only [Access.Granted]
        tauto
      | _ => cases hreq
    | _ => cases haccess

/-- Open modes are enforced in exactly the runs in which nobody reads an `rpc`
file that was opened for writing alone, or writes one that was opened for
reading alone. -/
theorem open_mode_enforced_iff (config : Config) (world : World)
    (t : Tracked World PathResource OpenResource)
    (h : Reaches (Tracked.step (handler config)) (.start world) t) :
    t.Enforced ↔ Steps (Tracked.step (handler config)) Permitted (.start world) t := by
  constructor
  · intro henforced
    induction h with
    | refl => exact .refl
    | tail a hreach _ hstep ih =>
      refine .tail a (ih fun mode access hmem => ?_) ?_ hstep
      · exact henforced mode access ((mem_accesses hstep).mpr (.inr hmem))
      · have hiff := granted_iff_permitted (a := a) config (reaches_admitted hreach)
        refine hiff.mp fun mode access hperforms => ?_
        exact henforced mode access ((mem_accesses hstep).mpr (.inl hperforms))
  · intro hsteps
    clear h
    induction hsteps with
    | refl => exact fun mode access hmem => absurd hmem (by simp [Tracked.start])
    | tail a hsteps hpermitted hstep ih =>
      intro mode access hmem
      have hadmitted := reaches_admitted (hsteps.mono fun _ _ _ => trivial)
      obtain hperforms | hmem := (mem_accesses hstep).mp hmem
      · exact (granted_iff_permitted config hadmitted).mpr hpermitted mode access hperforms
      · exact ih mode access hmem

def writingRpc (mode : UInt8) : List Server.Action :=
  [.top, .recv [100, 255, 255, 168, 4, 0, 0, 6, 0, 57, 80, 50, 48, 48, 48] 0, .top,
    .recv [104, 1, 0, 0, 0, 0, 0, 255, 255, 255, 255, 0, 0, 0, 0] 0, .top, .complete 0, .send,
    .pending, .top,
    .recv [110, 1, 0, 0, 0, 0, 0, 1, 0, 0, 0, 1, 0, 3, 0, 114, 112, 99] 0, .top, .complete 0, .send,
    .pending, .top,
    .recv [112, 1, 0, 1, 0, 0, 0, mode] 0, .top, .complete 0, .send, .pending, .top,
    .recv [118, 1, 0, 1, 0, 0, 0, 0, 0, 0, 0, 0, 0, 0, 0, 1, 0, 0, 0, 7] 0, .top, .complete 0]

theorem open_mode_enforced_iff_rpc : ∃ t,
    Steps (Tracked.step (handler mainConfig)) Permitted (.start { fs := fun _ => Fs.flat [] }) t ∧
      t.accesses = [(2, .write)] := by
  have hrun : (exec (Tracked.step (handler mainConfig)) (.start { fs := fun _ => Fs.flat [] })
      (writingRpc 2)).map (·.accesses) = some [(2, .write)] := by decide +kernel
  obtain ⟨t, hexec, haccesses⟩ := Option.map_eq_some_iff.mp hrun
  refine ⟨t, ?_, haccesses⟩
  refine (open_mode_enforced_iff mainConfig _ t (reaches_of_exec hexec)).mp ?_
  intro mode access hmem
  obtain ⟨rfl, rfl⟩ : mode = 2 ∧ access = .write := by simpa [haccesses] using hmem
  exact .inr rfl

/-- Opened for reading alone, the file is written all the same. -/
theorem open_mode_enforced_counterexample : ¬∀ (config : Config) (world : World)
    (t : Tracked World PathResource OpenResource),
    Reaches (Tracked.step (handler config)) (.start world) t → t.Enforced := by
  intro h
  have hrun : (exec (Tracked.step (handler mainConfig)) (.start { fs := fun _ => Fs.flat [] })
      (writingRpc 0)).map (·.accesses) = some [(0, .write)] := by decide +kernel
  obtain ⟨t, hexec, haccesses⟩ := Option.map_eq_some_iff.mp hrun
  have hgranted := h mainConfig _ t (reaches_of_exec hexec) 0 .write (by simp [haccesses])
  revert hgranted
  simp [Access.Granted]

end NineWire.Res
