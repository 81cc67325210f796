import NineWire.Res.Steady
import NineWire.Trail

/-! Walks while the file system stays as it is. A Twalk goes along the trail of
its names, and its reply tells how far it got; a chain of Twalks goes along the
trail of all their names. -/
namespace NineWire.Res
open NineWire.Wire NineWire.Os NineWire.Server NineWire.Stateful NineWire.Transition

/-- What the leading names of a walk lead to, as far as `walk_one` succeeds. -/
abbrev PathResource.trail (fs : Fs) (self : PathResource) (wname : List ByteString) :
    List PathResource :=
  Transition.trail (PathResource.next fs) self wname

abbrev PathResource.walksTo (fs : Fs) (self : PathResource) (wname : List ByteString) :
    Option PathResource :=
  exec (PathResource.next fs) self wname

theorem walksTo_eq_some_iff {fs : Fs} {self new : PathResource} {wname : List ByteString} :
    self.walksTo fs wname = some new ↔
      (self.trail fs wname).length = wname.length ∧ (self.trail fs wname).getLastD self = new :=
  exec_eq_some_iff

theorem walksTo_cons {fs : Fs} {self new : PathResource} {component : ByteString}
    (h : self.next fs component = some new) (wname : List ByteString) :
    self.walksTo fs (component :: wname) = new.walksTo fs wname := by
  rw [PathResource.walksTo, exec, h]
  rfl

theorem walksTo_append {fs : Fs} {self new : PathResource} {a b : List ByteString}
    (h : self.walksTo fs a = some new) : self.walksTo fs (a ++ b) = new.walksTo fs b := by
  rw [PathResource.walksTo] at h ⊢
  rw [exec_append, h]
  rfl

/-- Where all names walk, the first ones do. -/
theorem walksTo_take {fs : Fs} {self new : PathResource} {wname : List ByteString}
    (h : self.walksTo fs wname = some new) (n : Nat) :
    ∃ mid, self.walksTo fs (wname.take n) = some mid := by
  rw [← List.take_append_drop n wname, PathResource.walksTo, exec_append] at h
  obtain ⟨mid, hmid, -⟩ := Option.bind_eq_some_iff.mp h
  exact ⟨mid, hmid⟩

theorem PathResource.Mounted.walksTo {config : Config} {fs : Fs} {self new : PathResource}
    {wname : List ByteString} (h : self.Mounted config)
    (hall : self.walksTo fs wname = some new) : new.Mounted config :=
  (reaches_of_exec hall).invariant h fun hmounted _ hnext => hmounted.next hnext

/-- How a walk along a trail ends: with the last resource, short of it once
there is a qid to report, or with the error of the first step. -/
inductive Walks (fs : Fs) (wqid : List Qid) (wname : List ByteString) (path : PathResource) :
    Except Abort (List Qid × Option PathResource) → Prop
  | full {qids new} (hall : path.walksTo fs wname = some new)
      (hqids : qids =
        wqid ++ ((path.trail fs wname).map PathResource.qid).dropLast) :
      Walks fs wqid wname path (.ok (qids, some new))
  | part {qids} (hpart : path.walksTo fs wname = none)
      (hne : wqid ≠ [] ∨ path.trail fs wname ≠ [])
      (hqids : qids = wqid ++ (path.trail fs wname).map PathResource.qid) :
      Walks fs wqid wname path (.ok (qids, none))
  | fails {text} (hpart : path.walksTo fs wname = none) (hnil : wqid = [])
      (hnone : path.trail fs wname = []) (htext : Fs.Says fs text) :
      Walks fs wqid wname path (.error (.err text))

section Walks
variable {config : Config} {fs : Fs}

theorem Walks.cons {path new : PathResource} {component : ByteString} {wqid : List Qid}
    {wname : List ByteString} {result : Except Abort (List Qid × Option PathResource)}
    (hnext : path.next fs component = some new)
    (h : Walks fs (if wname = [] then wqid else wqid ++ [new.qid]) wname new result) :
    Walks fs wqid (component :: wname) path result := by
  have hexec := walksTo_cons hnext wname
  have htrail : path.trail fs (component :: wname) =
      new :: new.trail fs wname := trail_cons hnext
  by_cases hnil : wname = []
  · subst hnil
    cases h with
    | full hall hqids =>
      refine .full (hexec.trans hall) ?_
      rw [hqids, htrail]
      rfl
    | part hpart hne hqids => cases hpart
    | fails hpart hnone htrail' htext => cases hpart
  · rw [if_neg hnil] at h
    cases h with
    | full hall hqids =>
      have hlen := (walksTo_eq_some_iff.mp hall).1
      have hne : (new.trail fs wname).map PathResource.qid ≠ [] := by
        rw [ne_eq, List.map_eq_nil_iff, ← List.length_eq_zero_iff, hlen, List.length_eq_zero_iff]
        exact hnil
      refine .full (hexec.trans hall) ?_
      rw [hqids, htrail, List.map_cons, List.dropLast_cons_of_ne_nil hne, List.append_assoc,
        List.singleton_append]
    | part hpart hne hqids =>
      refine .part (hexec.trans hpart) (.inr (by simp [htrail])) ?_
      rw [hqids, htrail, List.map_cons, List.append_assoc, List.singleton_append]
    | fails hpart hnone htrail' htext =>
      -- the first step has left a qid
      simp at hnone

theorem walkFrom_settles {path : PathResource} (h : path.Mounted config) (fs : Fs)
    (wqid : List Qid) (wname : List ByteString) : ∃ result, Walks fs wqid wname path result ∧
      Settles fs (PathResource.walkFrom wqid wname path) result := by
  induction wname generalizing wqid path with
  | nil =>
    exact ⟨_, .full rfl (List.append_nil wqid).symm, Settles.pure fs (wqid, some path)⟩
  | cons component wname ih =>
    have hone := walkOne_settles fs path component
    have hnext := next_eq fs path component
    cases hstep : path.step fs component with
    | ok new =>
      rw [hstep] at hone hnext
      obtain ⟨result, hwalks, hrest⟩ :=
        ih (h.next hnext) (if wname = [] then wqid else wqid ++ [new.qid])
      exact ⟨result, hwalks.cons hnext, (hone.map some).uncaught.bind hrest⟩
    | error e =>
      rw [hstep] at hone hnext
      obtain ⟨text, rfl, htext⟩ := step_error h hstep
      have hexec : path.walksTo fs (component :: wname) = none := by
        rw [PathResource.walksTo, exec, hnext]
        rfl
      have htrail : path.trail fs (component :: wname) = [] :=
        trail_stuck hnext
      by_cases hnil : wqid = []
      · refine ⟨_, .fails hexec hnil htrail htext, ?_⟩
        refine ((hone.map some).caught ?_).bind_error _
        rw [if_pos (.inr hnil)]
        exact Settles.throw fs _
      · have hcaught : Settles fs (tryCatch (some <$> path.walkOne component) fun e =>
            if e = .panic ∨ wqid = [] then throw e else pure none) (.ok none) := by
          refine (hone.map some).caught ?_
          rw [if_neg (by simpa using hnil)]
          exact Settles.pure fs none
        have hqids : wqid = wqid ++ (path.trail fs (component :: wname)).map PathResource.qid := by
          rw [htrail, List.map_nil, List.append_nil]
        exact ⟨_, .part hexec (.inl hnil) hqids, hcaught.bind (Settles.pure fs (wqid, none))⟩

/-- A walk that succeeds, succeeds whenever the file system is still. -/
theorem walk_run {path new : PathResource} {wname : List ByteString} {world : World}
    (h : path.Mounted config) (hall : path.walksTo fs wname = some new) (hstill : world.Still fs) :
    ∃ wqid world', (path.walk wname).run world = .ok (wqid, some new) world' ∧
      world'.Still fs := by
  obtain ⟨result, hwalks, hsettles⟩ := walkFrom_settles h fs [] wname
  obtain ⟨world', hlater, hrun⟩ := hsettles world hstill
  cases hwalks with
  | @full qids new' hall' hqids =>
    obtain rfl := Option.some.inj (hall'.symm.trans hall)
    exact ⟨qids, world', hrun, hstill.later hlater⟩
  | part hpart hne hqids => cases hpart.symm.trans hall
  | fails hpart hnil hnone htext => cases hpart.symm.trans hall

/-- A walk that returns a resource has walked every name. -/
theorem walksTo_of_run {path new : PathResource} {wname : List ByteString} {wqid : List Qid}
    {world world' : World} (h : path.Mounted config) (hstill : world.Still fs)
    (hwalk : (path.walk wname).run world = .ok (wqid, some new) world') :
    path.walksTo fs wname = some new ∧ world'.Still fs := by
  obtain ⟨result, hwalks, hsettles⟩ := walkFrom_settles h fs [] wname
  obtain ⟨world'', hlater, hrun⟩ := hsettles world hstill
  cases hwalks with
  | full hall hqids =>
    cases hwalk.symm.trans hrun
    exact ⟨hall, hstill.later hlater⟩
  | part hpart hne hqids => cases hwalk.symm.trans hrun
  | fails hpart hnil hnone htext => cases hwalk.symm.trans hrun

end Walks

inductive Twalked (config : Config) (maxlen : Nat) (fs : Fs)
    (mgr : ResourceManager World PathResource OpenResource) (fid newfid : UInt32)
    (wname : List ByteString) (path : PathResource) : Prop
  | full {new world} (hall : path.walksTo fs wname = some new)
      (hlater : mgr.world.Later world)
      (hrun : (dispatch (handler config) maxlen (.twalk ⟨fid, newfid, wname⟩)).run mgr =
        .ok (.rwalk ⟨(path.trail fs wname).map PathResource.qid⟩)
          (mgr.bound newfid (.path new) world)) : Twalked config maxlen fs mgr fid newfid wname path
  | part {world} (hpart : path.walksTo fs wname = none)
      (hne : path.trail fs wname ≠ []) (hlater : mgr.world.Later world)
      (hrun : (dispatch (handler config) maxlen (.twalk ⟨fid, newfid, wname⟩)).run mgr =
        .ok (.rwalk ⟨(path.trail fs wname).map PathResource.qid⟩)
          { mgr with world }) : Twalked config maxlen fs mgr fid newfid wname path
  | fails {text world} (hpart : path.walksTo fs wname = none)
      (hnone : path.trail fs wname = []) (htext : Fs.Says fs text)
      (hlater : mgr.world.Later world)
      (hrun : (dispatch (handler config) maxlen (.twalk ⟨fid, newfid, wname⟩)).run mgr =
        .error (.err text) { mgr with world }) :
      Twalked config maxlen fs mgr fid newfid wname path

section Twalked
variable {config : Config} {fs : Fs} {mgr : ResourceManager World PathResource OpenResource}
  {fid newfid : UInt32} {path : PathResource}

/-- The last qid, which the walk leaves out, is the one dispatch adds. -/
theorem qids_of_full {new : PathResource} {wname : List ByteString}
    (h : path.walksTo fs wname = some new) {qids : List Qid}
    (hqids : qids = (path.trail fs wname).map PathResource.qid) :
    (if wname.isEmpty then qids.dropLast else qids.dropLast ++ [new.qid]) = qids := by
  obtain ⟨hlen, hlast⟩ := walksTo_eq_some_iff.mp h
  cases wname with
  | nil =>
    rw [hqids]
    rfl
  | cons component wname =>
    obtain hnil | ⟨front, last, htrail⟩ := List.eq_nil_or_concat
      (path.trail fs (component :: wname))
    · rw [hnil] at hlen
      cases hlen
    · rw [htrail] at hlast hqids
      simp only [List.concat_eq_append, List.getLastD_concat] at hlast
      simp [hqids, hlast]

theorem twalked (maxlen : Nat) (hfid : newfid ≠ nofid) (hfree : mgr.resources newfid = none)
    (hres : mgr.resources fid = some (.path path)) (hpath : path.Mounted config)
    (hstill : mgr.world.Still fs) (wname : List ByteString) :
    Twalked config maxlen fs mgr fid newfid wname path := by
  obtain ⟨result, hwalks, hsettles⟩ := walkFrom_settles hpath fs [] wname
  obtain ⟨world, hlater, hrun⟩ := hsettles mgr.world hstill
  have hcall : ((handler config).walk path wname).run mgr.world = settle result world := hrun
  cases hwalks with
  | full hall hqids =>
    have hserved : Served (handler config) maxlen mgr _ _ _ := .twalkFull hfid hfree hres hcall
    have hdispatch := hserved.run
    rw [hqids, List.nil_append] at hdispatch
    refine .full hall hlater (hdispatch.trans ?_)
    exact congrArg
      (fun qids => EStateM.Result.ok (RMessage.rwalk ⟨qids⟩) (mgr.bound newfid _ world))
      (qids_of_full hall rfl)
  | part hpart hne hqids =>
    have hserved : Served (handler config) maxlen mgr _ _ _ := .twalkPart hfid hfree hres hcall
    have hdispatch := hserved.run
    rw [hqids, List.nil_append] at hdispatch
    exact .part hpart (hne.resolve_left (not_not.mpr rfl)) hlater hdispatch
  | fails hpart hnil hnone htext =>
    have hfails : CallFails (handler config) mgr _ _ _ := .twalk hfid hfree hres hcall
    exact .fails hpart hnone htext hlater hfails.run

end Twalked

section Session
variable {config : Config}

def mounted (config : Config) : ResourceInvariant World PathResource OpenResource where
  world _ := True
  path := PathResource.Mounted config
  open_ _ := True
  walks _ _ := True

theorem handler_mounts (config : Config) : (handler config).Respects (mounted config) where
  remove _ _ := Keeps.trivial _
  stat _ _ := Keeps.trivial _
  wstat _ _ _ := Keeps.trivial _
  walk res wname h _ :=
    walkFrom_keeps (P := fun _ => PathResource.Mounted config)
      (fun component _ path hpath => walkOne_mounted hpath component) h
  open_ _ _ _ := Keeps.trivial _
  create _ _ _ _ _ := Keeps.trivial _
  read _ _ _ _ := Keeps.trivial _
  write _ _ _ _ := Keeps.trivial _
  auth _ _ := Keeps.trivial _
  attach ares uname aname _ := by
    refine Keeps.ite (fun _ => Keeps.throw _) fun _ => ?_
    refine Keeps.ite (fun _ => Keeps.throw _) fun _ => ?_
    refine Keeps.get.bind fun world _ => (Keeps.set trivial).bind fun _ _ => Keeps.pure ?_
    exact ⟨rfl, trivial⟩

theorem reaches_mounted {world : World} {s : Server.Session World PathResource OpenResource}
    (h : Reaches (Server.Session.step (handler config)) (.start world) s) {fid : UInt32}
    {path : PathResource} (hres : s.mgr.resources fid = some (.path path)) :
    path.Mounted config := by
  have hwalks : ∀ (s : Server.Session World PathResource OpenResource) a,
      True → (mounted config).WalksStep s a := by
    intro s a _
    cases a with
    | complete i => exact fun fut req _ _ fid newfid wname res _ _ => trivial
    | _ => trivial
  exact ((handler_mounts config).run trivial (h.mono hwalks)).resource fid _ hres

end Session

/-- Walk semantics. With the file system unchanging, let `walked` be what the
leading names lead to for which `walk_one` succeeds. When these are all names,
the reply has a qid for each and the new fid is bound to the last resource;
when they are some, the reply has their qids; when they are none of several,
the reply is an error. But for the new fid in the first case, the table stays. -/
theorem walk_semantics (config : Config) (maxlen : Nat) (fs : Fs) (world : World)
    (s : Server.Session World PathResource OpenResource)
    (hreach : Reaches (Server.Session.step (handler config)) (.start world) s)
    (fid newfid : UInt32) (wname : List ByteString) (p : PathResource)
    (hres : s.mgr.resources fid = some (.path p)) (hfree : s.mgr.resources newfid = none)
    (hfid : newfid ≠ nofid) (hstill : s.mgr.world.Still fs) :
    let walked := p.trail fs wname
    let result := (dispatch (handler config) maxlen (.twalk ⟨fid, newfid, wname⟩)).run s.mgr
    (walked.length = wname.length → ∃ mgr',
      result = .ok (.rwalk ⟨walked.map PathResource.qid⟩) mgr' ∧
        mgr'.resources fid = some (.path p) ∧
        mgr'.resources = Function.update s.mgr.resources newfid (some (.path (walked.getLastD p)))) ∧
    (0 < walked.length → walked.length < wname.length → ∃ mgr',
      result = .ok (.rwalk ⟨walked.map PathResource.qid⟩) mgr' ∧
        mgr'.resources = s.mgr.resources) ∧
    (walked.length = 0 → 0 < wname.length → ∃ text mgr',
      result = .error (.err text) mgr' ∧ mgr'.resources = s.mgr.resources) := by
  intro walked result
  have hpath := reaches_mounted hreach hres
  cases twalked maxlen hfid hfree hres hpath hstill wname with
  | full hall hlater hrun =>
    obtain ⟨hlen, rfl⟩ := walksTo_eq_some_iff.mp hall
    have hother : fid ≠ newfid := by
      intro heq
      subst heq
      cases hfree.symm.trans hres
    refine ⟨fun _ => ⟨_, hrun, ?_, rfl⟩, fun _ hpart => ?_, fun hnone hne => ?_⟩
    · exact (Function.update_of_ne hother _ _).trans hres
    · exact absurd hlen (Nat.ne_of_lt hpart)
    · exact absurd (hlen.symm.trans hnone) (Nat.ne_of_gt hne)
  | part hpart hne hlater hrun =>
    refine ⟨fun hall => ?_, fun _ _ => ⟨_, hrun, rfl⟩, fun hnone _ => ?_⟩
    · cases hpart.symm.trans (walksTo_eq_some_iff.mpr ⟨hall, rfl⟩)
    · exact absurd (List.length_eq_zero_iff.mp hnone) hne
  | fails hpart hnone htext hlater hrun =>
    refine ⟨fun hall => ?_, fun hsome _ => ?_, fun _ _ => ⟨_, _, hrun, rfl⟩⟩
    · cases hpart.symm.trans (walksTo_eq_some_iff.mpr ⟨hall, rfl⟩)
    · exact absurd (List.length_eq_zero_iff.mpr hnone) (Nat.ne_of_gt hsome)

def attaching : List Server.Action :=
  [.top, .recv [100, 255, 255, 168, 4, 0, 0, 6, 0, 57, 80, 50, 48, 48, 48] 0, .top,
    .recv [104, 1, 0, 0, 0, 0, 0, 255, 255, 255, 255, 0, 0, 0, 0] 0, .top, .complete 0, .send,
    .pending, .top]

theorem attached_reached (config : Config) (fs : Fs) : ∃ s session,
    Reaches (Server.Session.step (handler config)) (.start { fs := fun _ => fs }) s ∧
      s.mgr.resources =
        Function.update (fun _ => none) 0 (some (.path (PathResource.root config session))) ∧
      (s.mgr.world.fs = fun _ => fs) ∧
      s.pc = .select ∧ s.inflight = [] ∧ s.nextSession = none ∧ s.initialized = true := by
  obtain ⟨uname, hrun⟩ : ∃ uname, (exec (Server.Session.step (handler config))
      (.start { fs := fun _ => fs }) attaching).map (fun s =>
        (s.mgr.resources, s.mgr.world.fs, s.pc, s.inflight, s.nextSession, s.initialized)) =
      some (Function.update (fun _ => none) 0
        (some (.path (PathResource.root config ⟨1, uname⟩))),
        fun _ => fs, .select, [], none, true) := ⟨_, rfl⟩
  obtain ⟨s, hexec, hs⟩ := Option.map_eq_some_iff.mp hrun
  simp only [Prod.mk.injEq] at hs
  obtain ⟨hres, hfs, hidle⟩ := hs
  exact ⟨s, _, reaches_of_exec hexec, hres, hfs, hidle⟩

theorem walk_semantics_part : ∃ s session mgr',
    Reaches (Server.Session.step (handler mainConfig)) (.start { fs := fun _ => Fs.flat [] }) s ∧
      s.mgr.resources 0 = some (.path (PathResource.root mainConfig session)) ∧
      (dispatch (handler mainConfig) 1192 (.twalk ⟨0, 1, ["ff2", "..", "ff3"]⟩)).run s.mgr =
        .ok (.rwalk ⟨[⟨qtdir, 0, 2⟩, rootQid]⟩) mgr' ∧
      mgr'.resources = s.mgr.resources := by
  obtain ⟨s, session, hreach, hres, hfs, -⟩ := attached_reached mainConfig (Fs.flat [])
  have hroot : s.mgr.resources 0 = some (.path (PathResource.root mainConfig session)) := by
    rw [hres]
    rfl
  have hfree : s.mgr.resources 1 = none := by
    rw [hres]
    rfl
  have hstill : s.mgr.world.Still (Fs.flat []) := fun t _ => congrFun hfs t
  obtain ⟨-, hpart, -⟩ := walk_semantics mainConfig 1192 (Fs.flat []) _ s hreach 0 1
    ["ff2", "..", "ff3"] _ hroot hfree (by decide) hstill
  obtain ⟨mgr', hrun, hsame⟩ := hpart (show 0 < 2 by decide) (show 2 < 3 by decide)
  exact ⟨s, session, mgr', hreach, hroot, hrun, hsame⟩

def Binds (config : Config) (maxlen : Nat) (fid newfid : UInt32) (wname : List ByteString)
    (mgr : ResourceManager World PathResource OpenResource) (qids : List Qid) (new : PathResource)
    (mgr' : ResourceManager World PathResource OpenResource) : Prop :=
  (dispatch (handler config) maxlen (.twalk ⟨fid, newfid, wname⟩)).run mgr =
      .ok (.rwalk ⟨qids⟩) mgr' ∧
    mgr'.resources newfid = some (.path new)

section Composition
variable {config : Config} {maxlen : Nat} {fs : Fs} {fid newfid : UInt32}
  {mgr mgr' : ResourceManager World PathResource OpenResource} {p q : PathResource}
  {qids : List Qid} {wname : List ByteString}

/-- A Twalk binds what its trail ends with. -/
theorem binds_iff (hfid : newfid ≠ nofid) (hfree : mgr.resources newfid = none)
    (hres : mgr.resources fid = some (.path p)) (hpath : p.Mounted config)
    (hstill : mgr.world.Still fs) : (∃ mgr', Binds config maxlen fid newfid wname mgr qids q mgr') ↔
      p.walksTo fs wname = some q ∧ qids = (p.trail fs wname).map PathResource.qid := by
  cases twalked maxlen hfid hfree hres hpath hstill wname with
  | full hall hlater hrun =>
    constructor
    · intro hbinds
      obtain ⟨mgr', hrun', hnew⟩ := hbinds
      cases hrun.symm.trans hrun'
      have hbound := (Function.update_self newfid _ mgr.resources).symm.trans hnew
      cases hbound
      exact ⟨hall, rfl⟩
    · intro hfull
      obtain ⟨hq, rfl⟩ := hfull
      cases hall.symm.trans hq
      exact ⟨_, hrun, Function.update_self _ _ _⟩
  | part hpart hne hlater hrun =>
    refine ⟨fun hbinds => ?_, fun hfull => ?_⟩
    · obtain ⟨mgr', hrun', hnew⟩ := hbinds
      cases hrun.symm.trans hrun'
      cases hfree.symm.trans hnew
    · cases hpart.symm.trans hfull.1
  | fails hpart hnone htext hlater hrun =>
    refine ⟨fun hbinds => ?_, fun hfull => ?_⟩
    · obtain ⟨mgr', hrun', hnew⟩ := hbinds
      cases hrun.symm.trans hrun'
    · cases hpart.symm.trans hfull.1

theorem Binds.after (h : Binds config maxlen fid newfid wname mgr qids q mgr') (hfid : newfid ≠ nofid)
    (hfree : mgr.resources newfid = none) (hres : mgr.resources fid = some (.path p))
    (hpath : p.Mounted config) (hstill : mgr.world.Still fs) :
    mgr'.world.Still fs ∧ q.Mounted config ∧
      ∀ fid', fid' ≠ newfid → mgr'.resources fid' = mgr.resources fid' := by
  have hq := hpath.walksTo ((binds_iff hfid hfree hres hpath hstill).mp ⟨mgr', h⟩).1
  obtain ⟨hrun, hnew⟩ := h
  cases twalked maxlen hfid hfree hres hpath hstill wname with
  | full hall hlater hrun' =>
    cases hrun.symm.trans hrun'
    exact ⟨hstill.later hlater, hq, fun fid' hne => Function.update_of_ne hne _ _⟩
  | part hpart hne hlater hrun' =>
    cases hrun.symm.trans hrun'
    cases hfree.symm.trans hnew
  | fails hpart hnone htext hlater hrun' => cases hrun.symm.trans hrun'

end Composition

/-- Walk composition. Once a Twalk of `a` has bound its new fid to `q`, a Twalk
of `a ++ b` comes to what a second Twalk of `b` from there comes to: the same
resource, the qids of the two, and where the second one stops short, the qids
up to there and nothing bound. -/
theorem walk_composition (config : Config) (maxlen : Nat) (fs : Fs) (world : World)
    (s : Server.Session World PathResource OpenResource)
    (hreach : Reaches (Server.Session.step (handler config)) (.start world) s)
    (fid newfid newfid' : UInt32) (a b : List ByteString) (p q : PathResource) (qids : List Qid)
    (mgr : ResourceManager World PathResource OpenResource)
    (hres : s.mgr.resources fid = some (.path p)) (hfree : s.mgr.resources newfid = none)
    (hfree' : s.mgr.resources newfid' = none) (hfid : newfid ≠ nofid) (hfid' : newfid' ≠ nofid)
    (hne : newfid ≠ newfid') (hstill : s.mgr.world.Still fs)
    (hfirst : Binds config maxlen fid newfid a s.mgr qids q mgr) :
    let second := (dispatch (handler config) maxlen (.twalk ⟨newfid, newfid', b⟩)).run mgr
    let single := (dispatch (handler config) maxlen (.twalk ⟨fid, newfid', a ++ b⟩)).run s.mgr
    (∀ r all, (∃ mgr', Binds config maxlen fid newfid' (a ++ b) s.mgr all r mgr') ↔
      ∃ rest mgr', all = qids ++ rest ∧ Binds config maxlen newfid newfid' b mgr rest r mgr') ∧
    (∀ rest mgr₂, second = .ok (.rwalk ⟨rest⟩) mgr₂ → rest.length < b.length → ∃ mgr',
      single = .ok (.rwalk ⟨qids ++ rest⟩) mgr' ∧ mgr'.resources = s.mgr.resources) ∧
    (∀ e mgr₂, second = .error e mgr₂ → a ≠ [] → ∃ mgr',
      single = .ok (.rwalk ⟨qids⟩) mgr' ∧ mgr'.resources = s.mgr.resources) := by
  intro second single
  have hp := reaches_mounted hreach hres
  obtain ⟨hstill', hq, hothers⟩ := hfirst.after hfid hfree hres hp hstill
  obtain ⟨hwalk, rfl⟩ := (binds_iff hfid hfree hres hp hstill).mp ⟨mgr, hfirst⟩
  have hres' : mgr.resources newfid = some (.path q) := hfirst.2
  have hfree₂ : mgr.resources newfid' = none := (hothers newfid' hne.symm).trans hfree'
  have htrail : p.trail fs (a ++ b) = p.trail fs a ++ q.trail fs b := trail_append hwalk
  have hend : p.walksTo fs (a ++ b) = q.walksTo fs b := walksTo_append hwalk
  -- where the second walk stops short, so does the single one
  have hshort (hpart : q.walksTo fs b = none) (hsome : p.trail fs (a ++ b) ≠ []) : ∃ mgr',
      single = .ok (.rwalk ⟨(p.trail fs a).map PathResource.qid ++
        (q.trail fs b).map PathResource.qid⟩) mgr' ∧ mgr'.resources = s.mgr.resources := by
    cases twalked maxlen hfid' hfree' hres hp hstill (a ++ b) with
    | full hall hlater hrun => cases (hend.trans hpart).symm.trans hall
    | part hpart' hne' hlater hrun =>
      rw [htrail, List.map_append] at hrun
      exact ⟨_, hrun, rfl⟩
    | fails hpart' hnone htext hlater hrun => exact (hsome hnone).elim
  refine ⟨fun r all => ?_, fun rest mgr₂ hsecond hlen => ?_, fun e mgr₂ hsecond hnil => ?_⟩
  · rw [binds_iff hfid' hfree' hres hp hstill, hend, htrail, List.map_append]
    constructor
    · intro h
      obtain ⟨hr, rfl⟩ := h
      obtain ⟨mgr', hbinds⟩ := (binds_iff hfid' hfree₂ hres' hq hstill').mpr ⟨hr, rfl⟩
      exact ⟨_, mgr', rfl, hbinds⟩
    · intro h
      obtain ⟨rest, mgr', rfl, hbinds⟩ := h
      obtain ⟨hr, rfl⟩ := (binds_iff hfid' hfree₂ hres' hq hstill').mp ⟨mgr', hbinds⟩
      exact ⟨hr, rfl⟩
  · cases twalked maxlen hfid' hfree₂ hres' hq hstill' b with
    | full hall hlater hrun =>
      cases hrun.symm.trans hsecond
      rw [List.length_map, (walksTo_eq_some_iff.mp hall).1] at hlen
      exact (Nat.lt_irrefl _ hlen).elim
    | part hpart hsome hlater hrun =>
      cases hrun.symm.trans hsecond
      exact hshort hpart (by simp [htrail, hsome])
    | fails hpart hnone htext hlater hrun => cases hrun.symm.trans hsecond
  · cases twalked maxlen hfid' hfree₂ hres' hq hstill' b with
    | full hall hlater hrun => cases hrun.symm.trans hsecond
    | part hpart hsome hlater hrun => cases hrun.symm.trans hsecond
    | fails hpart hnone htext hlater hrun =>
      have hsome : p.trail fs a ≠ [] := by
        rw [ne_eq, ← List.length_eq_zero_iff, (walksTo_eq_some_iff.mp hwalk).1,
          List.length_eq_zero_iff]
        exact hnil
      have hboth := hshort hpart (by simp [htrail, hsome])
      rwa [hnone, List.map_nil, List.append_nil] at hboth

theorem walk_composition_two : ∃ s session qids q mgr,
    Reaches (Server.Session.step (handler mainConfig)) (.start { fs := fun _ => Fs.flat [] }) s ∧
      s.mgr.resources 0 = some (.path (PathResource.root mainConfig session)) ∧
      Binds mainConfig 1192 0 1 ["ff2"] s.mgr qids q mgr ∧
      ∀ r all, (∃ mgr', Binds mainConfig 1192 0 2 ["ff2", "docs"] s.mgr all r mgr') ↔
        ∃ rest mgr', all = qids ++ rest ∧ Binds mainConfig 1192 1 2 ["docs"] mgr rest r mgr' := by
  obtain ⟨s, session, hreach, hres, hfs, -⟩ := attached_reached mainConfig (Fs.flat [])
  have hroot : s.mgr.resources 0 = some (.path (PathResource.root mainConfig session)) := by
    rw [hres]
    rfl
  have hfree (fid : UInt32) (hfid : fid ≠ 0) : s.mgr.resources fid = none := by
    rw [hres]
    exact Function.update_of_ne hfid _ _
  have hstill : s.mgr.world.Still (Fs.flat []) := fun t _ => congrFun hfs t
  have hwalk : (PathResource.root mainConfig session).walksTo (Fs.flat []) ["ff2"] =
      some ⟨mainConfig, session, ⟨qtdir, 0, 2⟩, .onShare "ff2" []⟩ := rfl
  obtain ⟨mgr, hbinds⟩ := (binds_iff (by decide) (hfree 1 (by decide)) hroot
    (reaches_mounted hreach hroot) hstill).mpr ⟨hwalk, rfl⟩
  obtain ⟨hall, -⟩ := walk_composition mainConfig 1192 (Fs.flat []) _ s hreach 0 1 2 ["ff2"] ["docs"]
    _ _ _ mgr hroot (hfree 1 (by decide)) (hfree 2 (by decide)) (by decide) (by decide) (by decide)
    hstill hbinds
  exact ⟨s, session, _, _, mgr, hreach, hroot, hbinds, hall⟩

end NineWire.Res
