import NineWire.Res.Walk

/-! Walking back. A step down and the step up from there ask for different
metadata of different paths, yet the way up restores the resource, because the
qid of a resource is always that of its path. -/
namespace NineWire.Res
open NineWire.Wire NineWire.Os NineWire.Server NineWire.Transition

def Fs.Follows (fs : Fs) : Prop :=
  ∀ path meta_, fs.symlinkMetadata path = .ok meta_ → meta_.isSymlink = false →
    fs.metadata path = .ok meta_

inductive Found (config : Config) (fs : Fs) : PathResource → Prop
  | root (session : Session) : Found config fs (PathResource.root config session)
  | walk {res new : PathResource} {wname : List ByteString} {wqid : List Qid} {world world' : World}
      (hres : Found config fs res) (hstill : world.Still fs)
      (hwalk : (res.walk wname).run world = .ok (wqid, some new) world') : Found config fs new

def PathResource.UpToDate (fs : Fs) (self : PathResource) : Prop :=
  match self.inner with
  | .root => self.qid = rootQid
  | .rpc => self.qid = rpcQid
  | .onShare _ _ => self.refreshed fs.metadata = .ok self

section Dotdot
variable {config : Config} {fs : Fs} {self new p q : PathResource} {component : ByteString}
  {wname : List ByteString} {world world' : World}

theorem refreshed_ok {call : Path → Except String Metadata} (h : self.refreshed call = .ok new) :
    ∃ path meta_, self.realPath = some path ∧ call path = .ok meta_ ∧
      new = { self with qid := Res.qid meta_ } := by
  unfold PathResource.refreshed at h
  cases hpath : self.realPath with
  | none =>
    rw [hpath] at h
    cases h
  | some path =>
    rw [hpath] at h
    simp only at h
    cases hcall : call path with
    | ok meta_ =>
      rw [hcall] at h
      cases h
      exact ⟨path, meta_, rfl, hcall, rfl⟩
    | error text =>
      rw [hcall] at h
      cases h

theorem unlinked_ok {path : Path} {meta_ : Metadata} (h : Fs.unlinked fs path = .ok meta_) :
    fs.symlinkMetadata path = .ok meta_ ∧ meta_.isSymlink = false := by
  unfold Fs.unlinked at h
  split at h
  · split at h
    · cases h
    · rename_i hcall hlink
      cases h
      exact ⟨hcall, by simpa using hlink⟩
  · cases h

inductive Stepped (fs : Fs) (self : PathResource) (component : ByteString) : PathResource → Prop
  | root (hfollow : self.inner.follow self.handler.shares component = some .root) :
      Stepped fs self component { self with inner := .root, qid := rootQid }
  | rpc (hfollow : self.inner.follow self.handler.shares component = some .rpc) :
      Stepped fs self component { self with inner := .rpc, qid := rpcQid }
  | onShare {share rem path meta_}
      (hfollow : self.inner.follow self.handler.shares component = some (.onShare share rem))
      (hpath : ({ self with inner := .onShare share rem } : PathResource).realPath = some path)
      (hmeta : (if component = ".." ∨ self.inner = .root then fs.metadata else Fs.unlinked fs) path =
        .ok meta_) :
      Stepped fs self component { self with inner := .onShare share rem, qid := Res.qid meta_ }

theorem next_cases (h : self.next fs component = some new) : Stepped fs self component new := by
  rw [next_eq] at h
  have hstep := toOption_eq_some h
  unfold PathResource.step at hstep
  split at hstep
  · cases hstep
  · rename_i hfollow
    cases hstep
    exact .root hfollow
  · rename_i hfollow
    cases hstep
    exact .rpc hfollow
  · rename_i share rem hfollow
    obtain ⟨path, meta_, hpath, hmeta, rfl⟩ := refreshed_ok hstep
    exact .onShare hfollow hpath hmeta

theorem next_upToDate (hfollows : Fs.Follows fs) (h : self.next fs component = some new) :
    new.UpToDate fs := by
  cases next_cases h with
  | root hfollow => rfl
  | rpc hfollow => rfl
  | @onShare share rem path meta_ hfollow hpath hmeta =>
    have hstat : fs.metadata path = .ok meta_ := by
      split at hmeta
      · exact hmeta
      · obtain ⟨hlstat, hlink⟩ := unlinked_ok hmeta
        exact hfollows path meta_ hlstat hlink
    have hpath' : ({ self with inner := .onShare share rem, qid := Res.qid meta_ } :
        PathResource).realPath = some path := hpath
    rw [PathResource.UpToDate, PathResource.refreshed, hpath']
    simp only [hstat]

theorem follow_dotdot {shares : ShareTable} {inner next : PathInner} (hdown : component ≠ "..")
    (h : inner.follow shares component = some next) : next.follow shares ".." = some inner := by
  cases inner with
  | root =>
    simp only [PathInner.follow, if_neg hdown] at h
    split at h
    · cases h
      rfl
    · split at h <;> cases h
      rfl
  | rpc =>
    simp only [PathInner.follow, if_neg hdown] at h
    cases h
  | onShare share rem =>
    simp only [PathInner.follow, if_neg hdown] at h
    cases h
    simp [PathInner.follow]

theorem next_position (h : self.next fs component = some new) :
    self.inner.follow self.handler.shares component = some new.inner ∧
      new = { self with inner := new.inner, qid := new.qid } := by
  cases next_cases h with
  | root hfollow => exact ⟨hfollow, rfl⟩
  | rpc hfollow => exact ⟨hfollow, rfl⟩
  | onShare hfollow hpath hmeta => exact ⟨hfollow, rfl⟩

/-- The step up from where a step down led is back. -/
theorem next_dotdot (hp : p.UpToDate fs) (hdown : component ≠ "..")
    (h : p.next fs component = some q) : q.next fs ".." = some p := by
  obtain ⟨hfollow, hq⟩ := next_position h
  have hup := follow_dotdot hdown hfollow
  obtain ⟨handler, session, qid, inner⟩ := p
  rw [next_eq, PathResource.step, hq, hup]
  cases inner with
  | root =>
    obtain rfl : qid = rootQid := hp
    rfl
  | rpc =>
    obtain rfl : qid = rpcQid := hp
    rfl
  | onShare share rem =>
    have hrefreshed : ({ handler, session, qid, inner := .onShare share rem } :
        PathResource).refreshed fs.metadata = .ok _ := hp
    simp only [true_or, if_true]
    exact congrArg Except.toOption hrefreshed

/-- As many steps up as names went down lead back. -/
theorem walksTo_dotdot (hfollows : Fs.Follows fs) (hp : p.UpToDate fs) (hdown : ".." ∉ wname)
    (h : p.walksTo fs wname = some q) :
    q.walksTo fs (List.replicate wname.length "..") = some p := by
  induction wname generalizing p with
  | nil =>
    cases h
    rfl
  | cons component wname ih =>
    have hone : component ≠ ".." := fun heq => hdown (heq ▸ List.mem_cons_self)
    have hrest : ".." ∉ wname := fun hmem => hdown (List.mem_cons_of_mem component hmem)
    obtain ⟨new, hnext, hwalk⟩ := Option.bind_eq_some_iff.mp h
    have hback := ih (next_upToDate hfollows hnext) hrest hwalk
    rw [List.length_cons, List.replicate_succ', walksTo_append hback,
      walksTo_cons (next_dotdot hp hone hnext)]
    rfl

theorem root_dotdot (config : Config) (session : Session) (n : Nat) :
    (PathResource.root config session).walksTo fs (List.replicate n "..") =
      some (PathResource.root config session) := by
  have hstay : (PathResource.root config session).next fs ".." =
      some (PathResource.root config session) := rfl
  induction n with
  | zero => rfl
  | succ n ih => rw [List.replicate_succ, walksTo_cons hstay, ih]

theorem Found.mounted (h : Found config fs p) : p.Mounted config := by
  induction h with
  | root session => exact ⟨rfl, trivial⟩
  | walk hres hstill hwalk ih => exact ih.walksTo (walksTo_of_run ih hstill hwalk).1

theorem Found.upToDate (hfollows : Fs.Follows fs) (h : Found config fs p) : p.UpToDate fs := by
  induction h with
  | root session => rfl
  | walk hres hstill hwalk ih =>
    have hall := (walksTo_of_run hres.mounted hstill hwalk).1
    exact (reaches_of_exec hall).invariant ih fun _ _ hnext => next_upToDate hfollows hnext

end Dotdot

/-- Dot-dot undoes a step: after a walk down from a resource that walks from the
root reach, as many steps up lead back to that resource, and from the root any
number of them stay at the root. -/
theorem dotdot_undoes (config : Config) (fs : Fs) (hfollows : Fs.Follows fs) :
    (∀ p q names wqid world world', Found config fs p → ".." ∉ names → world.Still fs →
      (p.walk names).run world = .ok (wqid, some q) world' → ∃ wqid' p' world'',
        (q.walk (List.replicate names.length "..")).run world' = .ok (wqid', some p') world'' ∧
          p'.inner = p.inner ∧ p'.qid = p.qid) ∧
    (∀ session n world, world.Still fs → ∃ wqid world',
      ((PathResource.root config session).walk (List.replicate n "..")).run world =
        .ok (wqid, some (PathResource.root config session)) world') := by
  refine ⟨fun p q names wqid world world' hp hdown hstill hwalk => ?_,
    fun session n world hstill => ?_⟩
  · obtain ⟨hall, hstill'⟩ := walksTo_of_run hp.mounted hstill hwalk
    have hback := walksTo_dotdot hfollows (hp.upToDate hfollows) hdown hall
    obtain ⟨wqid', world'', hrun, -⟩ := walk_run (hp.mounted.walksTo hall) hback hstill'
    exact ⟨wqid', p, world'', hrun, rfl, rfl⟩
  · have hroot : Found config fs (PathResource.root config session) := .root session
    obtain ⟨wqid, world', hrun, -⟩ := walk_run hroot.mounted (root_dotdot config session n) hstill
    exact ⟨wqid, world', hrun⟩

theorem dotdot_undoes_two : ∃ wqid q world', ((PathResource.root mainConfig ⟨1, "glenda"⟩).walk
      ["ff2", "docs"]).run { fs := fun _ => Fs.flat [] } = .ok (wqid, some q) world' ∧
    q.inner = .onShare "ff2" ["docs"] ∧ ∃ wqid' p' world'',
      (q.walk ["..", ".."]).run world' = .ok (wqid', some p') world'' ∧ p'.inner = .root ∧
        p'.qid = rootQid := by
  have hfollows : Fs.Follows (Fs.flat []) := fun _ _ h _ => h
  have hroot : Found mainConfig (Fs.flat []) (PathResource.root mainConfig ⟨1, "glenda"⟩) :=
    .root _
  obtain ⟨wqid, q, world', hrun, hinner⟩ : ∃ wqid q world',
      ((PathResource.root mainConfig ⟨1, "glenda"⟩).walk ["ff2", "docs"]).run
          { fs := fun _ => Fs.flat [] } = .ok (wqid, some q) world' ∧
        q.inner = .onShare "ff2" ["docs"] := ⟨_, _, _, rfl, rfl⟩
  obtain ⟨hundoes, -⟩ := dotdot_undoes mainConfig (Fs.flat []) hfollows
  have hback := hundoes _ q ["ff2", "docs"] wqid _ world' hroot (by decide) (fun _ _ => rfl) hrun
  exact ⟨wqid, q, world', hrun, hinner, hback⟩

end NineWire.Res
