import Mathlib.Data.List.Induction
import NineWire.Res.Path
import NineWire.Server.Resources

/-! Confinement to the shares. A walk appends its components to the path of a
share as they come, and looks whether the last part of that path is a link. So
the path stays on the share as long as every component does; a component with
separators of its own may step up, start anew, or go through a link. -/
namespace NineWire.Res
open NineWire.Wire NineWire.Os NineWire.Server NineWire.Stateful NineWire.Transition

/-- The position a component leads to, if the file system has it. -/
def PathInner.follow (shares : ShareTable) (component : ByteString) : PathInner → Option PathInner
  | .root =>
    if component = ".." then some .root
    else if component = "rpc" then some .rpc
    else if (shares.get component).isSome then some (.onShare component []) else none
  | .rpc => if component = ".." then some .root else none
  | .onShare share rem =>
    if component = ".." then some (if rem.isEmpty then .root else .onShare share rem.dropLast)
    else some (.onShare share (rem ++ [component]))

/-- What is pushed on a share goes down from where the path stands. -/
def PathInner.Admits (shares : ShareTable) (link : Path → Prop) (component : ByteString) :
    PathInner → Prop
  | .root | .rpc => True
  | .onShare share rem => component = ".." ∨ ∀ root, shares.get share = some root →
      Path.Plain (fun pre => link (root.push ((Path.collect (rem.map asBytes)).push pre)))
        (asBytes component)

def PathInner.AdmitsAll (shares : ShareTable) (link : Path → Prop) :
    List ByteString → PathInner → Prop
  | [], _ => True
  | component :: wname, inner =>
    inner.Admits shares link component ∧
      ∀ next, inner.follow shares component = some next → next.AdmitsAll shares link wname

/-- A path on a share: the share's own, or one that goes down from there. -/
def ShareTable.Holds (shares : ShareTable) (link : Path → Prop) (path : Path) : Prop :=
  ∃ share root, shares.get share = some root ∧
    (path = root ∨ ∃ rest, rest.Plain (fun pre => link (root.push pre)) ∧ path = root.push rest)

def PathInner.Confined (shares : ShareTable) (link : Path → Prop) : PathInner → Prop
  | .root | .rpc => True
  | .onShare share rem => ∃ root, shares.get share = some root ∧
      Path.Stepwise (fun pre => link (root.push pre)) (rem.map asBytes)

structure PathResource.Confined (config : Config) (link : Path → Prop) (res : PathResource) :
    Prop where
  handler : res.handler = config
  inner : res.inner.Confined config.shares link

structure OpenResource.Confined (config : Config) (link : Path → Prop) (res : OpenResource) :
    Prop where
  handler : res.handler = config
  dir : ∀ path n, res.inner = .dir path n → config.shares.Holds link path

/-- Only paths on a share were handed to the operating system. -/
structure World.Confined (config : Config) (fs : Nat → Fs) (world : World) : Prop where
  unchanged : world.fs = fs
  accessed : ∀ path ∈ world.accessed, config.shares.Holds (IsLink fs) path

section Confinement
variable {config : Config} {shares : ShareTable} {root : Path} {fs : Nat → Fs} {link : Path → Prop}

theorem realPath_onShare {self : PathResource} {share : ByteString} {rem : List ByteString}
    (hinner : self.inner = .onShare share rem) (hroot : self.handler.shares.get share = some root) :
    self.realPath = some (root.push (Path.collect (rem.map asBytes))) := by
  simp [PathResource.realPath, hinner, hroot]

theorem map_asBytes_concat (rem : List ByteString) (component : ByteString) :
    (rem ++ [component]).map asBytes = rem.map asBytes ++ [asBytes component] := by simp

/-- A confined position stays confined wherever it admits the component, and
the step does not end at a link. -/
theorem PathInner.Confined.follow {inner next : PathInner} {component : ByteString}
    (h : inner.Confined shares link) (hadmits : inner.Admits shares link component)
    (hnext : inner.follow shares component = some next)
    (hstop : ∀ share rem root, component ≠ ".." → inner = .onShare share rem →
      shares.get share = some root →
      ¬link (root.push (Path.collect ((rem ++ [component]).map asBytes)))) :
    next.Confined shares link := by
  cases inner with
  | root =>
    simp only [PathInner.follow] at hnext
    split at hnext
    · cases hnext
      trivial
    · split at hnext
      · cases hnext
        trivial
      · split at hnext
        · rename_i hshare
          cases hnext
          obtain ⟨root, hroot⟩ := Option.isSome_iff_exists.mp hshare
          exact ⟨root, hroot, stepwise_nil⟩
        · cases hnext
  | rpc =>
    simp only [PathInner.follow] at hnext
    split at hnext <;> cases hnext
    trivial
  | onShare share rem =>
    obtain ⟨root, hroot, hrem⟩ := h
    simp only [PathInner.follow] at hnext
    split at hnext
    · cases hnext
      split
      · trivial
      · refine ⟨root, hroot, ?_⟩
        rw [List.map_dropLast]
        exact hrem.dropLast
    · rename_i hup
      cases hnext
      have hstops := hstop share rem root hup rfl hroot
      rw [map_asBytes_concat] at hstops
      refine ⟨root, hroot, ?_⟩
      rw [map_asBytes_concat]
      exact hrem.snoc (hadmits.resolve_left hup root hroot) hstops

theorem realPathUnwrap_keeps (I : World → Prop) (self : PathResource) :
    Keeps I self.realPathUnwrap fun path => self.realPath = some path := by
  unfold PathResource.realPathUnwrap
  split
  · rename_i path hpath
    exact Keeps.pure hpath
  · exact Keeps.throw _

/-- A successful step is the one the positions take, and asks for the path of
no other position. -/
theorem walkOne_keeps {I : World → Prop} {self : PathResource} {component : ByteString}
    (haccess : ∀ next path, self.inner.follow self.handler.shares component = some next →
      ({ self with inner := next } : PathResource).realPath = some path →
      ∀ call : Fs → Path → Except String Metadata, Keeps I (access call path) fun _ => True) :
    Keeps I (self.walkOne component) fun new => new.handler = self.handler ∧
      self.inner.follow self.handler.shares component = some new.inner := by
  obtain ⟨handler, session, qid, inner⟩ := self
  unfold PathResource.walkOne
  refine Keeps.ite (fun hup => ?_) (fun hup => ?_)
  · cases inner with
    | root => exact Keeps.pure ⟨rfl, by simp [PathInner.follow, hup]⟩
    | rpc => exact Keeps.pure ⟨rfl, by simp [PathInner.follow, hup]⟩
    | onShare share rem =>
      refine Keeps.ite (fun hrem => ?_) (fun hrem => ?_)
      · exact Keeps.pure ⟨rfl, by simp [PathInner.follow, hup, hrem]⟩
      · have hfollow : (PathInner.onShare share rem).follow handler.shares component =
            some (.onShare share rem.dropLast) := by simp [PathInner.follow, hup, hrem]
        refine (realPathUnwrap_keeps I _).bind fun path hpath => ?_
        exact (haccess _ path hfollow hpath _).bind fun _ _ => Keeps.pure ⟨rfl, hfollow⟩
  · cases inner with
    | root =>
      refine Keeps.ite (fun hrpc => ?_) fun hrpc => Keeps.ite (fun hshare => ?_) fun _ => Keeps.throw _
      · subst hrpc
        exact Keeps.pure ⟨rfl, rfl⟩
      · have hfollow : PathInner.root.follow handler.shares component =
            some (.onShare component []) := by simp [PathInner.follow, hup, hrpc, hshare]
        refine (realPathUnwrap_keeps I _).bind fun path hpath => ?_
        exact (haccess _ path hfollow hpath _).bind fun _ _ => Keeps.pure ⟨rfl, hfollow⟩
    | rpc => exact Keeps.throw _
    | onShare share rem =>
      have hfollow : (PathInner.onShare share rem).follow handler.shares component =
          some (.onShare share (rem ++ [component])) := by simp [PathInner.follow, hup]
      refine (realPathUnwrap_keeps I _).bind fun path hpath => ?_
      refine (haccess _ path hfollow hpath _).bind fun meta_ _ => ?_
      exact Keeps.ite (fun _ => Keeps.throw _) fun _ => Keeps.pure ⟨rfl, hfollow⟩

/-- What every step of a walk keeps holds of the resource it returns. `P` may
speak of the names still to come. -/
theorem walkFrom_keeps {I : World → Prop} {P : List ByteString → PathResource → Prop}
    (hstep : ∀ component wname path, P (component :: wname) path →
      Keeps I (PathResource.walkOne path component) (P wname))
    {wqid : List Qid} {wname : List ByteString} {path : PathResource} (h : P wname path) :
    Keeps I (PathResource.walkFrom wqid wname path) fun walked => ∀ new ∈ walked.2, P [] new := by
  induction wname generalizing wqid path with
  | nil =>
    refine Keeps.pure fun new hnew => ?_
    obtain rfl := Option.some.inj hnew
    exact h
  | cons component wname ih =>
    let Walked : Option PathResource → Prop := fun walked => ∀ new ∈ walked, P wname new
    have hwalk : Keeps I (some <$> path.walkOne component) Walked := by
      refine ((hstep component wname path h).weaken fun new hnew new' hsome => ?_).map
      obtain rfl := Option.some.inj hsome
      exact hnew
    have hcatch (e : Abort) : Keeps I
        (if e = .panic ∨ wqid = [] then throw e else pure none : Call World _) Walked :=
      Keeps.ite (fun _ => Keeps.throw e) fun _ => Keeps.pure nofun
    refine (hwalk.tryCatch hcatch).bind fun walked hwalked => ?_
    split
    · rename_i new
      exact ih (hwalked new rfl)
    · exact Keeps.pure nofun

end Confinement

inductive Walked (config : Config) (fs : Nat → Fs) : PathResource → Prop
  | root (session : Session) : Walked config fs (PathResource.root config session)
  | walk {res new : PathResource} {wname : List ByteString} {wqid : List Qid} {world world' : World}
      (hres : Walked config fs res) (hfs : world.fs = fs)
      (hadmits : res.inner.AdmitsAll config.shares (IsLink fs) wname)
      (hwalk : (res.walk wname).run world = .ok (wqid, some new) world') : Walked config fs new

end NineWire.Res
