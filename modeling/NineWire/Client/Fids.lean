import NineWire.Client.Wiring
import NineWire.Server.Binding

/-! The fids of a mounted file system: a fid that nobody has a handle to is
unbound at the server, with no request under way that could bind it. -/
namespace NineWire.Client
open NineWire.Wire NineWire.Server NineWire.Util NineWire.Table

section Fids
variable {W P O : Type} {s s' : Mount W P O} {c h : Nat} {fid fid' : UInt32} {message : TMessage}

instance (fid : UInt32) : (message : TMessage) → Decidable (Binds fid message)
  | .tauth _ | .tattach _ | .twalk _ => inferInstanceAs (Decidable (_ = _))
  | .tversion _ | .tflush _ | .topen _ | .tcreate _ | .tread _ | .treads _ | .twrite _ | .tclunk _
  | .tremove _ | .tstat _ | .twstat _ => inferInstanceAs (Decidable False)

def Mount.Names (s : Mount W P O) (c : Nat) (fid : UInt32) : Prop :=
  ∃ asked ∈ s.traffic.client.asked c, Binds fid asked.2

/-- The request of call `c` is not dispatched and can be still. -/
def Mount.Underway (s : Mount W P O) (c : Nat) : Prop :=
  s.traffic.fates c = .unsent ∨ ∃ fut ∈ s.server.inflight, s.origin fut.tag.serial = some c

def Mount.Quiet (s : Mount W P O) (fid : UInt32) : Prop :=
  ∀ c < s.traffic.client.calls.length, s.Names c fid → ¬s.Underway c

/-- The server does not bind the fid, and no request under way can. -/
structure Mount.Clean (s : Mount W P O) (fid : UInt32) : Prop where
  unbound : s.server.mgr.resources fid = none
  quiet : s.Quiet fid

/-- Call `c` is a Tclunk of `fid`, and once it is dispatched the fid is clean. -/
structure Mount.Clunks (s : Mount W P O) (c : Nat) (fid : UInt32) : Prop where
  asked : ∃ tag, s.traffic.client.asked c = some (tag, .tclunk ⟨fid⟩)
  clean : s.Underway c ∨ s.traffic.fates c = .lost ∨ s.Clean fid

theorem lt_of_asked {client : Calls} {asked : UInt16 × TMessage} (h : client.asked c = some asked) :
    c < client.calls.length := by
  obtain ⟨call, hcall, -⟩ := Option.map_eq_some_iff.mp h
  exact lt_of_get hcall

theorem Mount.Quiet.names (h : s.Quiet fid) (hnames : s.Names c fid) : ¬s.Underway c := by
  have hlt : c < s.traffic.client.calls.length := by
    obtain ⟨asked, hasked, -⟩ := hnames
    exact lt_of_asked hasked
  exact h c hlt hnames

theorem Mount.Clean.frame (h : s.Clean fid) (pool : FidPool) (handles : List Handle) :
    Mount.Clean { s with pool, handles } fid := ⟨h.unbound, h.quiet⟩

theorem Mount.Clunks.frame (h : s.Clunks c fid) (pool : FidPool) (handles : List Handle) :
    Mount.Clunks { s with pool, handles } c fid := by
  refine ⟨h.asked, ?_⟩
  obtain hunder | hlost | hclean := h.clean
  · exact .inl hunder
  · exact .inr (.inl hlost)
  · exact .inr (.inr (hclean.frame pool handles))

/-! A step that makes no call and leaves the pool and the handles alone. -/

structure Quieter (s s' : Mount W P O) : Prop where
  asked : s'.traffic.client.asked = s.traffic.client.asked
  underway : ∀ c, s'.Underway c → s.Underway c
  lost : ∀ c, s.traffic.fates c = .lost → s'.traffic.fates c = .lost
  unbound : ∀ fid, s.Clean fid → s'.server.mgr.resources fid = none
  /-- What is no longer under way is lost, or dispatched. -/
  ended : ∀ c tag fid, s.traffic.client.asked c = some (tag, .tclunk ⟨fid⟩) → s.Underway c →
    s'.Underway c ∨ s'.traffic.fates c = .lost ∨ s'.Clean fid

theorem Quieter.quiet (h : Quieter s s') (hquiet : s.Quiet fid) : s'.Quiet fid := by
  intro c hlt hnames hunder
  rw [Mount.Names, h.asked] at hnames
  exact hquiet.names hnames (h.underway c hunder)

theorem Quieter.clean (h : Quieter s s') (hclean : s.Clean fid) : s'.Clean fid :=
  ⟨h.unbound fid hclean, h.quiet hclean.quiet⟩

theorem Quieter.clunks (h : Quieter s s') (hclunks : s.Clunks c fid) : s'.Clunks c fid := by
  obtain ⟨tag, hasked⟩ := hclunks.asked
  refine ⟨⟨tag, by rw [h.asked, hasked]⟩, ?_⟩
  obtain hunder | hlost | hclean := hclunks.clean
  · exact h.ended c tag fid hasked hunder
  · exact .inr (.inl (h.lost c hlost))
  · exact .inr (.inr (h.clean hclean))

/-! A call. -/

theorem Mount.Clean.call (h : s.Clean fid) (hbinds : ¬Binds fid message) :
    (s.call message).Clean fid := by
  refine ⟨h.unbound, fun c hlt hnames => ?_⟩
  obtain ⟨⟨tag, m⟩, hasked, hm⟩ := hnames
  obtain hold | ⟨-, rfl⟩ := asked_call_cases hasked
  · exact h.quiet.names ⟨(tag, m), hold, hm⟩
  · exact (hbinds hm).elim

theorem Mount.Clunks.call (h : s.Clunks c fid) (hbinds : ¬Binds fid message) :
    (s.call message).Clunks c fid := by
  obtain ⟨tag, hasked⟩ := h.asked
  refine ⟨⟨tag, asked_call message hasked⟩, ?_⟩
  obtain hunder | hlost | hclean := h.clean
  · exact .inl hunder
  · exact .inr (.inl hlost)
  · exact .inr (.inr (hclean.call hbinds))

/-- The request of an operation names no new fid but the operation's own. -/
def Outcome.Own (fid : UInt32) : Outcome → Prop
  | .request message _ => Sends message ∧ ∀ fid', Binds fid' message → fid' = fid
  | _ => True

theorem Mount.Clean.request {outcome : Outcome} (h : s.Clean fid) (hown : outcome.Own fid')
    (hne : fid ≠ fid') : (s.request outcome).Clean fid := by
  cases outcome with
  | request message goal => exact h.call fun hbinds => hne (hown.2 fid hbinds)
  | _ => exact h

theorem Mount.Clunks.request {outcome : Outcome} (h : s.Clunks c fid) (hown : outcome.Own fid')
    (hne : fid ≠ fid') : (s.request outcome).Clunks c fid := by
  cases outcome with
  | request message goal => exact h.call fun hbinds => hne (hown.2 fid hbinds)
  | _ => exact h

theorem attach_own (uname aname : ByteString) (fid : UInt32) : (attach uname aname fid).Own fid :=
  ⟨trivial, fun _ hbinds => hbinds.symm⟩

theorem walkDir_own (src fid : UInt32) (wname : List ByteString) (wqid : List Qid) :
    (walkDir src fid wname wqid).Own fid :=
  ⟨trivial, fun _ hbinds => hbinds.symm⟩

theorem openDirAt_own (src : UInt32) (path : String) (fid : UInt32) :
    (openDirAt src path fid).Own fid := walkDir_own _ _ _ _

theorem openAt_own (src : UInt32) (path : String) (fid : UInt32) :
    (openAt src path fid).Own fid := by
  unfold openAt
  dsimp only
  split
  · trivial
  · exact ⟨trivial, fun _ hbinds => hbinds.symm⟩

theorem topen_own (fid : UInt32) (goal : Goal) : (Outcome.request (.topen ⟨fid, 0⟩) goal).Own fid :=
  ⟨trivial, fun _ hbinds => hbinds.elim⟩

theorem walked_own {nc : Nat} {wqid : List Qid} {k : Outcome} (h : k.Own fid) :
    (walked nc wqid k).Own fid := by
  unfold walked
  split
  · trivial
  · split
    · trivial
    · exact h

/-- An operation goes on with the fid it began with. -/
theorem next_own (fid : UInt32) (goal : Goal) (resp : RMessage) : (goal.next fid resp).Own fid := by
  unfold Goal.next
  split
  · trivial
  · split <;> trivial
  · refine walked_own ?_
    dsimp only
    split
    · split <;> trivial
    · exact walkDir_own _ _ _ _
  · refine walked_own ?_
    split
    · split
      · trivial
      · exact topen_own fid _
    · trivial
  · split <;> trivial
  · split <;> trivial
  · trivial

/-! The invariant. -/

structure Fids (s : Mount W P O) : Prop where
  valid : s.pool.Valid
  free : ∀ fid, s.pool.Free fid → s.Clean fid
  held : ∀ (h : Nat) (handle : Handle), s.handles[h]? = some handle → handle.stage ≠ .dropped →
    ¬s.pool.Free handle.fid
  distinct : ∀ (h h' : Nat) (handle handle' : Handle), s.handles[h]? = some handle →
    s.handles[h']? = some handle' → handle.stage ≠ .dropped → handle'.stage ≠ .dropped →
    handle.fid = handle'.fid → h = h'
  clunking : ∀ (h : Nat) (handle : Handle) c, s.handles[h]? = some handle →
    handle.stage = .clunking c → s.Clunks c handle.fid

theorem Fids.frame (h : Fids s) (hpool : s'.pool = s.pool) (hhandles : s'.handles = s.handles)
    (hclean : ∀ fid, s.Clean fid → s'.Clean fid)
    (hclunks : ∀ c fid, s.Clunks c fid → s'.Clunks c fid) : Fids s' := by
  constructor
  · rw [hpool]
    exact h.valid
  · rw [hpool]
    exact fun fid hfree => hclean fid (h.free fid hfree)
  · rw [hpool, hhandles]
    exact h.held
  · rw [hhandles]
    exact h.distinct
  · rw [hhandles]
    exact fun i handle c hget hstage => hclunks c _ (h.clunking i handle c hget hstage)

/-- One handle moves on, which concerns its own fid only. -/
theorem Fids.update {handle : Handle} {stage : HandleStage} (hf : Fids s)
    (hget : s.handles[h]? = some handle) (hlive : handle.stage ≠ .dropped)
    (hhandles : s'.handles = s.handles.set h { handle with stage }) (hvalid : s'.pool.Valid)
    (hfree : ∀ fid, s'.pool.Free fid →
      s.pool.Free fid ∨ (fid = handle.fid ∧ stage = .dropped ∧ s'.Clean fid))
    (hclean : ∀ fid, s.Clean fid → fid ≠ handle.fid → s'.Clean fid)
    (hclunks : ∀ c fid, s.Clunks c fid → fid ≠ handle.fid → s'.Clunks c fid)
    (hstage : ∀ c, stage = .clunking c → s'.Clunks c handle.fid) : Fids s' := by
  have hheld := hf.held h handle hget hlive
  have hback {j : Nat} {new : Handle} (hj : s'.handles[j]? = some new) :
      (j = h ∧ new = { handle with stage }) ∨ (j ≠ h ∧ s.handles[j]? = some new) := by
    rw [hhandles] at hj
    obtain ⟨rfl, hnew⟩ | ⟨hne, hold⟩ := set_cases hj
    · exact .inl ⟨rfl, hnew⟩
    · exact .inr ⟨Ne.symm hne, hold⟩
  have hother {j : Nat} {new : Handle} (hne : j ≠ h) (hj : s.handles[j]? = some new)
      (hnew : new.stage ≠ .dropped) : new.fid ≠ handle.fid := by
    intro hfid
    exact hne (hf.distinct j h new handle hj hget hnew hlive hfid)
  refine ⟨hvalid, fun fid hfid => ?_, fun j new hj hnew hfid => ?_,
    fun j k new new' hj hk hnew hnew' hfid => ?_, fun j new c hj hnew => ?_⟩
  · obtain hold | ⟨-, -, hnow⟩ := hfree fid hfid
    · refine hclean fid (hf.free fid hold) ?_
      intro hsame
      subst hsame
      exact hheld hold
    · exact hnow
  · obtain ⟨rfl, rfl⟩ | ⟨hne, hold⟩ := hback hj
    · obtain hwas | ⟨-, hdropped, -⟩ := hfree _ hfid
      · exact hheld hwas
      · exact hnew hdropped
    · obtain hwas | ⟨heq, -, -⟩ := hfree _ hfid
      · exact hf.held j new hold hnew hwas
      · exact hother hne hold hnew heq
  · obtain ⟨rfl, rfl⟩ | ⟨hne, hold⟩ := hback hj
    · obtain ⟨rfl, -⟩ | ⟨hne', hold'⟩ := hback hk
      · rfl
      · exact (hother hne' hold' hnew' hfid.symm).elim
    · obtain ⟨rfl, rfl⟩ | ⟨hne', hold'⟩ := hback hk
      · exact (hother hne hold hnew hfid).elim
      · exact hf.distinct j k new new' hold hold' hnew hnew' hfid
  · obtain ⟨rfl, rfl⟩ | ⟨hne, hold⟩ := hback hj
    · exact hstage c hnew
    · refine hclunks c new.fid (hf.clunking j new c hold hnew) (hother hne hold ?_)
      simp [hnew]

theorem Fids.begin {pool : FidPool} {outcome : Outcome} {stage : HandleStage} (hf : Fids s)
    (hget : s.pool.get = some (fid, pool)) (hown : outcome.Own fid)
    (hstage : ∀ c, stage ≠ .clunking c) :
    Fids { s.request outcome with pool, handles := s.handles ++ [⟨fid, stage⟩] } := by
  obtain ⟨hvalid, hfresh, hfree⟩ := get_spec hf.valid hget
  have hother {j : Nat} {handle : Handle} (hj : s.handles[j]? = some handle)
      (hlive : handle.stage ≠ .dropped) : handle.fid ≠ fid := by
    intro hfid
    exact hf.held j handle hj hlive (hfid ▸ hfresh)
  refine ⟨hvalid, fun fid' hfid' => ?_, fun j handle hj hlive hfid' => ?_,
    fun j k handle handle' hj hk hlive hlive' hfid' => ?_, fun j handle c hj hclunking => ?_⟩
  · obtain ⟨hwas, hne⟩ := (hfree fid').mp hfid'
    exact ((hf.free fid' hwas).request hown hne).frame _ _
  · obtain ⟨hwas, hne⟩ := (hfree _).mp hfid'
    obtain hold | ⟨-, rfl⟩ := append_cases hj
    · exact hf.held j handle hold hlive hwas
    · exact hne rfl
  · obtain hold | ⟨rfl, rfl⟩ := append_cases hj
    · obtain hold' | ⟨-, rfl⟩ := append_cases hk
      · exact hf.distinct j k handle handle' hold hold' hlive hlive' hfid'
      · exact (hother hold hlive hfid').elim
    · obtain hold' | ⟨rfl, -⟩ := append_cases hk
      · exact (hother hold' hlive' hfid'.symm).elim
      · rfl
  · obtain hold | ⟨-, rfl⟩ := append_cases hj
    · have hne := hother hold (by simp [hclunking])
      exact ((hf.clunking j handle c hold hclunking).request hown hne).frame _ _
    · exact (hstage c hclunking).elim

end Fids

end NineWire.Client
