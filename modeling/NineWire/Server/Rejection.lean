import NineWire.Res.Walk
import NineWire.Server.Replies

/-! A Tversion with too small an `msize`. The reset is done before the size is
looked at, so that the session it is meant to replace goes on without fids. -/
namespace NineWire.Server
open NineWire.Wire NineWire.Transition

variable {W P O : Type} {handler : Serve W P O} {s t t' : Session W P O} {a : Action}

def Event.isSent : Event → Bool
  | .sent _ _ _ => true
  | _ => false

def Session.replies (s : Session W P O) : Nat := s.log.countP Event.isSent

def Quiet (handler : Serve W P O) (t : Session W P O) (a : Action) : Prop :=
  ∀ t', t.step handler a = some t' → t'.replies = t.replies

/-- The step answers a Tversion with the Rerror of a message size below 256. -/
def Rejects (handler : Serve W P O) (t : Session W P O) (a : Action) (t' : Session W P O) : Prop :=
  t.step handler a = some t' ∧ ∃ owed req bytes, owed.cause = .version req ∧
    req.msize.toNat < 256 ∧
    t'.log = .sent owed (.rerror ⟨"Tversion: message size too small"⟩) bytes :: t.log

structure Session.SameSession (s t : Session W P O) : Prop where
  resources : t.mgr.resources = s.mgr.resources
  initialized : t.initialized = s.initialized

def Pc.AtReply (pc : Pc) : Prop := ∃ owed flushes resp, pc = .reply owed flushes resp

theorem replies_sent {owed : Owed} {resp : RMessage} {bytes : Bytes}
    (hlog : t'.log = .sent owed resp bytes :: t.log) : t'.replies ≠ t.replies := by
  rw [Session.replies, hlog, List.countP_cons_of_pos rfl]
  exact Nat.succ_ne_self _

/-- Between two replies the session changes only on the way to the second. -/
theorem quiet_step (hquiet : Quiet handler t a) (hstep : t.step handler a = some t')
    (h : t.pc.AtReply ∨ s.SameSession t) : t'.pc.AtReply ∨ s.SameSession t' := by
  have hreplies := hquiet t' hstep
  obtain ⟨owed, flushes, resp, hreply⟩ | hsame := h
  · cases step_cases hstep with
    | reply hpc hbytes => exact (replies_sent rfl hreplies).elim
    | complete hpc hfut hresp => exact .inl ⟨_, _, _, rfl⟩
    | _ hpc => cases hreply.symm.trans hpc
  · cases step_cases hstep with
    | reset hpc hempty hnext hbytes => exact (replies_sent rfl hreplies).elim
    | reply hpc hbytes => exact (replies_sent rfl hreplies).elim
    | flush hpc hbytes => exact (replies_sent rfl hreplies).elim
    | complete hpc hfut hresp => exact .inl ⟨_, _, _, rfl⟩
    | _ => exact .inr ⟨hsame.resources, hsame.initialized⟩

theorem quiet_run (h : Steps (Session.step handler) (Quiet handler) s t) :
    t.pc.AtReply ∨ s.SameSession t := by
  have hstart : s.pc.AtReply ∨ s.SameSession s := .inr ⟨rfl, rfl⟩
  exact h.invariant (I := fun t => t.pc.AtReply ∨ s.SameSession t) hstart
    fun hI hquiet hstep => quiet_step hquiet hstep hI

/-- A rejection is the deferred reset: the table is cleared and the flag stays. -/
theorem rejects_cases (hsound : t.Sound handler) (h : Rejects handler t a t') :
    t.pc = .top ∧ (t'.mgr.resources = fun _ => none) ∧ t'.initialized = t.initialized := by
  obtain ⟨hstep, owed, req, bytes, hcause, hsize, hlog⟩ := h
  have hlonger : t'.log.length = t.log.length + 1 := by rw [hlog, List.length_cons]
  cases step_cases hstep with
  | @reset owed' req' bytes' hpc hempty hnext hbytes =>
    refine ⟨hpc, rfl, ?_⟩
    obtain ⟨hhead, -⟩ := List.cons.inj hlog
    obtain ⟨-, hreply, -⟩ := Event.sent.inj hhead
    have hsmall : req'.msize.toNat < 256 := by
      by_contra hlarge
      rw [versionReply, if_neg hlarge] at hreply
      cases hreply
    simp [hsmall]
  | reply hpc hbytes =>
    obtain ⟨hhead, -⟩ := List.cons.inj hlog
    obtain ⟨rfl, -, -⟩ := Event.sent.inj hhead
    obtain ⟨-, hversion, -⟩ := hsound.replying hpc
    exact (hversion ⟨req, hcause⟩).elim
  | flush hpc hbytes =>
    obtain ⟨hhead, -⟩ := List.cons.inj hlog
    cases hhead
  | thrownOut hpc hrecv howes =>
    obtain ⟨hhead, -⟩ := List.cons.inj hlog
    cases hhead
  | version hpc hrecv howes hcause' =>
    obtain ⟨hhead, -⟩ := List.cons.inj hlog
    cases hhead
  | push hpc hrecv howes hcause' hflush =>
    obtain ⟨hhead, -⟩ := List.cons.inj hlog
    cases hhead
  | @park incoming pick owed' oldtag fut hpc hrecv howes hcause' hfut htag =>
    cases hflushes : fut.flushes <;> simp [hflushes] at hlog
  | _ => simp at hlonger

/-- A rejected Tversion leaves the session as it was when the last reply before
it had been sent exactly when no fid was bound then. -/
theorem rejection_keeps_session_iff (handler : Serve W P O) (world : W)
    (s t t' : Session W P O) (a : Action)
    (hreach : Reaches (Session.step handler) (.start world) s)
    (hquiet : Steps (Session.step handler) (Quiet handler) s t) (h : Rejects handler t a t') :
    s.SameSession t' ↔ ∀ fid, s.mgr.resources fid = none := by
  have hsound := reaches_sound (hreach.trans (hquiet.mono fun _ _ _ => trivial))
  obtain ⟨hpc, htable, hinit⟩ := rejects_cases hsound h
  obtain ⟨owed, flushes, resp, hreply⟩ | hsame := quiet_run hquiet
  · cases hpc.symm.trans hreply
  · constructor
    · intro hkept fid
      rw [← hkept.resources, htable]
    · intro hfree
      refine ⟨?_, hinit.trans hsame.initialized⟩
      rw [htable]
      exact (funext hfree).symm

def smallVersion : Bytes := [100, 255, 255, 100, 0, 0, 0, 6, 0, 57, 80, 50, 48, 48, 48]

/-- A session that waits with nothing in flight rejects it right away. -/
theorem rejects_smallVersion (handler : Serve W P O) (hpc : s.pc = .select)
    (hempty : s.inflight = []) (hnext : s.nextSession = none) : ∃ t t',
    Steps (Session.step handler) (Quiet handler) s t ∧ Rejects handler t .top t' := by
  let req : Tversion := ⟨100, "9P2000"⟩
  let owed : Owed := ⟨s.serial, notag, .version req⟩
  let t : Session W P O := { s.received smallVersion with nextSession := some (owed, req) }
  have hdes : deserializeT smallVersion = .ok (notag, .tversion req) := by decide
  have hrecv : s.step handler (.recv smallVersion 0) = some t := by
    have hreceives : s.Receives smallVersion := by
      rw [Session.Receives, hempty, hnext]
      decide
    simp [Session.step, hpc, Session.recv, hreceives, hdes, isTversion, Session.accept, t, owed]
  obtain ⟨bytes, hbytes⟩ : ∃ bytes, serialized (versionReply req) notag = some bytes :=
    Option.isSome_iff_exists.mp (by decide)
  have htop : t.step handler .top = some
      { t with
        mgr := { t.mgr with resources := fun _ => none }
        nextSession := none
        initialized := t.initialized || !(req.msize.toNat < 256)
        pc := .select
        log := .sent owed (versionReply req) bytes :: t.log } := by
    simp [Session.step, Session.received, Session.top, Session.send, hempty, hbytes, t, owed]
  refine ⟨t, _, .tail _ .refl ?_ hrecv, htop, owed, req, _, rfl, by decide, rfl⟩
  intro t' ht'
  cases hrecv.symm.trans ht'
  rfl

theorem rejection_keeps_session_iff_clunked :
    ∃ (s t t' : Session Res.World Res.PathResource Res.OpenResource),
      exec (Session.step (Res.handler Res.mainConfig)) (.start { fs := fun _ => Os.Fs.flat [] })
        (Res.attaching ++
          [.recv [120, 1, 0, 0, 0, 0, 0] 0, .top, .complete 0, .send, .pending, .top]) = some s ∧
      s.initialized = true ∧
      Steps (Session.step (Res.handler Res.mainConfig)) (Quiet (Res.handler Res.mainConfig)) s t ∧
      Rejects (Res.handler Res.mainConfig) t .top t' ∧ s.SameSession t' := by
  obtain ⟨bound, hrun⟩ : ∃ bound, (exec (Session.step (Res.handler Res.mainConfig))
      (.start { fs := fun _ => Os.Fs.flat [] }) (Res.attaching ++
        [.recv [120, 1, 0, 0, 0, 0, 0] 0, .top, .complete 0, .send, .pending, .top])).map
      (fun s => (s.mgr.resources, s.pc, s.inflight, s.nextSession, s.initialized)) =
      some (Function.update (Function.update (fun _ => none) 0 (some bound)) 0 none,
        .select, [], none, true) := ⟨_, rfl⟩
  obtain ⟨s, hexec, hs⟩ := Option.map_eq_some_iff.mp hrun
  simp only [Prod.mk.injEq, Function.update_idem, Function.update_eq_self] at hs
  obtain ⟨hres, hpc, hempty, hnext, hinit⟩ := hs
  obtain ⟨t, t', hquiet, hrejects⟩ := rejects_smallVersion _ hpc hempty hnext
  refine ⟨s, t, t', hexec, hinit, hquiet, hrejects, ?_⟩
  exact (rejection_keeps_session_iff _ _ s t t' .top (reaches_of_exec hexec) hquiet hrejects).mpr
    (congrFun hres)

/-- A client that has attached loses its fid. -/
theorem rejection_keeps_session_counterexample :
    ¬∀ (s t t' : Session Res.World Res.PathResource Res.OpenResource) (a : Action),
      Reaches (Session.step (Res.handler Res.mainConfig))
        (.start { fs := fun _ => Os.Fs.flat [] }) s →
      Steps (Session.step (Res.handler Res.mainConfig)) (Quiet (Res.handler Res.mainConfig)) s t →
      Rejects (Res.handler Res.mainConfig) t a t' → s.SameSession t' := by
  intro h
  obtain ⟨s, session, hreach, hres, -, hpc, hempty, hnext, -⟩ :=
    Res.attached_reached Res.mainConfig (Os.Fs.flat [])
  obtain ⟨t, t', hquiet, hrejects⟩ := rejects_smallVersion _ hpc hempty hnext
  have hkept := h s t t' .top hreach hquiet hrejects
  have hsound := reaches_sound (hreach.trans (hquiet.mono fun _ _ _ => trivial))
  obtain ⟨-, htable, -⟩ := rejects_cases hsound hrejects
  have hlost := congrFun (htable.symm.trans hkept.resources) 0
  rw [hres, Function.update_self] at hlost
  cases hlost

end NineWire.Server
