import NineWire.Server.Replies

/-! Session reset. A Tversion waits until nothing is in flight; the reply to it
starts from an empty fid table, and what is sent afterwards answers what is
received afterwards. -/
namespace NineWire.Server
open NineWire.Wire NineWire.Ledger NineWire.Transition

section Reset
variable {W P O : Type} {handler : Serve W P O} {s s' t : Session W P O} {a : Action}

theorem step_unanswered (hstep : s.step handler a = some s') {owed : Owed}
    (ho : owed ∈ s'.unanswered) : owed ∈ s.unanswered ∨ owed.serial = s.serial := by
  rw [mem_unanswered] at ho ⊢
  cases step_cases hstep with
  | reset hpc hempty hnext hbytes => simp [hempty, Pc.owed] at ho
  | wait hpc hnext => exact .inl (by simpa [hpc, Pc.owed] using ho)
  | thrownOut hpc hrecv howes => exact .inl (by simpa [Session.received, hpc, Pc.owed] using ho)
  | version hpc hrecv howes hcause =>
    obtain hfut | hbad | ⟨req, heq⟩ := ho
    · exact .inl (.inl hfut)
    · cases hbad
    · cases heq
      exact .inr (owes_serial howes)
  | push hpc hrecv howes hcause hflush =>
    obtain ⟨fut, hfut, ho⟩ | hbad | hnext := ho
    · obtain rfl | hfut := List.mem_cons.mp hfut
      · obtain rfl : owed = _ := by simpa [TaggedFuture.owed] using ho
        exact .inr (owes_serial howes)
      · exact .inl (.inl ⟨fut, hfut, ho⟩)
    · cases hbad
    · exact .inl (.inr (.inr hnext))
  | park hpc hrecv howes hcause hfut htag =>
    rename_i incoming pick new oldtag fut
    obtain ⟨fut', hfut', ho⟩ | hbad | hnext := ho
    · obtain hfut' | rfl := List.mem_or_eq_of_mem_set hfut'
      · exact .inl (.inl ⟨fut', hfut', ho⟩)
      · obtain rfl | rfl : owed = fut.tag ∨ owed = new := by simpa [TaggedFuture.owed] using ho
        · exact .inl (.inl ⟨fut, List.mem_of_getElem? hfut, List.mem_cons_self⟩)
        · exact .inr (owes_serial howes)
    · cases hbad
    · exact .inl (.inr (.inr hnext))
  | complete hpc hfut hresp =>
    rename_i i fut resp mgr
    obtain ⟨fut', hfut', ho⟩ | ho | hnext := ho
    · exact .inl (.inl ⟨fut', List.mem_of_mem_eraseIdx hfut', ho⟩)
    · exact .inl (.inl ⟨fut, List.mem_of_getElem? hfut, ho⟩)
    · exact .inl (.inr (.inr hnext))
  | reply hpc hbytes =>
    rename_i tag flushes resp bytes
    obtain hfut | ho | hnext := ho
    · exact .inl (.inl hfut)
    · rw [afterReply_owed] at ho
      exact .inl (.inr (.inl (by simpa [hpc, Pc.owed] using .inr (by simpa using ho))))
    · exact .inl (.inr (.inr hnext))
  | flush hpc hbytes =>
    obtain hfut | hbad | hnext := ho
    · exact .inl (.inl hfut)
    · cases hbad
    · exact .inl (.inr (.inr hnext))
  | pending hpc => exact .inl (by simpa [hpc, Pc.owed] using ho)
  | else_ hpc hempty hnext => exact .inl (by simpa [hpc, Pc.owed] using ho)

theorem completes_version {mgr mgr' : ResourceManager W P O} {cause : Cause} {v : Rversion}
    (h : Completes handler mgr cause.hdl (.rversion v) mgr') : ∃ req, cause = .version req := by
  generalize hhdl : cause.hdl = hdl at h
  cases h with
  | ready =>
    cases cause with
    | version req => exact ⟨req, rfl⟩
    | _ => cases hhdl
  | served hrun =>
    generalize hresp : RMessage.rversion v = resp at hrun
    cases dispatch_ok hrun <;> cases hresp

/-- An Rversion is only sent at the loop head, with nothing in flight. -/
theorem rversion_cases (hsound : s.Sound handler) (hstep : s.step handler a = some s')
    {owed : Owed} {v : Rversion} {bytes : Bytes}
    (hlog : s'.log = .sent owed (.rversion v) bytes :: s.log) :
    s.pc = .top ∧ s.inflight = [] ∧ (∃ req, s.nextSession = some (owed, req)) ∧
      (∀ fid, s'.mgr.resources fid = none) ∧ s'.inflight = [] ∧ s'.unanswered = 0 ∧
      s'.serial = s.serial := by
  cases step_cases hstep with
  | reset hpc hempty hnext hbytes =>
    obtain ⟨hhead, -⟩ := List.cons.inj hlog
    obtain ⟨rfl, -, -⟩ := Event.sent.inj hhead
    refine ⟨hpc, hempty, ⟨_, hnext⟩, fun _ => rfl, hempty, ?_, rfl⟩
    simp [Session.unanswered, hempty, Pc.owed]
  | reply hpc hbytes =>
    obtain ⟨hhead, -⟩ := List.cons.inj hlog
    cases hhead
    obtain ⟨⟨mgr, mgr', hcompletes⟩, hversion, -⟩ := hsound.replying hpc
    exact (hversion (completes_version hcompletes)).elim
  | flush hpc hbytes =>
    obtain ⟨hhead, -⟩ := List.cons.inj hlog
    cases hhead
  | thrownOut hpc hrecv howes =>
    obtain ⟨hhead, -⟩ := List.cons.inj hlog
    cases hhead
  | version hpc hrecv howes hcause =>
    obtain ⟨hhead, -⟩ := List.cons.inj hlog
    cases hhead
  | push hpc hrecv howes hcause hflush =>
    obtain ⟨hhead, -⟩ := List.cons.inj hlog
    cases hhead
  | park hpc hrecv howes hcause hfut htag =>
    rename_i fut
    cases hflushes : fut.flushes <;> simp [hflushes] at hlog
  | _ => exact absurd (congrArg List.length hlog) (by simp)

theorem step_serial (hstep : s.step handler a = some s') : s.serial ≤ s'.serial := by
  cases step_cases hstep with
  | thrownOut hpc hrecv howes => exact Nat.le_succ s.serial
  | version hpc hrecv howes hcause => exact Nat.le_succ s.serial
  | push hpc hrecv howes hcause hflush => exact Nat.le_succ s.serial
  | park hpc hrecv howes hcause hfut htag => exact Nat.le_succ s.serial
  | _ => exact Nat.le_refl s.serial

structure AnswersAfter (n : Nat) (base : List Event) (t : Session W P O) : Prop where
  serial : n < t.serial
  unanswered : ∀ owed ∈ t.unanswered, n < owed.serial
  log : ∃ newer, t.log = newer ++ base ∧
    ∀ owed resp bytes, .sent owed resp bytes ∈ newer → n < owed.serial

theorem answersAfter_step {n : Nat} {base : List Event} (h : AnswersAfter n base s)
    (hstep : s.step handler a = some s') : AnswersAfter n base s' where
  serial := Nat.lt_of_lt_of_le h.serial (step_serial hstep)
  unanswered := by
    intro owed ho
    obtain hold | hnew := step_unanswered hstep ho
    · exact h.unanswered owed hold
    · rw [hnew]
      exact h.serial
  log := by
    obtain ⟨newer, hlog, hsent⟩ := h.log
    obtain ⟨new, hnew, hmem⟩ := step_log hstep
    refine ⟨new ++ newer, by rw [hnew, hlog, List.append_assoc], ?_⟩
    intro owed resp bytes hin
    obtain hin | hin := List.mem_append.mp hin
    · exact h.unanswered owed (hmem owed resp bytes hin)
    · exact hsent owed resp bytes hin

/-- Nothing is dispatched before the session is initialized, and it is
initialized by sending an Rversion. -/
structure Session.Gated (s : Session W P O) : Prop where
  idle : s.initialized = false → ∀ fut ∈ s.inflight, ∀ req, fut.hdl ≠ .dispatch req
  opened : s.initialized = true → ∃ owed v bytes, .sent owed (.rversion v) bytes ∈ s.log

theorem Session.Gated.opened_mono (h : s.Gated) {new : List Event} (hinit : s.initialized = true) :
    ∃ owed v bytes, .sent owed (.rversion v) bytes ∈ new ++ s.log := by
  obtain ⟨owed, v, bytes, hmem⟩ := h.opened hinit
  exact ⟨owed, v, bytes, List.mem_append_right new hmem⟩

theorem gated_step (h : s.Gated) (hstep : s.step handler a = some s') : s'.Gated := by
  obtain ⟨new, hlog, -⟩ := step_log hstep
  have hopened : s.initialized = true → ∃ owed v bytes, .sent owed (.rversion v) bytes ∈ s'.log := by
    intro hinit
    rw [hlog]
    exact h.opened_mono hinit
  cases step_cases hstep with
  | reset hpc hempty hnext hbytes =>
    rename_i owed req bytes
    refine ⟨by simp [hempty], fun hinit => ?_⟩
    by_cases hmsize : req.msize.toNat < 256
    · exact hopened (by simpa [hmsize] using hinit)
    · have hreply : ∃ v, versionReply req = .rversion v := ⟨_, if_neg hmsize⟩
      obtain ⟨v, hv⟩ := hreply
      exact ⟨owed, v, bytes, by simp [hv]⟩
  | push hpc hrecv howes hcause hflush =>
    rename_i incoming pick owed
    refine ⟨?_, hopened⟩
    intro hinit fut hfut req hreq
    obtain rfl | hfut := List.mem_cons.mp hfut
    · have hrequest : owed.cause = .request req := by
        cases hc : owed.cause <;> simp_all [Cause.hdl]
      obtain ⟨hinit', -⟩ := owes_request howes hrequest
      simp [Session.received, Session.push, hinit'] at hinit
    · exact h.idle hinit fut hfut req hreq
  | park hpc hrecv howes hcause hfut htag =>
    rename_i incoming pick owed oldtag fut
    refine ⟨?_, hopened⟩
    intro hinit fut' hfut' req hreq
    obtain hfut' | rfl := List.mem_or_eq_of_mem_set hfut'
    · exact h.idle hinit fut' hfut' req hreq
    · exact h.idle hinit fut (List.mem_of_getElem? hfut) req hreq
  | complete hpc hfut hresp =>
    exact ⟨fun hinit fut hfut => h.idle hinit fut (List.mem_of_mem_eraseIdx hfut), hopened⟩
  | _ => exact ⟨h.idle, hopened⟩

end Reset

/-- Session reset. When an Rversion is sent nothing is in flight, the fid
table is empty and every datagram received before that Tversion has been
answered, unless it was thrown out for want of a session or was a flush
displaced by another; every later reply answers a later datagram; and nothing
is dispatched before the first Rversion. -/
theorem session_reset {W P O : Type} (handler : Serve W P O) (world : W) (s : Session W P O)
    (h : Reaches (Session.step handler) (.start world) s) :
    (∀ a s' owed v bytes, s.step handler a = some s' →
      s'.log = .sent owed (.rversion v) bytes :: s.log →
      s'.inflight = [] ∧ (∀ fid, s'.mgr.resources fid = none) ∧
      (∀ o ∈ accepted (ledger s.log), o.serial < owed.serial →
        o ∈ settled (ledger s.log) ∨ o.isFlush ∧ .displaced o ∈ s.log) ∧
      (∀ t, Reaches (Session.step handler) s' t → ∃ newer, t.log = newer ++ s'.log ∧
        ∀ o resp b, .sent o resp b ∈ newer → owed.serial < o.serial)) ∧
    ((∀ owed v bytes, .sent owed (.rversion v) bytes ∉ s.log) →
      ∀ fut ∈ s.inflight, ∀ req, fut.hdl ≠ .dispatch req) := by
  have hacc := reaches_accounted h
  have hsound := reaches_sound h
  refine ⟨fun a s' owed v bytes hstep hlog => ?_, fun hnone => ?_⟩
  · obtain ⟨hpc, hempty, ⟨req, hnext⟩, htable, hempty', hopen, hserial⟩ :=
      rversion_cases hsound hstep hlog
    refine ⟨hempty', htable, fun o ho hlt => ?_, fun t ht => ?_⟩
    · have hall := hacc.balanced.conserved
      rw [← Multiset.mem_coe, hall] at ho
      obtain ho | ho := Multiset.mem_add.mp ho
      · obtain ho | ho := Multiset.mem_add.mp ho
        · exact .inl (Multiset.mem_coe.mp ho)
        · have hdisplaced := mem_dropped (Multiset.mem_coe.mp ho)
          exact .inr ⟨hsound.displaced o hdisplaced, hdisplaced⟩
      · obtain rfl : owed = o := by
          simpa [mem_unanswered, hempty, hpc, hnext, Pc.owed] using ho
        exact (Nat.lt_irrefl _ hlt).elim
    · have howed : owed ∈ s.unanswered := mem_unanswered.mpr (.inr (.inr ⟨req, hnext⟩))
      have hbase : AnswersAfter owed.serial s'.log s' := by
        refine ⟨?_, by simp [hopen], [], rfl, by simp⟩
        rw [hserial]
        exact hacc.fresh owed (hacc.balanced.mem_accepted_of_open howed)
      exact (ht.invariant hbase fun hi _ hst => answersAfter_step hi hst).log
  · have hgated : s.Gated := by
      refine h.invariant ⟨?_, ?_⟩ fun hs _ hst => gated_step hs hst
      · simp [Session.start]
      · simp [Session.start]
    cases hinit : s.initialized with
    | false => exact hgated.idle hinit
    | true =>
      obtain ⟨owed, v, bytes, hmem⟩ := hgated.opened hinit
      exact (hnone owed v bytes hmem).elim

def earlyLog : List Event :=
  [.sent ⟨1, notag, .version ⟨4096, "9P2000"⟩⟩ (.rversion ⟨1192, "9P2000"⟩)
      [101, 255, 255, 168, 4, 0, 0, 6, 0, 57, 80, 50, 48, 48, 48],
    .received 1 [100, 255, 255, 0, 16, 0, 0, 6, 0, 57, 80, 50, 48, 48, 48] false,
    .received 0 [120, 7, 0, 1, 0, 0, 0] false]

def earlyRun : List Action :=
  [.top, .recv [120, 7, 0, 1, 0, 0, 0] 0, .top,
    .recv [100, 255, 255, 0, 16, 0, 0, 6, 0, 57, 80, 50, 48, 48, 48] 0]

theorem session_reset_early : ∃ s' : Session Unit Empty Empty,
    s'.log = earlyLog ∧ s'.inflight = [] ∧ ∀ fid, s'.mgr.resources fid = none := by
  have hrun : (exec (Session.step Serve.nothing) (.start ()) earlyRun).map
      (fun s => (s.log, (s.step Serve.nothing .top).map (·.log))) =
      some (earlyLog.tail, some earlyLog) := by
    decide
  obtain ⟨s, hs, hend⟩ := Option.map_eq_some_iff.mp hrun
  obtain ⟨hlog, htop⟩ := Prod.mk.inj hend
  obtain ⟨s', hstep, hlog'⟩ := Option.map_eq_some_iff.mp htop
  have hreset := session_reset Serve.nothing () s (reaches_of_exec hs)
  obtain ⟨hempty, htable, -⟩ := hreset.1 .top s' _ _ _ hstep (hlog'.trans (by rw [hlog]; rfl))
  exact ⟨s', hlog', hempty, htable⟩

theorem early_request_unanswered : ¬∀ s : Session Unit Empty Empty,
    Reaches (Session.step Serve.nothing) (.start ()) s →
    ∀ owed v bytes older, s.log = .sent owed (.rversion v) bytes :: older →
    ∀ serial incoming initialized tag req, .received serial incoming initialized ∈ older →
      serial < owed.serial → deserializeT incoming = .ok (tag, req) →
      ∃ o resp b, .sent o resp b ∈ older ∧ o.serial = serial ∧ o.tag = tag := by
  intro hall
  have hrun : (exec (Session.step Serve.nothing) (.start ()) (earlyRun ++ [.top])).map (·.log) =
      some earlyLog := by
    decide
  obtain ⟨s, hs, hlog⟩ := Option.map_eq_some_iff.mp hrun
  obtain ⟨o, resp, b, hmem, -⟩ := hall s (reaches_of_exec hs) _ _ _ _ hlog 0
    [120, 7, 0, 1, 0, 0, 0] false 7 (.tclunk ⟨1⟩) (by decide) (by decide) (by decide)
  simp at hmem

end NineWire.Server
