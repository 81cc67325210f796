import NineWire.Server.Session

/-! Every way `handle_client` can take a step, said once: what each branch
required, what it did to the in-flight set and what it logged. -/
namespace NineWire.Server
open NineWire.Wire

def owes (serial : Nat) (incoming : Bytes) (initialized : Bool) : Option Owed :=
  match deserializeT incoming with
  | .ok (tag, .tversion req) =>
    some ⟨serial, tag, if tag = notag then .version req else .badVersion⟩
  | .ok (tag, .tflush ⟨oldtag⟩) => if initialized then some ⟨serial, tag, .flush oldtag⟩ else none
  | .ok (tag, req) => if initialized then some ⟨serial, tag, .request req⟩ else none
  | .error e => if initialized then e.tag.map fun tag => ⟨serial, tag, .undecodable e⟩ else none

inductive Owes (serial : Nat) (incoming : Bytes) (initialized : Bool) : Owed → Prop
  | version {req} (hdes : deserializeT incoming = .ok (notag, .tversion req)) :
      Owes serial incoming initialized ⟨serial, notag, .version req⟩
  | badVersion {tag req} (hdes : deserializeT incoming = .ok (tag, .tversion req))
      (htag : tag ≠ notag) : Owes serial incoming initialized ⟨serial, tag, .badVersion⟩
  | flush {tag oldtag} (hinit : initialized = true)
      (hdes : deserializeT incoming = .ok (tag, .tflush ⟨oldtag⟩)) :
      Owes serial incoming initialized ⟨serial, tag, .flush oldtag⟩
  | request {tag req} (hinit : initialized = true) (hdes : deserializeT incoming = .ok (tag, req))
      (hversion : ∀ m, req ≠ .tversion m) (hflush : ∀ m, req ≠ .tflush m) :
      Owes serial incoming initialized ⟨serial, tag, .request req⟩
  | undecodable {e tag} (hinit : initialized = true) (hdes : deserializeT incoming = .error e)
      (htag : e.tag = some tag) : Owes serial incoming initialized ⟨serial, tag, .undecodable e⟩

theorem owes_cases {serial : Nat} {incoming : Bytes} {initialized : Bool} {owed : Owed}
    (h : owes serial incoming initialized = some owed) : Owes serial incoming initialized owed := by
  unfold owes at h
  split at h
  · rename_i tag req hdes
    cases h
    by_cases htag : tag = notag
    · subst htag
      exact .version hdes
    · rw [if_neg htag]
      exact .badVersion hdes htag
  · rename_i tag oldtag hdes
    split at h <;> cases h
    rename_i hinit
    exact .flush hinit hdes
  · rename_i tag req hversion hflush hdes
    split at h <;> cases h
    rename_i hinit
    exact .request hinit hdes hversion fun m => hflush m.oldtag
  · rename_i e hdes
    split at h
    · rename_i hinit
      obtain ⟨tag, htag, rfl⟩ := Option.map_eq_some_iff.mp h
      exact .undecodable hinit hdes htag
    · cases h

def Cause.hdl : Cause → Hdl
  | .version req => .ready (versionReply req)
  | .badVersion => .ready (.rerror ⟨"Tversion: invalid tag"⟩)
  | .flush _ => .ready (.rflush {})
  | .request req => .dispatch req
  | .undecodable e => .ready (.rerror ⟨e.toString⟩)

section StepCases
variable {W P O : Type} (handler : Serve W P O)

inductive Completes (mgr : ResourceManager W P O) :
    Hdl → RMessage → ResourceManager W P O → Prop
  | ready {resp} : Completes mgr (.ready resp) resp mgr
  | served {req resp mgr'} (hrun : (dispatch handler maxMessageSize req).run mgr = .ok resp mgr') :
      Completes mgr (.dispatch req) resp mgr'
  | failed {req text mgr'}
      (hrun : (dispatch handler maxMessageSize req).run mgr = .error (.err text) mgr') :
      Completes mgr (.dispatch req) (.rerror ⟨text⟩) mgr'

def afterReply : Option Owed → Pc
  | none => .poll
  | some flush => .flush flush

inductive Stepped (s : Session W P O) : Action → Session W P O → Prop
  | reset {owed req bytes} (hpc : s.pc = .top) (hempty : s.inflight = [])
      (hnext : s.nextSession = some (owed, req))
      (hbytes : serialized (versionReply req) owed.tag = some bytes) :
      Stepped s .top
        { s with
          mgr := { s.mgr with resources := fun _ => none }
          nextSession := none
          initialized := s.initialized || !(req.msize.toNat < 256)
          pc := .select
          log := .sent owed (versionReply req) bytes :: s.log }
  | wait (hpc : s.pc = .top) (hnext : s.inflight = [] → s.nextSession = none) :
      Stepped s .top { s with pc := .select }
  | thrownOut {incoming pick} (hpc : s.pc = .select) (hrecv : s.Receives incoming)
      (howes : owes s.serial incoming s.initialized = none) :
      Stepped s (.recv incoming pick) (s.received incoming)
  | version {incoming pick owed req} (hpc : s.pc = .select) (hrecv : s.Receives incoming)
      (howes : owes s.serial incoming s.initialized = some owed)
      (hcause : owed.cause = .version req) :
      Stepped s (.recv incoming pick)
        { s.received incoming with nextSession := some (owed, req) }
  | push {incoming pick owed} (hpc : s.pc = .select) (hrecv : s.Receives incoming)
      (howes : owes s.serial incoming s.initialized = some owed)
      (hcause : ∀ req, owed.cause ≠ .version req)
      (hflush : ∀ oldtag, owed.cause = .flush oldtag → ∀ fut ∈ s.inflight, fut.tag.tag ≠ oldtag) :
      Stepped s (.recv incoming pick) ((s.received incoming).push owed owed.cause.hdl)
  | park {incoming pick owed oldtag fut} (hpc : s.pc = .select) (hrecv : s.Receives incoming)
      (howes : owes s.serial incoming s.initialized = some owed)
      (hcause : owed.cause = .flush oldtag) (hfut : s.inflight[pick]? = some fut)
      (htag : fut.tag.tag = oldtag) :
      Stepped s (.recv incoming pick)
        { s.received incoming with
          inflight := s.inflight.set pick { fut with flushes := some owed }
          log := fut.flushes.toList.map .displaced ++
            .received s.serial incoming s.initialized :: s.log }
  | complete {i fut resp mgr} (hpc : s.pc = .select ∨ s.pc = .poll)
      (hfut : s.inflight[i]? = some fut) (hresp : Completes handler s.mgr fut.hdl resp mgr) :
      Stepped s (.complete i)
        { s with
          mgr
          inflight := s.inflight.eraseIdx i
          pc := .reply fut.tag fut.flushes resp }
  | reply {owed flushes resp bytes} (hpc : s.pc = .reply owed flushes resp)
      (hbytes : serialized resp owed.tag = some bytes) :
      Stepped s .send
        { s with pc := afterReply flushes, log := .sent owed resp bytes :: s.log }
  | flush {owed bytes} (hpc : s.pc = .flush owed)
      (hbytes : serialized (.rflush {}) owed.tag = some bytes) :
      Stepped s .send { s with pc := .poll, log := .sent owed (.rflush {}) bytes :: s.log }
  | pending (hpc : s.pc = .poll) : Stepped s .pending { s with pc := .top }
  | else_ (hpc : s.pc = .select) (hempty : s.inflight = []) (hnext : s.nextSession ≠ none) :
      Stepped s .else_ { s with pc := .done }

variable {handler} {s s' : Session W P O} {a : Action}

theorem send_some {owed : Owed} {resp : RMessage} {pc : Pc} (h : s.send owed resp pc = some s') :
    ∃ bytes, serialized resp owed.tag = some bytes ∧
      s' = { s with pc, log := .sent owed resp bytes :: s.log } := by
  obtain ⟨bytes, hbytes, h⟩ := Option.map_eq_some_iff.mp h
  exact ⟨bytes, hbytes, h.symm⟩

theorem top_cases (hpc : s.pc = .top) (h : s.top = some s') : Stepped handler s .top s' := by
  unfold Session.top at h
  split at h
  · rename_i owed req hempty hnext
    obtain ⟨bytes, hbytes, rfl⟩ := send_some h
    exact .reset hpc hempty hnext hbytes
  · rename_i hother
    cases h
    refine .wait hpc fun hempty => ?_
    cases hnext : s.nextSession with
    | none => rfl
    | some next => exact (hother next.1 next.2 hempty hnext).elim

theorem flush_cases {incoming : Bytes} {pick : Nat} {owed : Owed} {oldtag : UInt16}
    (hpc : s.pc = .select) (hrecv : s.Receives incoming)
    (howes : owes s.serial incoming s.initialized = some owed) (hcause : owed.cause = .flush oldtag)
    (h : (s.received incoming).flush owed oldtag pick = some s') :
    Stepped handler s (.recv incoming pick) s' := by
  unfold Session.flush at h
  by_cases hany : (s.received incoming).inflight.any fun fut => fut.tag.tag = oldtag
  · rw [if_pos hany] at h
    split at h
    · rename_i fut hfut
      by_cases htag : fut.tag.tag = oldtag
      · rw [if_pos htag] at h
        cases h
        exact .park hpc hrecv howes hcause hfut htag
      · rw [if_neg htag] at h
        cases h
    · cases h
  · rw [if_neg hany] at h
    cases h
    have hpush : Stepped handler s (.recv incoming pick)
        ((s.received incoming).push owed owed.cause.hdl) := by
      refine .push hpc hrecv howes (by simp [hcause]) ?_
      intro old hold fut hfut heq
      rw [hcause] at hold
      cases hold
      exact hany (List.any_eq_true.mpr ⟨fut, hfut, by simpa using heq⟩)
    rwa [hcause] at hpush

/-- What comes before the first Tversion is owed nothing. -/
theorem owes_first {incoming : Bytes} {initialized : Bool} (serial : Nat)
    (h : (!initialized && !isTversion (deserializeT incoming)) = true) :
    owes serial incoming initialized = none := by
  obtain ⟨hinit, hversion⟩ := Bool.and_eq_true_iff.mp h
  obtain rfl : initialized = false := by simpa using hinit
  cases hdes : deserializeT incoming with
  | error e => simp [owes, hdes]
  | ok msg =>
    obtain ⟨tag, req⟩ := msg
    cases req with
    | tversion req =>
      rw [hdes] at hversion
      cases hversion
    | _ => simp [owes, hdes]

theorem recv_cases {incoming : Bytes} {pick : Nat} (hpc : s.pc = .select)
    (h : s.recv incoming pick = some s') : Stepped handler s (.recv incoming pick) s' := by
  unfold Session.recv at h
  by_cases hrecv : s.Receives incoming
  · rw [if_pos hrecv] at h
    by_cases hfirst : (!s.initialized && !isTversion (deserializeT incoming)) = true
    · simp only [if_pos hfirst] at h
      cases h
      exact .thrownOut hpc hrecv (owes_first s.serial hfirst)
    · simp only [if_neg hfirst] at h
      cases hdes : deserializeT incoming with
      | error e =>
        have hinit : s.initialized = true := by simpa [hdes, isTversion] using hfirst
        cases htag : e.tag with
        | none =>
          simp only [hdes, Session.accept, htag] at h
          cases h
          exact .thrownOut hpc hrecv (by simp [owes, hdes, htag])
        | some tag =>
          simp only [hdes, Session.accept, htag] at h
          cases h
          exact .push hpc hrecv (by simp [owes, hdes, hinit, htag]) (by simp) (by simp)
      | ok msg =>
        obtain ⟨tag, req⟩ := msg
        cases req with
        | tversion req =>
          simp only [hdes, Session.accept] at h
          by_cases htag : tag = notag
          · simp only [htag] at h
            cases h
            exact .version hpc hrecv (by simp [owes, hdes, htag]) rfl
          · simp only [htag] at h
            cases h
            exact .push hpc hrecv (by simp [owes, hdes, htag]) (by simp) (by simp)
        | tflush req =>
          have hinit : s.initialized = true := by simpa [hdes, isTversion] using hfirst
          simp only [hdes, Session.accept] at h
          exact flush_cases hpc hrecv (by simp [owes, hdes, hinit]) rfl h
        | _ =>
          have hinit : s.initialized = true := by simpa [hdes, isTversion] using hfirst
          simp only [hdes, Session.accept] at h
          cases h
          exact .push hpc hrecv (by simp [owes, hdes, hinit]) (by simp) (by simp)
  · rw [if_neg hrecv] at h
    cases h

theorem complete_cases {i : Nat} (hpc : s.pc = .select ∨ s.pc = .poll)
    (h : s.complete handler i = some s') : Stepped handler s (.complete i) s' := by
  unfold Session.complete at h
  split at h
  · cases h
  · rename_i tag flushes hdl hfut
    cases hdl with
    | ready resp =>
      cases h
      exact .complete hpc hfut .ready
    | dispatch req =>
      simp only at h
      split at h
      · rename_i resp mgr hrun
        cases h
        exact .complete hpc hfut (.served hrun)
      · rename_i text mgr hrun
        cases h
        exact .complete hpc hfut (.failed hrun)
      · cases h

theorem step_cases (h : s.step handler a = some s') : Stepped handler s a s' := by
  cases a with
  | top =>
    cases hpc : s.pc <;> simp only [Session.step, hpc] at h
    case top => exact top_cases hpc h
    all_goals cases h
  | recv incoming pick =>
    cases hpc : s.pc <;> simp only [Session.step, hpc] at h
    case select => exact recv_cases hpc h
    all_goals cases h
  | complete i =>
    cases hpc : s.pc <;> simp only [Session.step, hpc] at h
    case select => exact complete_cases (.inl hpc) h
    case poll => exact complete_cases (.inr hpc) h
    all_goals cases h
  | send =>
    cases hpc : s.pc <;> simp only [Session.step, hpc] at h
    case reply owed flushes resp =>
      cases flushes with
      | none =>
        obtain ⟨bytes, hbytes, rfl⟩ := send_some h
        exact .reply hpc hbytes
      | some flush =>
        obtain ⟨bytes, hbytes, rfl⟩ := send_some h
        exact .reply hpc hbytes
    case flush owed =>
      obtain ⟨bytes, hbytes, rfl⟩ := send_some h
      exact .flush hpc hbytes
    all_goals cases h
  | pending =>
    cases hpc : s.pc <;> simp only [Session.step, hpc] at h
    case poll =>
      cases h
      exact .pending hpc
    all_goals cases h
  | else_ =>
    cases hpc : s.pc <;> simp only [Session.step, hpc] at h
    case select =>
      by_cases hels : ¬(s.inflight.length < maxInFlight ∧ s.nextSession.isNone) ∧ s.inflight.isEmpty
      · rw [if_pos hels] at h
        cases h
        have hempty : s.inflight = [] := List.isEmpty_iff.mp hels.2
        refine .else_ hpc hempty fun hnext => hels.1 ?_
        simp [hempty, hnext, maxInFlight]
      · rw [if_neg hels] at h
        cases h
    all_goals cases h

end StepCases

end NineWire.Server
