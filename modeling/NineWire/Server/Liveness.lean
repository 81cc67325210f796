import NineWire.Server.Replies

/-! The loop of `handle_client` together with the guards of `resources` that its
futures keep across their awaits. At its select the loop can always go on, and
the lock is free when a new session asks for it. -/
namespace NineWire.Server
open NineWire.Wire NineWire.Transition

inductive Guard where
  | read
  | write
  deriving DecidableEq

/-- The guard that `dispatch` has until it returns; none where it returns before
it asks for one. -/
def guardOf : TMessage → Option Guard
  | .tauth m => if m.afid = nofid then none else some .write
  | .tattach m => if m.fid = nofid then none else some .write
  | .twalk m => if m.newfid = nofid then none else some .write
  | .topen _ | .tcreate _ | .tclunk _ | .tremove _ => some .write
  | .tread _ | .twrite _ | .tstat _ | .twstat _ => some .read
  | .tversion _ | .tflush _ | .treads _ => none

def Hdl.guard : Hdl → Option Guard
  | .ready _ => none
  | .dispatch req => guardOf req

def grants (guards : List (Owed × Guard)) : Guard → Bool
  | .read => guards.all fun held => held.2 = .read
  | .write => guards.isEmpty

section Liveness
variable {W P O : Type}

structure Locked (W P O : Type) where
  session : Session W P O
  guards : List (Owed × Guard)

def Locked.start (world : W) : Locked W P O := ⟨.start world, []⟩

inductive LockedAction where
  | loop (a : Action)
  /-- The future at `i` is polled, gets its guard and waits on. -/
  | lock (i : Nat)

def Session.starts (s : Session W P O) : Bool :=
  match s.pc with
  | .top => s.inflight.isEmpty && s.nextSession.isSome
  | _ => false

def Locked.lock (s : Locked W P O) (i : Nat) : Option (Locked W P O) := do
  let fut ← s.session.inflight[i]?
  let guard ← fut.hdl.guard
  if s.guards.all (fun held => held.1 ≠ fut.tag) && grants s.guards guard then
    return { s with guards := (fut.tag, guard) :: s.guards }
  else none

/-- Nothing that the step awaits is kept from it by a guard: neither
`resources.write().await` at the loop head nor what a dispatch asks for. -/
def Locked.free (s : Locked W P O) : Action → Bool
  | .top => !s.session.starts || grants s.guards .write
  | .complete i =>
    match s.session.inflight[i]? with
    | some fut =>
      fut.hdl.guard.all fun guard => grants (s.guards.filter fun held => held.1 ≠ fut.tag) guard
    | none => true
  | _ => true

def Locked.step (handler : Serve W P O) (s : Locked W P O) : LockedAction → Option (Locked W P O)
  | .loop a =>
    if s.free a then
      (s.session.step handler a).map fun session =>
        { session
          guards := s.guards.filter fun held => session.inflight.any fun fut => fut.tag = held.1 }
    else none
  | .lock i =>
    match s.session.pc with
    | .select | .poll => s.lock i
    | _ => none

variable {handler : Serve W P O} {s s' : Session W P O} {a : Action}

theorem bounded_step (h : s.inflight.length ≤ maxInFlight) (hstep : s.step handler a = some s') :
    s'.inflight.length ≤ maxInFlight := by
  cases step_cases hstep with
  | push hpc hrecv howes hcause hflush => exact hrecv.1
  | park hpc hrecv howes hcause hfut htag => rwa [List.length_set]
  | complete hpc hfut hresp =>
    exact Nat.le_trans (List.length_eraseIdx_le _ _) h
  | _ => exact h

theorem reaches_bounded {world : W} (h : Reaches (Session.step handler) (.start world) s) :
    s.inflight.length ≤ maxInFlight :=
  h.invariant (I := fun s => s.inflight.length ≤ maxInFlight) (Nat.zero_le _)
    fun hs _ hstep => bounded_step hs hstep

/-- What is true of the loop wherever it stands. At the select, receiving is
enabled or a future is there to wait for, so that the `else` is not taken. -/
structure Session.Attends (handler : Serve W P O) (s : Session W P O) : Prop where
  bounded : s.inflight.length ≤ maxInFlight
  attends : s.pc = .select →
    (s.inflight.length < maxInFlight ∧ s.nextSession.isNone) ∨ s.inflight ≠ []
  pending : s.pc = .select → s.nextSession.isSome → s.inflight ≠ []
  goesOn : s.step handler .else_ = none
  running : s.pc ≠ .done

theorem attends_of_looping (hbounded : s.inflight.length ≤ maxInFlight) (h : s.Looping) :
    s.Attends handler := by
  refine ⟨hbounded, fun hpc => ?_, fun hpc hnext hempty => ?_, ?_, h.running⟩
  · by_cases hempty : s.inflight = []
    · exact .inl ⟨by rw [hempty]; decide, by rw [h.idle hpc hempty]; rfl⟩
    · exact .inr hempty
  · rw [h.idle hpc hempty] at hnext
    cases hnext
  · cases helse : s.step handler .else_ with
    | none => rfl
    | some s' =>
      cases step_cases helse with
      | else_ hpc hempty hnext => exact (hnext (h.idle hpc hempty)).elim

theorem reaches_attends {world : W} (h : Reaches (Session.step handler) (.start world) s) :
    s.Attends handler :=
  attends_of_looping (reaches_bounded h) (reaches_looping h)

def Locked.Held (s : Locked W P O) : Prop :=
  ∀ held ∈ s.guards, ∃ fut ∈ s.session.inflight, fut.tag = held.1

section Locked
variable {s s' : Locked W P O} {a : LockedAction}

theorem Locked.lock_cases {i : Nat} (h : s.lock i = some s') :
    ∃ fut guard, s.session.inflight[i]? = some fut ∧ fut.hdl.guard = some guard ∧
      grants s.guards guard ∧ s' = { s with guards := (fut.tag, guard) :: s.guards } := by
  obtain ⟨fut, hfut, h⟩ := Option.bind_eq_some_iff.mp h
  obtain ⟨guard, hguard, h⟩ := Option.bind_eq_some_iff.mp h
  split at h
  · rename_i hgrants
    obtain ⟨-, hgrants⟩ := Bool.and_eq_true_iff.mp hgrants
    exact ⟨fut, guard, hfut, hguard, hgrants, (Option.some.inj h).symm⟩
  · cases h

theorem Locked.step_cases (h : s.step handler a = some s') :
    (∃ b, a = .loop b ∧ s.session.step handler b = some s'.session ∧
      ∀ held ∈ s'.guards, ∃ fut ∈ s'.session.inflight, fut.tag = held.1) ∨
    ∃ fut guard, fut ∈ s.session.inflight ∧
      s' = { s with guards := (fut.tag, guard) :: s.guards } := by
  cases a with
  | loop b =>
    simp only [Locked.step] at h
    split at h
    · obtain ⟨session, hsession, rfl⟩ := Option.map_eq_some_iff.mp h
      refine .inl ⟨b, rfl, hsession, fun held hmem => ?_⟩
      obtain ⟨-, hany⟩ := List.mem_filter.mp hmem
      simpa using hany
    · cases h
  | lock i =>
    have hlock : s.lock i = some s' := by
      simp only [Locked.step] at h
      split at h
      · exact h
      · exact h
      · cases h
    obtain ⟨fut, guard, hfut, -, -, rfl⟩ := Locked.lock_cases hlock
    exact .inr ⟨fut, guard, List.mem_of_getElem? hfut, rfl⟩

theorem held_step (h : s.Held) (hstep : s.step handler a = some s') : s'.Held := by
  obtain ⟨b, -, -, hheld⟩ | ⟨fut, guard, hfut, rfl⟩ := Locked.step_cases hstep
  · exact hheld
  · intro held hmem
    obtain rfl | hmem := List.mem_cons.mp hmem
    · exact ⟨fut, hfut, rfl⟩
    · exact h held hmem

/-- Taking guards adds nothing to what the loop can do. -/
theorem reaches_session {world : W} (h : Reaches (Locked.step handler) (.start world) s) :
    Reaches (Session.step handler) (.start world) s.session ∧ s.Held := by
  have hstart : (Locked.start world : Locked W P O).Held := by
    intro held hmem
    cases hmem
  refine h.invariant (I := fun s =>
    Reaches (Session.step handler) (.start world) s.session ∧ s.Held) ⟨.refl, hstart⟩ ?_
  intro s a s' hs _ hstep
  refine ⟨?_, held_step hs.2 hstep⟩
  obtain ⟨b, -, hsession, -⟩ | ⟨fut, guard, -, rfl⟩ := Locked.step_cases hstep
  · exact .tail b hs.1 trivial hsession
  · exact hs.1

theorem Locked.Held.unlocked (h : s.Held) (hstarts : s.session.starts) : s.guards = [] := by
  unfold Session.starts at hstarts
  split at hstarts
  · obtain ⟨hempty, -⟩ := Bool.and_eq_true_iff.mp hstarts
    refine List.eq_nil_iff_forall_not_mem.mpr fun held hmem => ?_
    obtain ⟨fut, hfut, -⟩ := h held hmem
    rw [List.isEmpty_iff.mp hempty] at hfut
    cases hfut
  · cases hstarts

end Locked

/-- In every state of the loop at most `MAX_IN_FLIGHT` futures are in flight; at
its select receiving is enabled or a future is in flight, one that is when a
Tversion is pending, and the `else` is not taken. This holds too with the guards
that the futures have meanwhile, and where a new session starts there is none:
the write lock is granted at once. -/
theorem loop_attends (handler : Serve W P O) (world : W) :
    (∀ s, Reaches (Session.step handler) (.start world) s → s.Attends handler) ∧
    ∀ s, Reaches (Locked.step handler) (.start world) s →
      s.session.Attends handler ∧ s.free .top ∧ (s.session.starts → s.guards = []) := by
  refine ⟨fun s hreach => reaches_attends hreach, fun s hreach => ?_⟩
  obtain ⟨hsession, hheld⟩ := reaches_session hreach
  refine ⟨reaches_attends hsession, ?_, hheld.unlocked⟩
  cases hstarts : s.session.starts with
  | false => simp [Locked.free, hstarts]
  | true =>
    rw [Locked.free, hheld.unlocked hstarts]
    exact Bool.or_true _

theorem loop_attends_pending : ∃ s : Locked Unit Empty Empty,
    s.session.nextSession.isSome ∧ s.guards.length = 1 ∧ s.session.inflight ≠ [] := by
  let version : Bytes := [100, 255, 255, 0, 16, 0, 0, 6, 0, 57, 80, 50, 48, 48, 48]
  have hrun : (exec (Locked.step Serve.nothing) (.start ())
      [.loop .top, .loop (.recv version 0), .loop .top, .loop (.recv [120, 7, 0, 1, 0, 0, 0] 0),
        .loop .top, .lock 0, .loop (.recv version 0), .loop .top]).map
      (fun s => (s.session.nextSession.isSome, s.guards.length, s.session.pc.work)) =
        some (true, 1, Pc.select.work) := by
    decide
  obtain ⟨s, hs, hend⟩ := Option.map_eq_some_iff.mp hrun
  obtain ⟨hnext, hend⟩ := Prod.mk.inj hend
  obtain ⟨hguards, hwork⟩ := Prod.mk.inj hend
  have hpc : s.session.pc = .select := by
    cases hpc : s.session.pc with
    | select => rfl
    | _ =>
      rw [hpc] at hwork
      cases hwork
  obtain ⟨hattends, -⟩ := (loop_attends Serve.nothing ()).2 s (reaches_of_exec hs)
  exact ⟨s, hnext, hguards, hattends.pending hpc hnext⟩

end Liveness

end NineWire.Server
