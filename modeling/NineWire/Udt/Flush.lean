import NineWire.Udt.Wakeup

/-! What a `flush` that has ended says about the messages accepted before. Its
two looks at the send buffer cannot tell an empty one from a closed socket. -/
namespace NineWire.Udt
open NineWire.Notify NineWire.Table NineWire.Transition

def Socket.Delivered (u : Socket) : Prop := ∀ m < u.accepted, m ∉ u.blocks

/-- What the end of a `flush` is to say: that everything is delivered if it
returns `Ok(())`, and an error if the connection was lost before that. -/
structure Ended.Honest (e : Ended) : Prop where
  delivered : e.outcome = .flushed → e.socket.Delivered
  lost : e.socket.broken → ¬e.socket.Delivered → ∃ err, e.outcome = .failed err

def Connection.Honest (s : Connection) : Prop := ∀ e ∈ s.log, e.op = .flush → e.Honest

/-- With messages not acknowledged, a `flush` looks at the send buffer only
while the socket is found, and makes its waiter only while the entry is there. -/
def Sees (s : Connection) (a : Action) : Prop :=
  ∀ (i : Nat) (task : Task), a = .run i → s.tasks[i]? = some task → task.op = .flush →
    ¬s.socket.Delivered →
    match task.stage with
    | .trying | .retrying _ => s.socket.found
    | .registering => s.rpoll.entry.isSome
    | _ => True

structure Fails (s : Connection) : Prop where
  closed : s.socket.status ≠ .opened → s.socket.broken
  gone : s.rpoll.entry = none → s.socket.broken

section Run
variable {cfg : Config} {s s' : Connection} {a : Action} {i : Nat} {task : Task}

theorem updateEvents_isSome (p : RPoll) (events : Events) (value : Bool) :
    (p.updateEvents events value).entry.isSome := by
  have hentry : p.orDefault.2.entry.isSome := by
    unfold RPoll.orDefault
    split
    · rename_i ent hent
      rw [hent]
      rfl
    · rfl
  unfold RPoll.updateEvents
  cases value <;> exact hentry

theorem fails_step (h : Fails s) (hstep : s.step cfg a = some s') : Fails s' := by
  have htold {p : RPoll} {events : Events} (hnone : (p.updateEvents events true).entry = none) :
      False := by
    have hsome := updateEvents_isSome p events true
    rw [hnone] at hsome
    cases hsome
  cases step_cases hstep with
  | ends htask htries hattempt =>
    obtain ⟨hstatus, hbroken, -, -⟩ := attempt_taken hattempt
    exact ⟨fun hne => hbroken.trans (h.closed fun heq => hne (hstatus.trans heq)),
      fun hnone => hbroken.trans (h.gone hnone)⟩
  | breaks hopen => exact ⟨fun _ => rfl, fun _ => rfl⟩
  | updateEvents hevents => exact ⟨h.closed, fun hnone => (htold hnone).elim⟩
  | close hbroken => exact ⟨fun _ => hbroken, fun _ => hbroken⟩
  | remove hclosed =>
    exact ⟨fun _ => h.closed (by simp [hclosed]), fun hnone => (htold hnone).elim⟩
  | removeUsock hremoving =>
    have hbroken := h.closed (by simp [hremoving])
    exact ⟨fun _ => hbroken, fun _ => hbroken⟩
  | _ => exact ⟨h.closed, h.gone⟩

theorem fails_start : Fails .start := by
  refine ⟨fun hne => (hne rfl).elim, fun hnone => ?_⟩
  have hsome : Connection.start.rpoll.entry.isSome := rfl
  rw [hnone] at hsome
  cases hsome

theorem fails_run (h : Reaches (Connection.step cfg) .start s) : Fails s :=
  h.invariant fails_start fun hs _ hstep => fails_step hs hstep

/-- A look that sees nothing: the buffer is empty, or the socket is not found. -/
theorem sendData_eq_zero {u : Socket} (h : u.sendData = 0) (hfound : u.found) : u.blocks = [] := by
  simpa [Socket.sendData, Socket.getsockopt, hfound] using h

theorem found_of_sendData {u : Socket} (h : u.sendData ≠ 0) : u.found := by
  by_contra hfound
  simp [Socket.sendData, Socket.getsockopt, hfound] at h

theorem delivered_of_empty {u : Socket} (h : u.blocks = []) : u.Delivered := by
  intro m _ hmem
  rw [h] at hmem
  cases hmem

theorem flush_attempt_some {u u' : Socket} {outcome : Outcome}
    (h : Op.attempt cfg u .flush = some (outcome, u')) :
    u.sendData = 0 ∧ outcome = .flushed ∧ u' = u := by
  rw [Op.attempt] at h
  split at h
  · rename_i hzero
    obtain ⟨rfl, rfl⟩ := Prod.mk.inj (Option.some.inj h)
    exact ⟨hzero, rfl, rfl⟩
  · cases h

theorem flush_attempt_none {u : Socket} (h : Op.attempt cfg u .flush = none) : u.sendData ≠ 0 := by
  intro hzero
  rw [Op.attempt, if_pos hzero] at h
  cases h

theorem honest_cons (h : s.Honest) {e : Ended} (hlog : s'.log = e :: s.log) :
    s'.Honest ↔ (e.op = .flush → e.Honest) := by
  unfold Connection.Honest
  rw [hlog]
  refine ⟨fun hall => hall e List.mem_cons_self, fun hnew e' hmem => ?_⟩
  obtain rfl | hmem := List.mem_cons.mp hmem
  · exact hnew
  · exact h e' hmem

theorem sees_run (htask : s.tasks[i]? = some task) : Sees s (.run i) ↔
    (task.op = .flush → ¬s.socket.Delivered →
      match task.stage with
      | .trying | .retrying _ => s.socket.found
      | .registering => s.rpoll.entry.isSome
      | _ => True) := by
  constructor
  · exact fun h => h i task rfl htask
  · intro h j other heq hother
    obtain rfl := Action.run.inj heq
    obtain rfl := Option.some.inj (htask.symm.trans hother)
    exact h

theorem sees_look {next : Stage} (htask : s.tasks[i]? = some task)
    (htries : Tries task.stage next) :
    Sees s (.run i) ↔ (task.op = .flush → ¬s.socket.Delivered → s.socket.found) := by
  rw [sees_run htask]
  generalize task.stage = stage at htries
  cases htries <;> exact Iff.rfl

theorem sees_of_no_run (h : ∀ i, a ≠ .run i) : Sees s a :=
  fun i _ heq => (h i heq).elim

theorem sees_of_open (hfound : s.socket.found) (hentry : s.rpoll.entry.isSome) : Sees s a := by
  intro i task _ _ _ _
  split
  · exact hfound
  · exact hfound
  · exact hentry
  · trivial

/-- Of the steps that lead on in a run, those that keep the ends of `flush`
honest are those that see. -/
theorem honest_step_iff (hfails : Fails s) (h : s.Honest) (hstep : s.step cfg a = some s') :
    s'.Honest ↔ Sees s a := by
  cases step_cases hstep with
  | @ends i task next outcome socket htask htries hattempt =>
    refine (honest_cons h (e := ⟨task.op, outcome, socket⟩) rfl).trans
      (.trans ?_ (sees_look htask htries).symm)
    refine imp_congr_right fun hflush : task.op = .flush => ?_
    rw [hflush] at hattempt
    obtain ⟨hzero, rfl, rfl⟩ := flush_attempt_some hattempt
    constructor
    · intro honest hnot
      exact (hnot (honest.delivered rfl)).elim
    · intro hsees
      have hdelivered : s.socket.Delivered := by
        by_contra hnot
        exact hnot (delivered_of_empty (sendData_eq_zero hzero (hsees hnot)))
      exact ⟨fun _ => hdelivered, fun _ hnot => (hnot hdelivered).elim⟩
  | @panics i task htask hstage hw =>
    have hnone : s.rpoll.entry = none := by simpa [RPoll.waiter] using hw
    refine (honest_cons h (e := ⟨task.op, .panicked, s.socket⟩) rfl).trans
      (.trans ?_ (sees_run htask).symm)
    rw [hstage]
    refine imp_congr_right fun _ => ?_
    constructor
    · intro honest hnot
      obtain ⟨err, herr⟩ := honest.lost (hfails.gone hnone) hnot
      cases herr
    · intro hsees
      refine ⟨by simp, fun _ hnot => ?_⟩
      have hsome := hsees hnot
      rw [hnone] at hsome
      cases hsome
  | blocks htask htries hattempt =>
    refine iff_of_true h ((sees_look htask htries).mpr fun hflush _ => ?_)
    rw [hflush] at hattempt
    exact found_of_sendData (flush_attempt_none hattempt)
  | registers htask hstage hw =>
    refine iff_of_true h ((sees_run htask).mpr fun _ _ => ?_)
    rw [hstage]
    obtain ⟨ent, hent, -⟩ := waiter_some hw
    simp [hent]
  | wakes htask hstage hw =>
    refine iff_of_true h ((sees_run htask).mpr fun _ _ => ?_)
    rw [hstage]
    trivial
  | _ => exact iff_of_true h (sees_of_no_run (by simp))

theorem honest_run (h : Steps (Connection.step cfg) Sees .start s) : s.Honest := by
  have hstart : Fails .start ∧ Connection.Honest .start :=
    ⟨fails_start, fun e hmem => by cases hmem⟩
  have hboth := h.invariant (I := fun s => Fails s ∧ s.Honest) hstart fun hs hsees hstep =>
    ⟨fails_step hs.1 hstep, (honest_step_iff hs.1 hs.2 hstep).mpr hsees⟩
  exact hboth.2

/-- A `flush` does not end with an error. -/
theorem flush_not_failed (h : Reaches (Connection.step cfg) .start s) :
    ∀ e ∈ s.log, e.op = .flush → ∀ err, e.outcome ≠ .failed err := by
  refine h.invariant (I := fun s => ∀ e ∈ s.log, e.op = .flush → ∀ err, e.outcome ≠ .failed err)
    (fun e hmem => by cases hmem) fun hs _ hstep => ?_
  cases step_cases hstep with
  | @ends i task next outcome socket htask htries hattempt =>
    intro e hmem hflush err
    obtain rfl | hmem := List.mem_cons.mp hmem
    · have hop : task.op = .flush := hflush
      rw [hop] at hattempt
      obtain ⟨-, rfl, -⟩ := flush_attempt_some hattempt
      simp
    · exact hs e hmem hflush err
  | panics htask hstage hw =>
    intro e hmem hflush err
    obtain rfl | hmem := List.mem_cons.mp hmem
    · simp
    · exact hs e hmem hflush err
  | _ => exact hs

end Run

/-- In a run whose steps all see, every `flush` that has ended was honest; at
every state reached where they all were, the next step keeps that exactly if it
sees. And no `flush` ever ends with an error. -/
theorem flush_delivers_iff (cfg : Config) :
    (∀ s, Steps (Connection.step cfg) Sees .start s → s.Honest) ∧
    (∀ s, Reaches (Connection.step cfg) .start s → s.Honest → ∀ a s', s.step cfg a = some s' →
      (s'.Honest ↔ Sees s a)) ∧
    ∀ s, Reaches (Connection.step cfg) .start s → ∀ e ∈ s.log, e.op = .flush →
      ∀ err, e.outcome ≠ .failed err :=
  ⟨fun _ => honest_run, fun _ hreach h _ _ hstep => honest_step_iff (fails_run hreach) h hstep,
    fun _ => flush_not_failed⟩

def acknowledged : List Action :=
  [.call (.sendWith 5), .run 0, .acknowledge 1, .call .flush, .run 1]

theorem flush_delivers_iff_acknowledged : ∃ s,
    Steps (Connection.step ⟨8192, 1456⟩) Sees .start s ∧
      s.log.map Ended.outcome = [.flushed, .sent 5] ∧ s.Honest := by
  let opened (s : Connection) (_ : Action) : Bool := s.socket.found && s.rpoll.entry.isSome
  obtain ⟨s, hs, hlog⟩ : ∃ s,
      exec (guarded (Connection.step ⟨8192, 1456⟩) opened) .start acknowledged = some s ∧
        s.log.map Ended.outcome = [.flushed, .sent 5] := ⟨_, rfl, rfl⟩
  have hrun : Steps (Connection.step ⟨8192, 1456⟩) Sees .start s := by
    refine (steps_of_exec hs).mono fun s a hopened => ?_
    obtain ⟨hfound, hentry⟩ := Bool.and_eq_true_iff.mp hopened
    exact sees_of_open hfound hentry
  exact ⟨s, hrun, hlog, (flush_delivers_iff ⟨8192, 1456⟩).1 s hrun⟩

def lost : List Action :=
  [.call (.sendWith 5), .run 0, .call .flush, .run 1, .run 1, .run 1, .breaks true,
    .updateEvents 0, .close, .run 1, .run 1]

theorem flush_delivers_counterexample : ¬∀ cfg s, Reaches (Connection.step cfg) .start s →
    s.Honest := by
  intro h
  obtain ⟨s, hs, e, hmem, hop, houtcome, hlost⟩ :
      ∃ s, exec (Connection.step ⟨8192, 1456⟩) .start lost = some s ∧ ∃ e ∈ s.log,
        e.op = .flush ∧ e.outcome = .flushed ∧ 0 < e.socket.accepted ∧ 0 ∈ e.socket.blocks :=
    ⟨_, rfl, _, List.mem_cons_self, rfl, rfl, by decide, by decide⟩
  exact (h _ s (reaches_of_exec hs) e hmem hop).delivered houtcome 0 hlost.1 hlost.2

end NineWire.Udt
