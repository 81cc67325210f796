import NineWire.Udt.Connection

/-! No waiter of a connection is forgotten: where its call could go on, it has
been signalled, or the UDT layer still has an event to report. -/
namespace NineWire.Udt
open NineWire.Notify NineWire.Table NineWire.Transition

def Op.Ready (cfg : Config) (u : Socket) : Op → Prop
  | .recv _ => u.status = .opened ∧ u.messages ≠ []
  | .sendWith len => u.status = .opened ∧ u.broken = false ∧ len ≤ u.room cfg
  | .flush => u.status = .opened ∧ u.blocks = []

def Op.Due (pending : List Events) (op : Op) : Prop :=
  ∃ events ∈ pending, events.contains op.side

section Socket
variable {cfg : Config} {u u' : Socket} {op : Op}

theorem Op.Ready.opened (h : op.Ready cfg u) : u.status = .opened := by
  cases op <;> exact h.1

theorem found_iff : u.found ↔ u.status = .opened := by simp [Socket.found]

/-- A try that would block finds nothing to go on with. -/
theorem not_ready_of_blocked (h : op.attempt cfg u = none) : ¬op.Ready cfg u := by
  intro hready
  have hfound := found_iff.mpr hready.opened
  cases op with
  | recv len =>
    obtain ⟨-, hmessages⟩ := hready
    cases hlist : u.messages with
    | nil => exact hmessages hlist
    | cons message messages => by_cases hlen : len = 0 <;>
        simp [Op.attempt, Socket.recvmsg, hfound, hlen, hlist] at h
  | sendWith len =>
    obtain ⟨-, hbroken, hroom⟩ := hready
    by_cases hlen : len = 0
    · simp [Op.attempt, Socket.sendmsg, hfound, hbroken, hlen] at h
    · by_cases hlarge : cfg.sndBufSize * cfg.payloadSize < len
      · simp [Op.attempt, Socket.sendmsg, hfound, hbroken, hlen, hlarge, refuse,
          Errno.wouldBlock] at h
      · simp [Op.attempt, Socket.sendmsg, hfound, hbroken, hlen, hlarge, Nat.not_lt.mpr hroom] at h
  | flush =>
    obtain ⟨-, hblocks⟩ := hready
    simp [Op.attempt, Socket.sendData, Socket.getsockopt, hfound, hblocks] at h

structure Taken (u u' : Socket) : Prop where
  status : u'.status = u.status
  broken : u'.broken = u.broken
  messages : u'.messages ≠ [] → u.messages ≠ []
  blocks : u.blocks.length ≤ u'.blocks.length

theorem Taken.refl (u : Socket) : Taken u u := ⟨rfl, rfl, id, Nat.le_refl _⟩

theorem refuse_taken {e : Errno} {outcome : Outcome} (h : refuse u e = some (outcome, u')) :
    Taken u u' := by
  unfold refuse at h
  split at h
  · cases h
  · obtain ⟨-, rfl⟩ := Prod.mk.inj (Option.some.inj h)
    exact .refl u

theorem recvmsg_taken {len : Nat} {data : Wire.Bytes} (h : u.recvmsg len = .ok (data, u')) :
    Taken u u' := by
  unfold Socket.recvmsg at h
  split at h
  · split at h
    · obtain ⟨-, rfl⟩ := Prod.mk.inj (Except.ok.inj h)
      exact .refl u
    · split at h
      · rename_i message messages hlist
        obtain ⟨-, rfl⟩ := Prod.mk.inj (Except.ok.inj h)
        exact ⟨rfl, rfl, fun _ => by simp [hlist], Nat.le_refl _⟩
      · cases h
  · cases h

theorem sendmsg_taken {len : Nat} (h : u.sendmsg cfg len = .ok u') : Taken u u' := by
  unfold Socket.sendmsg at h
  split at h
  · split at h
    · cases h
    · split at h
      · obtain rfl := Except.ok.inj h
        exact .refl u
      · split at h
        · cases h
        · split at h
          · cases h
          · obtain rfl := Except.ok.inj h
            exact ⟨rfl, rfl, id, by simp⟩
  · cases h

theorem attempt_taken {outcome : Outcome} (h : op.attempt cfg u = some (outcome, u')) :
    Taken u u' := by
  unfold Op.attempt at h
  split at h
  · split at h
    · rename_i hrecv
      obtain ⟨-, rfl⟩ := Prod.mk.inj (Option.some.inj h)
      exact recvmsg_taken hrecv
    · exact refuse_taken h
  · split at h
    · rename_i hsend
      obtain ⟨-, rfl⟩ := Prod.mk.inj (Option.some.inj h)
      exact sendmsg_taken hsend
    · exact refuse_taken h
  · split at h
    · obtain ⟨-, rfl⟩ := Prod.mk.inj (Option.some.inj h)
      exact .refl u
    · cases h

theorem Taken.ready (h : Taken u u') (hready : op.Ready cfg u') : op.Ready cfg u := by
  have hopen := h.status.symm.trans hready.opened
  cases op with
  | recv len => exact ⟨hopen, h.messages hready.2⟩
  | sendWith len =>
    obtain ⟨-, hbroken, hroom⟩ := hready
    refine ⟨hopen, h.broken.symm.trans hbroken, Nat.le_trans hroom ?_⟩
    exact Nat.mul_le_mul_right _ (Nat.sub_le_sub_left h.blocks _)
  | flush =>
    refine ⟨hopen, List.length_eq_zero_iff.mp ?_⟩
    have hblocks := h.blocks
    rw [hready.2, List.length_nil] at hblocks
    exact Nat.le_zero.mp hblocks

end Socket

def Stage.waiter : Stage → Option Notified
  | .retrying w | .awaiting w => some w
  | _ => none

structure RPoll.Waits (p : RPoll) (side : Side) (w : Notified) : Prop where
  made : w.Made p.notifies
  notify : ∀ ent, p.entry = some ent → w.notify = ent.side side

structure Minds (cfg : Config) (s : Connection) : Prop where
  listed : s.rpoll.Listed
  entry : s.socket.status = .opened → s.rpoll.entry.isSome
  waits : s.socket.status = .opened → ∀ (i : Nat) (task : Task) w, s.tasks[i]? = some task →
    task.stage.waiter = some w → s.rpoll.Waits task.op.side w
  minded : ∀ (i : Nat) (task : Task) w, s.tasks[i]? = some task → task.stage = .awaiting w →
    Minded s.rpoll.notifies w (task.op.Ready cfg s.socket) (task.op.Due s.pending)

section Run
variable {cfg : Config} {s s' : Connection} {a : Action} {i : Nat} {task : Task}

/-- A call moves on: to a waiter of the entry, and to the await of one only when
there is nothing to go on with. -/
theorem Minds.moveTo (h : Minds cfg s) {socket : Socket} {stage : Stage} {log : List Ended}
    (htaken : Taken s.socket socket)
    (hwaits : ∀ w, stage.waiter = some w → s.socket.status = .opened →
      s.rpoll.Waits task.op.side w)
    (hblocked : ∀ w, stage = .awaiting w → ¬task.op.Ready cfg socket) :
    Minds cfg { s with socket, tasks := s.tasks.set i { task with stage }, log } where
  listed := h.listed
  entry hopen := h.entry (htaken.status.symm.trans hopen)
  waits hopen j other w hj hw := by
    have hwas := htaken.status.symm.trans hopen
    obtain ⟨rfl, rfl⟩ | ⟨-, hold⟩ := set_cases hj
    · exact hwaits w hw hwas
    · exact h.waits hwas j other w hold hw
  minded j other w hj hw := by
    obtain ⟨rfl, rfl⟩ | ⟨-, hold⟩ := set_cases hj
    · exact .of_not (hblocked w hw)
    · exact (h.minded j other w hold hw).grow (.refl _) htaken.ready id

theorem Minds.layer (h : Minds cfg s) {socket : Socket} {pending : List Events}
    (hstatus : socket.status = .opened → s.socket.status = .opened)
    (hready : ∀ op : Op, op.Ready cfg socket → op.Ready cfg s.socket ∨ op.Due pending)
    (hdue : ∀ op : Op, op.Due s.pending → op.Due pending) :
    Minds cfg { s with socket, pending } where
  listed := h.listed
  entry hopen := h.entry (hstatus hopen)
  waits hopen := h.waits (hstatus hopen)
  minded j other w hj hw := by
    intro hnow
    obtain hwas | hdue' := hready other.op hnow
    · exact (h.minded j other w hj hw).grow (.refl _) id (hdue other.op) hwas
    · exact .inr hdue'

theorem Minds.shut {rpoll : RPoll} {socket : Socket} (hlisted : rpoll.Listed)
    (hstatus : socket.status ≠ .opened) : Minds cfg { s with socket, rpoll } where
  listed := hlisted
  entry hopen := (hstatus hopen).elim
  waits hopen := (hstatus hopen).elim
  minded _ _ _ _ _ := .of_not fun hready => hstatus hready.opened

theorem Op.Due.append {op : Op} {pending : List Events} (h : op.Due pending)
    (more : List Events) : op.Due (pending ++ more) := by
  obtain ⟨events, hmem, hside⟩ := h
  exact ⟨events, List.mem_append_left more hmem, hside⟩

theorem Op.Due.concat {op : Op} (pending : List Events) {events : Events}
    (h : events.contains op.side) : op.Due (pending ++ [events]) :=
  ⟨events, List.mem_append_right pending List.mem_cons_self, h⟩

/-- An event that is reported is not due any more, and signals its side. -/
theorem Op.Due.erase {op : Op} {pending : List Events} {j : Nat} {events : Events}
    (hj : pending[j]? = some events) (h : op.Due pending) :
    events.contains op.side ∨ op.Due (pending.eraseIdx j) := by
  obtain ⟨events', hmem, hside⟩ := h
  obtain ⟨k, hk⟩ := List.mem_iff_getElem?.mp hmem
  by_cases hkj : k = j
  · subst hkj
    obtain rfl := Option.some.inj (hk.symm.trans hj)
    exact .inl hside
  · exact .inr ⟨events', List.mem_eraseIdx_iff_getElem?.mpr ⟨k, hkj, hk⟩, hside⟩

theorem Minds.updateEvents (h : Minds cfg s) {j : Nat} {events : Events}
    (hj : s.pending[j]? = some events) :
    Minds cfg { s with
      rpoll := s.rpoll.updateEvents events true, pending := s.pending.eraseIdx j } := by
  have hgrows := updateEvents_grows s.rpoll events true
  have hwaits (hopen : s.socket.status = .opened) : ∀ (i : Nat) (task : Task) w,
      s.tasks[i]? = some task → task.stage.waiter = some w →
      (s.rpoll.updateEvents events true).Waits task.op.side w := by
    intro i task w htask hw
    obtain ⟨hmade, hnotify⟩ := h.waits hopen i task w htask hw
    obtain ⟨ent, hent⟩ := Option.isSome_iff_exists.mp (h.entry hopen)
    refine ⟨hmade.grow hgrows, fun ent' hent' => ?_⟩
    obtain rfl := Option.some.inj (hent'.symm.trans (updateEvents_entry hent events true))
    exact hnotify ent' hent
  refine ⟨h.listed.updateEvents events true, fun hopen => ?_, hwaits, fun i task w htask hw => ?_⟩
  · obtain ⟨ent, hent⟩ := Option.isSome_iff_exists.mp (h.entry hopen)
    rw [updateEvents_entry hent]
    rfl
  · intro hready
    obtain hsignalled | hdue := h.minded i task w htask hw hready
    · exact .inl (Notified.signalled_grow hsignalled hgrows)
    · obtain hside | hdue := hdue.erase hj
      · obtain ⟨ent, hent⟩ := Option.isSome_iff_exists.mp (h.entry hready.opened)
        obtain ⟨hmade, hnotify⟩ := h.waits hready.opened i task w htask (by rw [hw]; rfl)
        exact .inl (signalled_updateEvents hent hside hmade (hnotify ent hent))
      · exact .inr hdue

theorem minds_step (h : Minds cfg s) (hstep : s.step cfg a = some s') : Minds cfg s' := by
  cases step_cases hstep with
  | call =>
    refine ⟨h.listed, h.entry, fun hopen i task w htask hw => ?_, fun i task w htask hw => ?_⟩
    · obtain hold | ⟨-, rfl⟩ := append_cases htask
      · exact h.waits hopen i task w hold hw
      · cases hw
    · obtain hold | ⟨-, rfl⟩ := append_cases htask
      · exact h.minded i task w hold hw
      · cases hw
  | ends htask htries hattempt =>
    exact h.moveTo (attempt_taken hattempt) (by simp [Stage.waiter]) (by simp)
  | @blocks i task next htask htries hattempt =>
    refine h.moveTo (.refl _) (fun w hw hopen => ?_)
      fun w hw => not_ready_of_blocked hattempt
    generalize hwas : task.stage = was at htries
    cases htries with
    | first => cases hw
    | second => exact h.waits hopen i task w htask (hwas ▸ hw)
  | registers htask hstage hw =>
    refine h.moveTo (.refl _) (fun w' hw' hopen => ?_) (by simp)
    obtain rfl := Option.some.inj hw'
    obtain ⟨ent, hent, rfl⟩ := waiter_some hw
    refine ⟨made_notified (h.listed ent hent _), fun ent' hent' => ?_⟩
    obtain rfl := Option.some.inj (hent.symm.trans hent')
    rfl
  | panics htask hstage hw => exact h.moveTo (.refl _) (by simp [Stage.waiter]) (by simp)
  | wakes htask hstage hw => exact h.moveTo (.refl _) (by simp [Stage.waiter]) (by simp)
  | drops htask => exact h.moveTo (.refl _) (by simp [Stage.waiter]) (by simp)
  | deliver hopen =>
    refine h.layer (fun _ => hopen) (fun op hready => ?_) fun op hdue => hdue.append _
    cases op with
    | recv len => exact .inr (.concat _ rfl)
    | sendWith len => exact .inl hready
    | flush => exact .inl hready
  | acknowledge hopen =>
    refine h.layer (fun _ => hopen) (fun op hready => ?_) fun op hdue => hdue.append _
    cases op with
    | recv len => exact .inl hready
    | sendWith len => exact .inr (.concat _ rfl)
    | flush => exact .inr (.concat _ rfl)
  | @breaks told hopen =>
    refine h.layer (fun _ => hopen) (fun op hready => ?_) fun op hdue => ?_
    · cases op with
      | recv len => exact .inl hready
      | sendWith len => cases hready.2.1
      | flush => exact .inl hready
    · cases told with
      | false => exact hdue
      | true => exact hdue.append _
  | updateEvents hevents => exact h.updateEvents hevents
  | close hbroken => exact .shut h.listed (by simp)
  | remove hclosed => exact .shut (h.listed.updateEvents _ _) (by simp)
  | removeUsock hremoving =>
    refine .shut (fun ent hent => ?_) (by simp)
    cases hent

theorem minds_run (h : Reaches (Connection.step cfg) .start s) : Minds cfg s := by
  have hstart : Minds cfg .start := by
    refine ⟨?_, fun _ => rfl, fun _ i task w htask => ?_, fun i task w htask => ?_⟩
    · exact RPoll.Listed.updateEvents (by simp [RPoll.Listed]) _ _
    · cases htask
    · cases htask
  exact h.invariant hstart fun hs _ hstep => minds_step hs hstep

end Run

/-- In every state reached, a call at its await whose waiter has not been
signalled has nothing to go on with, unless an event for it is still due. So no
message is there to be read, or room for the buffer, without one. -/
theorem no_lost_wakeup (cfg : Config) (s : Connection)
    (h : Reaches (Connection.step cfg) .start s) (i : Nat) (task : Task) (w : Notified)
    (htask : s.tasks[i]? = some task) (hstage : task.stage = .awaiting w)
    (hw : ¬w.signalled s.rpoll.notifies) (hready : task.op.Ready cfg s.socket) :
    ∃ events ∈ s.pending, events.contains task.op.side := by
  obtain hsignalled | hdue := (minds_run h).minded i task w htask hstage hready
  · exact (hw hsignalled).elim
  · exact hdue

theorem no_lost_wakeup_delivered : ∃ (s : Connection) (task : Task) (w : Notified),
    s.tasks[0]? = some task ∧ task.stage = .awaiting w ∧ ¬w.signalled s.rpoll.notifies ∧
      task.op.Ready ⟨8192, 1456⟩ s.socket ∧ ∃ events ∈ s.pending, events.contains task.op.side := by
  let cfg : Config := ⟨8192, 1456⟩
  let message : Message := ⟨[1, 2, 3], by decide⟩
  have hrun : ∃ s, exec (Connection.step cfg) .start
      [.call (.recv 100), .run 0, .run 0, .run 0, .deliver [message]] = some s ∧
        s.tasks[0]? = some ⟨.recv 100, .awaiting ⟨0, 0⟩⟩ ∧
        ¬(⟨0, 0⟩ : Notified).signalled s.rpoll.notifies ∧ s.socket.status = .opened ∧
        s.socket.messages = [message] := by
    refine ⟨_, rfl, rfl, by decide, rfl, rfl⟩
  obtain ⟨s, hs, htask, hw, hopen, hmessages⟩ := hrun
  have hready : Op.Ready cfg s.socket (.recv 100) := ⟨hopen, by simp [hmessages]⟩
  exact ⟨s, _, _, htask, rfl, hw, hready,
    no_lost_wakeup cfg s (reaches_of_exec hs) 0 _ _ htask rfl hw hready⟩

end NineWire.Udt
