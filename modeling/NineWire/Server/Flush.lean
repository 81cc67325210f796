import NineWire.Server.Replies

/-! The flush protocol. A flush parked on a request is answered right after
that request. The slot it is parked in holds one flush only: a second flush of
the same request takes the place of the first. -/
namespace NineWire.Server
open NineWire.Wire NineWire.Ledger NineWire.Transition

section Flush
variable {W P O : Type} {handler : Serve W P O} {s s' t : Session W P O} {a : Action}
  {q f : Owed}

/-- A received Tflush finds no flush parked on the future it names; and where it
names none, it does not name a parked flush either, which the search for a
future passes over. -/
def slotFree (s : Session W P O) : Action → Bool
  | .recv incoming pick =>
    match deserializeT incoming with
    | .ok (_, .tflush ⟨oldtag⟩) =>
      !s.initialized ||
        if s.inflight.any fun fut => fut.tag.tag = oldtag then
          (s.inflight[pick]?.bind TaggedFuture.flushes).isNone
        else s.inflight.all fun fut => fut.flushes.all fun flush => flush.tag != oldtag
    | _ => true
  | _ => true

theorem owes_flush {serial : Nat} {incoming : Bytes} {initialized : Bool} {owed : Owed}
    {oldtag : UInt16} (h : owes serial incoming initialized = some owed)
    (hcause : owed.cause = .flush oldtag) :
    initialized ∧ deserializeT incoming = .ok (owed.tag, .tflush ⟨oldtag⟩) := by
  cases owes_cases h with
  | flush hinit hdes =>
    cases hcause
    exact ⟨hinit, hdes⟩
  | _ => cases hcause

theorem dropped_received (serial : Nat) (incoming : Bytes) (initialized : Bool) (log : List Event) :
    dropped (ledger (.received serial incoming initialized :: log)) = dropped (ledger log) := by
  rw [ledger_received]
  cases owes serial incoming initialized <;> rfl

theorem settled_received (serial : Nat) (incoming : Bytes) (initialized : Bool) (log : List Event) :
    settled (ledger (.received serial incoming initialized :: log)) = settled (ledger log) := by
  rw [ledger_received]
  cases owes serial incoming initialized <;> rfl

/-- No flush is dropped while every slot is found free. -/
theorem dropped_step (h : dropped (ledger s.log) = []) (hfree : slotFree s a)
    (hstep : s.step handler a = some s') : dropped (ledger s'.log) = [] := by
  cases step_cases hstep with
  | thrownOut hpc hrecv howes => exact (dropped_received ..).trans h
  | version hpc hrecv howes hcause => exact (dropped_received ..).trans h
  | push hpc hrecv howes hcause hflush => exact (dropped_received ..).trans h
  | park hpc hrecv howes hcause hfut htag =>
    rename_i incoming pick owed oldtag fut
    obtain ⟨hinit, hdes⟩ := owes_flush howes hcause
    have hany : s.inflight.any fun fut => fut.tag.tag = oldtag :=
      List.any_eq_true.mpr ⟨fut, List.mem_of_getElem? hfut, by simpa using htag⟩
    have hnone : fut.flushes = none := by
      simpa [slotFree, hdes, hfut, hinit, hany] using hfree
    simp only [hnone]
    exact (dropped_received ..).trans h
  | _ => exact h

structure OnlyOn (q f : Owed) (s : Session W P O) : Prop where
  inflight : ∀ fut ∈ s.inflight, fut.tag ≠ f ∧ (fut.flushes = some f → fut.tag = q)
  replying : ∀ {owed flushes resp}, s.pc = .reply owed flushes resp →
    owed ≠ f ∧ (flushes = some f → owed = q)
  flushing : s.pc ≠ .flush f

/-- `f` is answered after `q`: it has been, or it waits in the slot of `q`. -/
structure FlushAfter (q f : Owed) (s : Session W P O) : Prop where
  fresh : f.serial < s.serial
  after : SettlesAfter q f (ledger s.log)
  placed : q ∈ settled (ledger s.log) ∨ OnlyOn q f s

theorem settlesAfter_received {serial : Nat} {incoming : Bytes} {initialized : Bool}
    {log : List Event} (h : SettlesAfter q f (ledger log)) :
    SettlesAfter q f (ledger (.received serial incoming initialized :: log)) := by
  rw [ledger_received]
  refine h.append fun e he => ?_
  obtain ⟨owed, -, rfl⟩ := Option.map_eq_some_iff.mp (Option.mem_toList.mp he)
  simp

theorem FlushAfter.received (h : FlushAfter q f s) (incoming : Bytes) :
    FlushAfter q f (s.received incoming) where
  fresh := Nat.lt_succ_of_lt h.fresh
  after := settlesAfter_received h.after
  placed := by
    obtain hdone | hon := h.placed
    · refine .inl ?_
      rwa [Session.received, settled_received]
    · exact .inr ⟨hon.inflight, by simp [Session.received], by simp [Session.received]⟩

theorem dropped_run (h : Reaches (Session.step handler) s t) (ho : q ∈ dropped (ledger s.log)) :
    q ∈ dropped (ledger t.log) := by
  refine h.invariant (I := fun t => q ∈ dropped (ledger t.log)) ho fun hmem _ hstep => ?_
  obtain ⟨new, hlog, -⟩ := step_log hstep
  rw [hlog, ledger, List.filterMap_append, dropped, List.filterMap_append]
  exact List.mem_append_right _ hmem

end Flush

end NineWire.Server
