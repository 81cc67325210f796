import NineWire.Table

/-! `Notify`s that wake every waiter made before a call of `notify_waiters`, and
what a waiter can rely on that looks again after it was made. General: what is
waited for, and what is still due, are propositions. -/
namespace NineWire.Notify
open NineWire.Table

/-- The `Notify`s there are, each as the number of `notify_waiters` calls on it. -/
abbrev Notifies := List Nat

def calls (ns : Notifies) (i : Nat) : Nat := ns[i]?.getD 0

def notifyWaiters (ns : Notifies) (i : Nat) : Notifies := ns.modify i (· + 1)

/-- A waiter, with the number of calls there were before it. -/
structure Notified where
  notify : Nat
  before : Nat
  deriving DecidableEq

def notified (ns : Notifies) (i : Nat) : Notified := ⟨i, calls ns i⟩

def Notified.signalled (w : Notified) (ns : Notifies) : Bool := w.before < calls ns w.notify

structure Notified.Made (w : Notified) (ns : Notifies) : Prop where
  listed : w.notify < ns.length
  past : w.before ≤ calls ns w.notify

structure Grows (ns ns' : Notifies) : Prop where
  length : ns.length ≤ ns'.length
  calls : ∀ i, calls ns i ≤ calls ns' i

/-- If what the waiter waits for is there, it is signalled, or a call is due. -/
def Minded (ns : Notifies) (w : Notified) (ready due : Prop) : Prop :=
  ready → w.signalled ns ∨ due

variable {ns ns' ns'' : Notifies} {i j : Nat} {w : Notified} {ready ready' due due' : Prop}

theorem Grows.refl (ns : Notifies) : Grows ns ns := ⟨Nat.le_refl _, fun _ => Nat.le_refl _⟩

theorem Grows.trans (h : Grows ns ns') (h' : Grows ns' ns'') : Grows ns ns'' :=
  ⟨Nat.le_trans h.length h'.length, fun i => Nat.le_trans (h.calls i) (h'.calls i)⟩

theorem Grows.append (ns more : Notifies) : Grows ns (ns ++ more) := by
  refine ⟨by simp, fun i => ?_⟩
  unfold Notify.calls
  cases hi : ns[i]? with
  | none => exact Nat.zero_le _
  | some n =>
    have hafter : (ns ++ more)[i]? = some n := by
      rw [List.getElem?_append_left (lt_of_get hi), hi]
    exact Nat.le_of_eq (by rw [hafter])

theorem calls_notifyWaiters (h : i < ns.length) : calls (notifyWaiters ns i) i = calls ns i + 1 := by
  simp [calls, notifyWaiters, h]

theorem Grows.notifyWaiters (ns : Notifies) (i : Nat) : Grows ns (notifyWaiters ns i) := by
  refine ⟨by simp [Notify.notifyWaiters], fun j => ?_⟩
  unfold Notify.calls Notify.notifyWaiters
  rw [List.getElem?_modify]
  by_cases hij : i = j
  · cases ns[j]? <;> simp [hij]
  · simp [hij]

theorem made_notified (h : i < ns.length) : (notified ns i).Made ns := ⟨h, Nat.le_refl _⟩

theorem Notified.Made.grow (h : w.Made ns) (hgrows : Grows ns ns') : w.Made ns' :=
  ⟨Nat.lt_of_lt_of_le h.listed hgrows.length, Nat.le_trans h.past (hgrows.calls _)⟩

theorem Notified.signalled_grow (h : w.signalled ns) (hgrows : Grows ns ns') : w.signalled ns' :=
  decide_eq_true (Nat.lt_of_lt_of_le (of_decide_eq_true h) (hgrows.calls _))

/-- A call signals every waiter that was made before. -/
theorem Notified.Made.signalled (h : w.Made ns) (hi : w.notify = i) :
    w.signalled (notifyWaiters ns i) := by
  subst hi
  refine decide_eq_true ?_
  rw [calls_notifyWaiters h.listed]
  exact Nat.lt_succ_of_le h.past

theorem Minded.of_not (h : ¬ready) : Minded ns w ready due := fun hready => (h hready).elim

theorem Minded.grow (h : Minded ns w ready due) (hgrows : Grows ns ns')
    (hready : ready' → ready) (hdue : due → due') : Minded ns' w ready' due' := by
  intro hnow
  obtain hsignalled | hdue' := h (hready hnow)
  · exact .inl (Notified.signalled_grow hsignalled hgrows)
  · exact .inr (hdue hdue')

end NineWire.Notify
