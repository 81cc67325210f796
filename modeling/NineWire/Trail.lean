import Mathlib.Data.List.Basic
import NineWire.Transition

/-! How far a partial step function gets along its inputs. General: states and
inputs are parameters. -/
namespace NineWire.Transition
variable {σ α : Type}

/-- The states after each input, up to the first input that is not accepted. -/
def trail (step : σ → α → Option σ) : σ → List α → List σ
  | _, [] => []
  | s, a :: as =>
    match step s a with
    | some t => t :: trail step t as
    | none => []

section Trail
variable {step : σ → α → Option σ} {s t : σ} {a : α} {as bs : List α}

theorem trail_cons (h : step s a = some t) : trail step s (a :: as) = t :: trail step t as := by
  rw [trail, h]

theorem trail_stuck (h : step s a = none) : trail step s (a :: as) = [] := by
  rw [trail, h]

theorem length_trail_le (step : σ → α → Option σ) (s : σ) (as : List α) :
    (trail step s as).length ≤ as.length := by
  induction as generalizing s with
  | nil => exact Nat.le_refl 0
  | cons a as ih =>
    cases h : step s a with
    | none => simp [trail_stuck h]
    | some t =>
      rw [trail_cons h, List.length_cons, List.length_cons]
      exact Nat.succ_le_succ (ih t)

/-- A run comes to an end exactly when every input is accepted. -/
theorem exec_eq_some_iff : exec step s as = some t ↔
    (trail step s as).length = as.length ∧ (trail step s as).getLastD s = t := by
  induction as generalizing s with
  | nil => simp [exec, trail]
  | cons a as ih =>
    cases h : step s a with
    | none => simp [exec, trail_stuck h, h]
    | some u =>
      rw [exec, h, Option.bind_some, ih, trail_cons h, List.length_cons, List.length_cons,
        Nat.add_right_cancel_iff, List.getLastD_cons]

/-- A run that is stuck falls short of its inputs. -/
theorem length_trail_lt (h : exec step s as = none) : (trail step s as).length < as.length := by
  refine Nat.lt_of_le_of_ne (length_trail_le step s as) fun hlen => ?_
  cases h.symm.trans (exec_eq_some_iff.mpr ⟨hlen, rfl⟩)

theorem exec_append (step : σ → α → Option σ) (s : σ) (as bs : List α) :
    exec step s (as ++ bs) = (exec step s as).bind fun t => exec step t bs := by
  induction as generalizing s with
  | nil => rfl
  | cons a as ih =>
    cases h : step s a with
    | none => simp [exec, h]
    | some t => simp [exec, h, ih]

/-- Once a list of inputs is accepted, the trail goes on from where it led. -/
theorem trail_append (h : exec step s as = some t) :
    trail step s (as ++ bs) = trail step s as ++ trail step t bs := by
  induction as generalizing s with
  | nil =>
    cases h
    rfl
  | cons a as ih =>
    obtain ⟨u, hu, h⟩ := Option.bind_eq_some_iff.mp h
    rw [List.cons_append, trail_cons hu, trail_cons hu, ih h, List.cons_append]

end Trail

end NineWire.Transition
