import Mathlib.Tactic.Common

/-! Runs of a partial step function, and how an invariant of one step becomes
an invariant of a run. General: states, actions and the side condition that a
run may have to meet are parameters. -/
namespace NineWire.Transition
variable {σ α : Type}

/-- States reachable by steps that all satisfy `ok`, a condition on the state
before the step and the action taken there. -/
inductive Steps (step : σ → α → Option σ) (ok : σ → α → Prop) (s : σ) : σ → Prop
  | refl : Steps step ok s s
  | tail {t u : σ} (a : α) : Steps step ok s t → ok t a → step t a = some u → Steps step ok s u

abbrev Reaches (step : σ → α → Option σ) : σ → σ → Prop := Steps step fun _ _ => True

variable {step : σ → α → Option σ} {ok : σ → α → Prop} {s t u : σ}

theorem Steps.trans (h : Steps step ok s t) (h' : Steps step ok t u) : Steps step ok s u := by
  induction h' with
  | refl => exact h
  | tail a _ hok hstep ih => exact .tail a ih hok hstep

theorem Steps.mono {ok' : σ → α → Prop} (hok : ∀ s a, ok s a → ok' s a)
    (h : Steps step ok s t) : Steps step ok' s t := by
  induction h with
  | refl => exact .refl
  | tail a _ ha hstep ih => exact .tail a ih (hok _ _ ha) hstep

/-- What every permitted step preserves, every run preserves. -/
theorem Steps.invariant {I : σ → Prop} (h : Steps step ok s t) (hs : I s)
    (hstep : ∀ {s a s'}, I s → ok s a → step s a = some s' → I s') : I t := by
  induction h with
  | refl => exact hs
  | tail a _ ha hst ih => exact hstep ih ha hst

/-- What is true at the end of a run, and not at its start, comes with one of
its steps. -/
theorem Steps.appeared {P : σ → Prop} (h : Steps step ok s t) (hs : ¬P s) (ht : P t) :
    ∃ u a v, Steps step ok s u ∧ ok u a ∧ step u a = some v ∧ Steps step ok v t ∧ ¬P u ∧ P v := by
  induction h with
  | refl => exact (hs ht).elim
  | @tail t' t a hrun hok hstep ih =>
    by_cases ht' : P t'
    · obtain ⟨u, b, v, hu, hb, huv, hv, hnot, hnow⟩ := ih ht'
      exact ⟨u, b, v, hu, hb, huv, .tail a hv hok hstep, hnot, hnow⟩
    · exact ⟨t', a, t, hrun, hok, hstep, .refl, ht', ht⟩

def exec (step : σ → α → Option σ) : σ → List α → Option σ
  | s, [] => some s
  | s, a :: as => (step s a).bind fun s' => exec step s' as

theorem reaches_of_exec {as : List α} (h : exec step s as = some t) : Reaches step s t := by
  induction as generalizing s with
  | nil =>
    obtain rfl := Option.some.inj h
    exact .refl
  | cons a as ih =>
    obtain ⟨s', hs', h⟩ := Option.bind_eq_some_iff.mp h
    exact Steps.trans (.tail a .refl trivial hs') (ih h)

/-- The steps that satisfy a side condition that can be checked. -/
def guarded (step : σ → α → Option σ) (check : σ → α → Bool) (s : σ) (a : α) : Option σ :=
  if check s a then step s a else none

theorem steps_of_exec {check : σ → α → Bool} {as : List α}
    (h : exec (guarded step check) s as = some t) : Steps step (fun s a => check s a) s t := by
  induction as generalizing s with
  | nil =>
    obtain rfl := Option.some.inj h
    exact .refl
  | cons a as ih =>
    obtain ⟨s', hs', h⟩ := Option.bind_eq_some_iff.mp h
    by_cases hcheck : check s a
    · rw [guarded, if_pos hcheck] at hs'
      exact Steps.trans (.tail a .refl hcheck hs') (ih h)
    · rw [guarded, if_neg hcheck] at hs'
      cases hs'

end NineWire.Transition
