import Mathlib.Tactic.Common

/-! Machines that react to every action with an event, and runs whose events a
simpler machine could have shown too. General: the states, actions and events
of both are parameters. -/
namespace NineWire.Refinement
variable {σ τ α ε : Type}

/-- The events of a run, oldest first, and the state it ends in. Every action
satisfies `ok` in the state where it is taken. -/
inductive Runs (react : σ → α → ε × σ) (ok : σ → α → Prop) (s : σ) : List ε → σ → Prop
  | refl : Runs react ok s [] s
  | tail {events : List ε} {t : σ} (a : α) : Runs react ok s events t → ok t a →
      Runs react ok s (events ++ [(react t a).1]) (react t a).2

/-- Events that `spec` allows one after the other. -/
inductive Traces (spec : τ → ε → τ → Prop) (p : τ) : List ε → τ → Prop
  | refl : Traces spec p [] p
  | tail {events : List ε} {q q' : τ} {e : ε} : Traces spec p events q → spec q e q' →
      Traces spec p (events ++ [e]) q'

variable {react : σ → α → ε × σ} {ok : σ → α → Prop} {s t : σ} {events : List ε}

theorem Runs.invariant {I : σ → Prop} (h : Runs react ok s events t) (hs : I s)
    (hreact : ∀ {s a}, I s → ok s a → I (react s a).2) : I t := by
  induction h with
  | refl => exact hs
  | tail a _ ha ih => exact hreact ih ha

/-- One step of a simulation is enough for a run. -/
theorem Runs.refines {spec : τ → ε → τ → Prop} {I : σ → Prop} (abs : σ → τ)
    (h : Runs react ok s events t) (hs : I s)
    (hreact : ∀ {s a}, I s → ok s a → I (react s a).2)
    (hspec : ∀ {s a}, I s → ok s a → spec (abs s) (react s a).1 (abs (react s a).2)) :
    Traces spec (abs s) events (abs t) := by
  induction h with
  | refl => exact .refl
  | tail a hrun ha ih => exact .tail ih (hspec (hrun.invariant hs hreact) ha)

/-- The same where many states of the simpler machine may go with one. -/
theorem Runs.simulates {spec : τ → ε → τ → Prop} (R : σ → τ → Prop) {p : τ}
    (h : Runs react ok s events t) (hs : R s p)
    (hreact : ∀ {s p a}, R s p → ok s a → ∃ p', spec p (react s a).1 p' ∧ R (react s a).2 p') :
    ∃ p', Traces spec p events p' ∧ R t p' := by
  induction h with
  | refl => exact ⟨p, .refl, hs⟩
  | tail a _ ha ih =>
    obtain ⟨q, htrace, hR⟩ := ih
    obtain ⟨q', hspec, hR'⟩ := hreact hR ha
    exact ⟨q', .tail htrace hspec, hR'⟩

theorem Traces.last {spec : τ → ε → τ → Prop} {p q : τ} {e : ε}
    (h : Traces spec p (events ++ [e]) q) : ∃ q', Traces spec p events q' ∧ spec q' e q := by
  generalize hall : events ++ [e] = all at h
  cases h with
  | refl => simp at hall
  | tail htrace hspec =>
    obtain ⟨rfl, hlast⟩ := List.append_inj' hall rfl
    obtain rfl := List.singleton_inj.mp hlast
    exact ⟨_, htrace, hspec⟩

/-- Where each event leads to one state, so do the events of a run. -/
theorem Traces.unique {spec : τ → ε → τ → Prop} {p q q' : τ} (h : Traces spec p events q)
    (h' : Traces spec p events q')
    (hspec : ∀ {r e r' r''}, spec r e r' → spec r e r'' → r' = r'') : q = q' := by
  induction h generalizing q' with
  | refl =>
    generalize hnil : ([] : List ε) = all at h'
    cases h' with
    | refl => rfl
    | tail _ _ => simp at hnil
  | tail _ hlast ih =>
    obtain ⟨r, hr, hlast'⟩ := h'.last
    rw [← ih hr] at hlast'
    exact hspec hlast hlast'

theorem Runs.cons {a : α} (ha : ok s a) (h : Runs react ok (react s a).2 events t) :
    Runs react ok s ((react s a).1 :: events) t := by
  induction h with
  | refl => exact .tail a .refl ha
  | tail b _ hb ih => exact .tail b ih hb

/-- What a list of actions is answered with, and where it leads. -/
def reactions (react : σ → α → ε × σ) : σ → List α → List ε × σ
  | s, [] => ([], s)
  | s, a :: as =>
    let (events, t) := reactions react (react s a).2 as
    ((react s a).1 :: events, t)

def Permitted (react : σ → α → ε × σ) (ok : σ → α → Prop) : σ → List α → Prop
  | _, [] => True
  | s, a :: as => ok s a ∧ Permitted react ok (react s a).2 as

theorem reactions_append (as bs : List α) : (reactions react s (as ++ bs)).2 =
    (reactions react (reactions react s as).2 bs).2 := by
  induction as generalizing s with
  | nil => rfl
  | cons a as ih => exact ih

theorem permitted_append {as bs : List α} (has : Permitted react ok s as)
    (hbs : Permitted react ok (reactions react s as).2 bs) : Permitted react ok s (as ++ bs) := by
  induction as generalizing s with
  | nil => exact hbs
  | cons a as ih => exact ⟨has.1, ih has.2 hbs⟩

theorem Permitted.mono {ok' : σ → α → Prop} (hok : ∀ s a, ok s a → ok' s a) {as : List α}
    (h : Permitted react ok s as) : Permitted react ok' s as := by
  induction as generalizing s with
  | nil => exact trivial
  | cons a as ih => exact ⟨hok s a h.1, ih h.2⟩

theorem permitted_of_forall (h : ∀ s a, ok s a) {as : List α} : Permitted react ok s as := by
  induction as generalizing s with
  | nil => exact trivial
  | cons a as ih => exact ⟨h s a, ih⟩

instance [∀ s a, Decidable (ok s a)] :
    (s : σ) → (as : List α) → Decidable (Permitted react ok s as)
  | _, [] => .isTrue trivial
  | s, a :: as =>
    have := instDecidablePermitted (react s a).2 as
    inferInstanceAs (Decidable (ok s a ∧ Permitted react ok (react s a).2 as))

/-- Where each step answers alike and keeps the states related, so does every
list of actions. -/
theorem reactions_sim {react' : τ → α → ε × τ} {ok' : τ → α → Prop} (R : σ → τ → Prop) {p : τ}
    (hsim : ∀ {s p a}, R s p → ok' p a →
      (react s a).1 = (react' p a).1 ∧ R (react s a).2 (react' p a).2)
    (hR : R s p) {as : List α} (h : Permitted react' ok' p as) :
    (reactions react s as).1 = (reactions react' p as).1 ∧
      R (reactions react s as).2 (reactions react' p as).2 := by
  induction as generalizing s p with
  | nil => exact ⟨rfl, hR⟩
  | cons a as ih =>
    obtain ⟨hfirst, hR'⟩ := hsim hR h.1
    obtain ⟨hrest, hlast⟩ := ih hR' h.2
    simp only [reactions, hfirst, hrest]
    exact ⟨trivial, hlast⟩

theorem runs_of_reactions (as : List α) (h : Permitted react ok s as)
    (has : reactions react s as = (events, t)) : Runs react ok s events t := by
  induction as generalizing s events with
  | nil =>
    cases has
    exact .refl
  | cons a as ih =>
    obtain ⟨ha, h⟩ := h
    cases has
    exact .cons ha (ih h rfl)

end NineWire.Refinement
