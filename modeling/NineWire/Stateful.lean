import Mathlib.Tactic.Common

/-! What a stateful computation that may fail keeps: an invariant of the state,
however it ends, and a property of its result when it returns. General: the
state, the errors and the invariant are parameters. -/
namespace NineWire.Stateful
variable {ε σ α β : Type}

def Keeps (I : σ → Prop) (c : EStateM ε σ α) (Q : α → Prop) : Prop :=
  ∀ s, I s →
    (∀ a s', c.run s = .ok a s' → I s' ∧ Q a) ∧ (∀ e s', c.run s = .error e s' → I s')

variable {I : σ → Prop} {c : EStateM ε σ α} {f : α → EStateM ε σ β} {Q : α → Prop} {R : β → Prop}

theorem bind_run_ok {s s' : σ} {c : EStateM ε σ α} {a : α} (h : c.run s = .ok a s')
    (f : α → EStateM ε σ β) : (c >>= f).run s = (f a).run s' := by
  rw [EStateM.run_bind, h]

theorem bind_run_error {s s' : σ} {c : EStateM ε σ α} {e : ε} (h : c.run s = .error e s')
    (f : α → EStateM ε σ β) : (c >>= f).run s = .error e s' := by
  rw [EStateM.run_bind, h]

theorem bind_ok {s s'' : σ} {b : β} (h : (c >>= f).run s = .ok b s'') :
    ∃ a s', c.run s = .ok a s' ∧ (f a).run s' = .ok b s'' := by
  cases hrun : c.run s with
  | ok a s' =>
    rw [bind_run_ok hrun] at h
    exact ⟨a, s', rfl, h⟩
  | error e s' =>
    rw [bind_run_error hrun] at h
    cases h

theorem Keeps.pure {a : α} (h : Q a) : Keeps I (pure a : EStateM ε σ α) Q := by
  refine fun s hs => ⟨?_, ?_⟩
  · intro a' s' hrun
    cases hrun
    exact ⟨hs, h⟩
  · intro e s' heq
    cases heq

theorem Keeps.throw (e : ε) : Keeps I (throw e : EStateM ε σ α) Q := by
  refine fun s hs => ⟨?_, ?_⟩
  · intro a s' h
    cases h
  · intro e' s' hrun
    cases hrun
    exact hs

theorem Keeps.bind (hc : Keeps I c Q) (hf : ∀ a, Q a → Keeps I (f a) R) : Keeps I (c >>= f) R := by
  intro s hs
  obtain ⟨hok, herror⟩ := hc s hs
  rw [EStateM.run_bind]
  cases hrun : c.run s with
  | ok a t =>
    obtain ⟨ht, ha⟩ := hok a t hrun
    exact hf a ha t ht
  | error e t =>
    refine ⟨?_, ?_⟩
    · intro b s' h
      cases h
    · intro e' s' hrun'
      cases hrun'
      exact herror e t hrun

theorem Keeps.map {g : α → β} (hc : Keeps I c fun a => R (g a)) : Keeps I (g <$> c) R := by
  rw [map_eq_pure_bind]
  exact hc.bind fun a ha => Keeps.pure ha

theorem Keeps.weaken {Q' : α → Prop} (hc : Keeps I c Q) (h : ∀ a, Q a → Q' a) : Keeps I c Q' :=
  fun s hs => ⟨fun a s' hrun => ⟨((hc s hs).1 a s' hrun).1, h a ((hc s hs).1 a s' hrun).2⟩,
    (hc s hs).2⟩

theorem Keeps.get : Keeps I (get : EStateM ε σ σ) I := by
  refine fun s hs => ⟨?_, ?_⟩
  · intro a s' hrun
    cases hrun
    exact ⟨hs, hs⟩
  · intro e s' h
    cases h

theorem Keeps.set {s : σ} (h : I s) : Keeps I (set s : EStateM ε σ PUnit) fun _ => True := by
  refine fun t ht => ⟨?_, ?_⟩
  · intro a s' hrun
    cases hrun
    exact ⟨h, trivial⟩
  · intro e s' heq
    cases heq

theorem Keeps.modify {g : σ → σ} (h : ∀ s, I s → I (g s)) :
    Keeps I (modify g : EStateM ε σ PUnit) fun _ => True := by
  refine fun s hs => ⟨?_, ?_⟩
  · intro a s' hrun
    cases hrun
    exact ⟨h s hs, trivial⟩
  · intro e s' heq
    cases heq

theorem Keeps.ite {p : Prop} [Decidable p] {c d : EStateM ε σ α} (hc : p → Keeps I c Q)
    (hd : ¬p → Keeps I d Q) : Keeps I (if p then c else d) Q := by
  split <;> solve_by_elim

/-- An error is handled in the state it left behind. -/
theorem tryCatch_run (c : EStateM ε σ α) (handle : ε → EStateM ε σ α) (s : σ) :
    (tryCatch c handle).run s =
      match c.run s with
      | .ok a s' => .ok a s'
      | .error e s' => (handle e).run s' := by
  simp only [EStateM.run, MonadExcept.tryCatch, tryCatchThe, MonadExceptOf.tryCatch,
    EStateM.tryCatch]
  cases c s <;> rfl

theorem tryCatch_run_ok {s s' : σ} {a : α} (h : c.run s = .ok a s') (handle : ε → EStateM ε σ α) :
    (tryCatch c handle).run s = .ok a s' := by
  rw [tryCatch_run, h]

theorem tryCatch_run_error {s s' : σ} {e : ε} (h : c.run s = .error e s')
    (handle : ε → EStateM ε σ α) : (tryCatch c handle).run s = (handle e).run s' := by
  rw [tryCatch_run, h]

theorem Keeps.tryCatch {handle : ε → EStateM ε σ α} (hc : Keeps I c Q)
    (hhandle : ∀ e, Keeps I (handle e) Q) : Keeps I (tryCatch c handle) Q := by
  intro s hs
  obtain ⟨hok, herror⟩ := hc s hs
  cases hrun : c.run s with
  | ok a t =>
    rw [tryCatch_run_ok hrun]
    obtain ⟨ht, ha⟩ := hok a t hrun
    exact Keeps.pure ha t ht
  | error e t =>
    rw [tryCatch_run_error hrun]
    exact hhandle e t (herror e t hrun)

theorem Keeps.trivial (c : EStateM ε σ α) : Keeps (fun _ => True) c fun _ => True :=
  fun _ _ => ⟨fun _ _ _ => ⟨.intro, .intro⟩, fun _ _ _ => .intro⟩

end NineWire.Stateful
