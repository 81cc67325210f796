import NineWire.Codec

/-! What a reader can fail with: a property of every error it raises, from the
errors of its parts. -/
namespace NineWire.Codec
variable {β η α γ : Type} {P : η → Prop}

def Raises (r : BufferM β η α) (P : η → Prop) : Prop := ∀ buf e, r.run buf = .error e → P e

theorem Raises.pure (a : α) : Raises (pure a : BufferM β η α) P := by
  intro buf e h
  cases h

theorem Raises.get : Raises (get : BufferM β η (List β)) P := by
  intro buf e h
  cases h

theorem Raises.set (buf : List β) : Raises (set buf : BufferM β η PUnit) P := by
  intro buf e h
  cases h

theorem Raises.throw {e : η} (he : P e) : Raises (throw e : BufferM β η α) P := by
  intro buf e' h
  cases h
  exact he

theorem Raises.bind {r : BufferM β η α} {f : α → BufferM β η γ} (h : Raises r P)
    (hf : ∀ a, Raises (f a) P) : Raises (r >>= f) P := by
  intro buf e hrun
  cases hr : r.run buf with
  | error e' =>
    rw [StateT.run_bind, hr] at hrun
    cases hrun
    exact h buf e hr
  | ok v =>
    rw [run_bind_of_ok hr] at hrun
    exact hf v.1 v.2 e hrun

theorem Raises.many {r : BufferM β η α} (h : Raises r P) (n : Nat) : Raises (readMany r n) P := by
  induction n with
  | zero => exact Raises.pure []
  | succ n ih => exact h.bind fun a => ih.bind fun as => Raises.pure (a :: as)

end NineWire.Codec
