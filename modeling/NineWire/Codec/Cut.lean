import NineWire.Codec

/-! What a reader makes of a buffer cut short: the first field the cut falls
into decides, and every field before it is read whole. -/
namespace NineWire.Codec
variable {β ε η α γ : Type}

theorem run_bind_of_error {σ : Type} {p : StateT σ (Except ε) α} {f : α → StateT σ (Except ε) γ}
    {s : σ} {e : ε} (h : p.run s = .error e) : (p >>= f).run s = .error e := by
  rw [StateT.run_bind, h]
  rfl

/-- What `w` appends, cut anywhere short of its end, makes `r` fail with `e`. -/
def Cuts (w : BufferM β ε Unit) (r : BufferM β η α) (e : η) : Prop :=
  ∀ buf out, w.run buf = .ok ((), out) →
    ∃ bs, out = buf ++ bs ∧ ∀ p, p <+: bs → p ≠ bs → r.run p = .error e

theorem Cuts.pure (r : BufferM β η α) (e : η) : Cuts (pure () : BufferM β ε Unit) r e := by
  intro buf out h
  obtain rfl : buf = out := (Prod.mk.inj (Except.ok.inj h)).2
  refine ⟨[], by simp, fun p hp hne => ?_⟩
  exact absurd (List.prefix_nil.mp hp) hne

/-- A cut falls inside the first field, or the first field is whole and the
cut falls inside what follows. -/
theorem prefix_append_cases {p bs cs : List β} (h : p <+: bs ++ cs) :
    (p <+: bs ∧ p ≠ bs) ∨ ∃ q, p = bs ++ q ∧ q <+: cs := by
  obtain hp | ⟨q, rfl⟩ := List.prefix_or_prefix_of_prefix h (List.prefix_append bs cs)
  · by_cases hpb : p = bs
    · exact .inr ⟨[], by simp [hpb], List.nil_prefix⟩
    · exact .inl ⟨hp, hpb⟩
  · exact .inr ⟨q, rfl, (List.prefix_append_right_inj bs).mp h⟩

theorem Cuts.bind {w : BufferM β ε Unit} {w' : Unit → BufferM β ε Unit} {r : BufferM β η α}
    {f : α → BufferM β η γ} {a : α} {e : η} (h : Cuts w r e) (hr : RoundTrips w r a)
    (h' : Cuts (w' ()) (f a) e) : Cuts (w >>= w') (r >>= f) e := by
  intro buf out hrun
  obtain ⟨_, mid, hw, hw'⟩ := run_bind_ok.mp hrun
  obtain ⟨bs, rfl, hcut⟩ := h buf mid hw
  obtain ⟨bs', hbs, hread⟩ := hr buf _ hw
  obtain rfl := List.append_cancel_left hbs
  obtain ⟨cs, rfl, hcut'⟩ := h' _ out hw'
  refine ⟨bs ++ cs, by simp, fun p hp hne => ?_⟩
  obtain ⟨hpb, hpne⟩ | ⟨q, rfl, hq⟩ := prefix_append_cases hp
  · exact run_bind_of_error (hcut p hpb hpne)
  · rw [run_bind_of_ok (hread q)]
    exact hcut' q hq fun hqc => hne (by rw [hqc])

theorem Cuts.last {w : BufferM β ε Unit} {r : BufferM β η α} {e : η} (h : Cuts w r e)
    (f : α → BufferM β η γ) : Cuts w (r >>= f) e := by
  intro buf out hrun
  obtain ⟨bs, hout, hcut⟩ := h buf out hrun
  exact ⟨bs, hout, fun p hp hne => run_bind_of_error (hcut p hp hne)⟩

theorem Cuts.yields {c : BufferM β ε α} {P : α → Prop} {f : α → BufferM β ε Unit}
    {r : BufferM β η γ} {e : η} (hc : Yields c P) (h : ∀ v, P v → Cuts (f v) r e) :
    Cuts (c >>= f) r e := by
  intro buf out hrun
  obtain ⟨v, mid, hv, hf⟩ := run_bind_ok.mp hrun
  obtain ⟨rfl, hP⟩ := hc.unchanged hv
  exact h v hP mid out hf

theorem Cuts.many {w : α → BufferM β ε Unit} {r : BufferM β η α} {e : η} (as : List α)
    (hr : ∀ a, RoundTrips (w a) r a) (h : ∀ a, Cuts (w a) r e) :
    Cuts (as.forM w) (readMany r as.length) e := by
  induction as with
  | nil => exact Cuts.pure _ e
  | cons a as ih => exact (h a).bind (hr a) (ih.last _)

end NineWire.Codec
