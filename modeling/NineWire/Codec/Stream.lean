import NineWire.Codec

/-! A stream of items with no count in front: a reader is applied until nothing
is left, and gets back what was written one item after the other. -/
namespace NineWire.Codec
variable {β ε η α : Type}

inductive Drains (r : BufferM β η α) : List β → List α → Prop
  | done : Drains r [] []
  | read {buf rest : List β} {a : α} {as : List α} (hne : buf ≠ [])
      (hread : r.run buf = .ok (a, rest)) (hrest : Drains r rest as) : Drains r buf (a :: as)

theorem Drains.unique {r : BufferM β η α} {buf : List β} {as as' : List α} (h : Drains r buf as)
    (h' : Drains r buf as') : as = as' := by
  induction h generalizing as' with
  | done =>
    cases h' with
    | done => rfl
    | read hne => exact (hne rfl).elim
  | read hne hread _ ih =>
    cases h' with
    | done => exact (hne rfl).elim
    | read _ hread' hrest' =>
      obtain ⟨rfl, rfl⟩ := Prod.mk.inj (Except.ok.inj (hread.symm.trans hread'))
      rw [ih hrest']

/-- Items that take up space and are each read back are read back in a row. -/
theorem RoundTrips.drains {w : α → BufferM β ε Unit} {r : BufferM β η α} {n : α → Nat}
    (h : ∀ a, RoundTrips (w a) r a) (hw : ∀ a, Writes (w a) (n a)) (hn : ∀ a, 0 < n a)
    {as : List α} {buf out : List β} (hrun : (as.forM w).run buf = .ok ((), out)) :
    ∃ bs, out = buf ++ bs ∧ as.length ≤ bs.length ∧ Drains r bs as := by
  induction as generalizing buf with
  | nil =>
    obtain rfl : buf = out := (Prod.mk.inj (Except.ok.inj hrun)).2
    exact ⟨[], by simp, Nat.le_refl 0, .done⟩
  | cons a as ih =>
    obtain ⟨_, mid, ha, has⟩ := run_bind_ok.mp hrun
    obtain ⟨bs, rfl, hread⟩ := h a buf mid ha
    obtain ⟨bs', hlen, hbs, -⟩ := hw a buf _ ha
    obtain rfl := List.append_cancel_left hbs
    obtain ⟨cs, rfl, hle, hdrains⟩ := ih has
    have hpos := hn a
    have hne : bs ++ cs ≠ [] := by
      intro hnil
      rw [(List.append_eq_nil_iff.mp hnil).1] at hlen
      simp only [List.length_nil] at hlen
      omega
    refine ⟨bs ++ cs, by simp, ?_, .read hne (hread cs) hdrains⟩
    rw [List.length_cons, List.length_append]
    omega

end NineWire.Codec
