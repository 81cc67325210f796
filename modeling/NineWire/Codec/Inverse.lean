import NineWire.Codec

/-! When a writer undoes a reader: every buffer the reader accepts is one the
writer produces. -/
namespace NineWire.Codec
variable {β ε η α γ : Type}

def Puts (w : BufferM β ε Unit) (bs : List β) : Prop := ∀ buf, w.run buf = .ok ((), buf ++ bs)

theorem Puts.pure : Puts (pure () : BufferM β ε Unit) [] := by
  intro buf
  rw [List.append_nil]
  rfl

theorem Puts.bind {w : BufferM β ε Unit} {w' : Unit → BufferM β ε Unit} {bs cs : List β}
    (h : Puts w bs) (h' : Puts (w' ()) cs) : Puts (w >>= w') (bs ++ cs) := by
  intro buf
  rw [run_bind_of_ok (h buf), h' (buf ++ bs), List.append_assoc]

theorem Puts.tail {w : BufferM β ε Unit} {w' : Unit → BufferM β ε Unit} {bs cs : List β}
    (h : Puts w bs) (h' : Puts (w >>= w') (bs ++ cs)) : (w' ()).run bs = .ok ((), bs ++ cs) := by
  have hrun := h' []
  rwa [run_bind_of_ok (h [])] at hrun

theorem Puts.length {w : BufferM β ε Unit} {bs : List β} {n : Nat} (h : Puts w bs)
    (hw : Writes w n) : bs.length = n := by
  obtain ⟨bs', hlen, hbs, -⟩ := hw [] _ (h [])
  rw [List.append_cancel_left hbs, hlen]

theorem Puts.unique {w : BufferM β ε Unit} {bs cs : List β} (h : Puts w bs) (h' : Puts w cs) :
    bs = cs := by
  have hrun := (h []).symm.trans (h' [])
  exact List.append_cancel_left (Prod.mk.inj (Except.ok.inj hrun)).2

/-- One run of a writer that ignores the buffer shows what it appends to any. -/
theorem Writes.puts {w : BufferM β ε Unit} {n : Nat} {buf bs : List β} (hw : Writes w n)
    (h : w.run buf = .ok ((), buf ++ bs)) : Puts w bs := by
  obtain ⟨bs', -, hbs, hrun⟩ := hw buf _ h
  rw [List.append_cancel_left hbs]
  exact hrun

/-- What `r` takes off the front, `w` puts back for the value read. -/
def Reads (r : BufferM β η α) (w : α → BufferM β ε Unit) : Prop :=
  ∀ buf a rest, r.run buf = .ok (a, rest) → ∃ bs, buf = bs ++ rest ∧ Puts (w a) bs

theorem Reads.peel {r : BufferM β η α} {w : α → BufferM β ε Unit} {f : α → BufferM β η γ}
    {buf rest : List β} {c : γ} (h : Reads r w) (hrun : (r >>= f).run buf = .ok (c, rest)) :
    ∃ a bs mid, buf = bs ++ mid ∧ Puts (w a) bs ∧ (f a).run mid = .ok (c, rest) := by
  obtain ⟨a, mid, hr, hf⟩ := run_bind_ok.mp hrun
  obtain ⟨bs, hbuf, hputs⟩ := h buf a mid hr
  exact ⟨a, bs, mid, hbuf, hputs, hf⟩

theorem Reads.many {r : BufferM β η α} {w : α → BufferM β ε Unit} (h : Reads r w) (n : Nat)
    {buf rest : List β} {as : List α} (hrun : (readMany r n).run buf = .ok (as, rest)) :
    as.length = n ∧ ∃ bs, buf = bs ++ rest ∧ Puts (as.forM w) bs := by
  induction n generalizing buf as with
  | zero =>
    obtain ⟨rfl, rfl⟩ := Prod.mk.inj (Except.ok.inj hrun)
    exact ⟨rfl, [], rfl, Puts.pure⟩
  | succ n ih =>
    obtain ⟨a, bs, mid, rfl, hputs, hrun⟩ := h.peel hrun
    obtain ⟨as', mid', hmany, hdone⟩ := run_bind_ok.mp hrun
    obtain ⟨rfl, rfl⟩ := Prod.mk.inj (Except.ok.inj hdone)
    obtain ⟨rfl, cs, rfl, hputs'⟩ := ih hmany
    exact ⟨rfl, bs ++ cs, by simp, hputs.bind hputs'⟩

end NineWire.Codec
