import Mathlib.Algebra.Ring.Nat
import Mathlib.Tactic.Common

/-! Writers and readers over a buffer, and when a reader undoes a writer.
General: the symbol type, both error types and every field are parameters. -/
namespace NineWire.Codec
variable {β ε η α γ : Type}

/-- A computation on a buffer that may fail. A writer appends to the buffer,
a reader takes from its front. -/
abbrev BufferM (β ε : Type) := StateT (List β) (Except ε)

theorem run_bind_ok {σ : Type} {p : StateT σ (Except ε) α} {f : α → StateT σ (Except ε) γ}
    {s : σ} {r : γ × σ} :
    (p >>= f).run s = .ok r ↔ ∃ a s', p.run s = .ok (a, s') ∧ (f a).run s' = .ok r := by
  rw [StateT.run_bind]
  cases h : p.run s with
  | error e =>
    constructor
    · intro hr
      cases hr
    · intro hcase
      obtain ⟨a, s', hp, hf⟩ := hcase
      cases hp
  | ok v =>
    constructor
    · intro hr
      exact ⟨v.1, v.2, rfl, hr⟩
    · intro hcase
      obtain ⟨a, s', hp, hf⟩ := hcase
      cases hp
      exact hf

theorem run_bind_of_ok {σ : Type} {p : StateT σ (Except ε) α} {f : α → StateT σ (Except ε) γ}
    {s s' : σ} {a : α} (h : p.run s = .ok (a, s')) : (p >>= f).run s = (f a).run s' := by
  rw [StateT.run_bind, h]
  rfl

/-- Whatever `w` appends, `r` reads back as `a` and leaves what follows. -/
def RoundTrips (w : BufferM β ε Unit) (r : BufferM β η α) (a : α) : Prop :=
  ∀ buf out, w.run buf = .ok ((), out) →
    ∃ bs, out = buf ++ bs ∧ ∀ rest, r.run (bs ++ rest) = .ok (a, rest)

def Decodes (w : BufferM β ε Unit) (r : BufferM β η α) (a : α) : Prop :=
  ∀ buf out, w.run buf = .ok ((), out) → ∃ bs, out = buf ++ bs ∧ r.run bs = .ok (a, [])

theorem RoundTrips.read {w : BufferM β ε Unit} {r : BufferM β η α} {a : α} {bs : List β}
    (h : RoundTrips w r a) (hw : w.run [] = .ok ((), bs)) (rest : List β) :
    r.run (bs ++ rest) = .ok (a, rest) := by
  obtain ⟨cs, rfl, hr⟩ := h [] bs hw
  exact hr rest

theorem RoundTrips.pure (a : α) :
    RoundTrips (pure () : BufferM β ε Unit) (pure a : BufferM β η α) a := by
  intro buf out h
  obtain rfl : buf = out := by
    simp only [StateT.run_pure] at h
    exact (Prod.mk.inj (Except.ok.inj h)).2
  exact ⟨[], by simp, fun rest => rfl⟩

theorem RoundTrips.bind {w : BufferM β ε Unit} {w' : Unit → BufferM β ε Unit}
    {r : BufferM β η α} {f : α → BufferM β η γ} {a : α} {c : γ}
    (h : RoundTrips w r a) (h' : RoundTrips (w' ()) (f a) c) :
    RoundTrips (w >>= w') (r >>= f) c := by
  intro buf out hrun
  obtain ⟨_, mid, hw, hw'⟩ := run_bind_ok.mp hrun
  obtain ⟨bs, rfl, hr⟩ := h buf mid hw
  obtain ⟨cs, rfl, hf⟩ := h' (buf ++ bs) out hw'
  refine ⟨bs ++ cs, by simp, fun rest => ?_⟩
  rw [List.append_assoc, run_bind_of_ok (hr (cs ++ rest)), hf rest]

theorem RoundTrips.last {w : BufferM β ε Unit} {r : BufferM β η α} {f : α → BufferM β η γ}
    {a : α} {c : γ} (h : RoundTrips w r a) (hf : ∀ rest, (f a).run rest = .ok (c, rest)) :
    RoundTrips w (r >>= f) c := by
  intro buf out hrun
  obtain ⟨bs, rfl, hr⟩ := h buf out hrun
  exact ⟨bs, rfl, fun rest => by rw [run_bind_of_ok (hr rest), hf]⟩

/-- A step that leaves the buffer alone, whatever it holds, and computes a
value satisfying `P`. -/
def Yields (c : BufferM β ε α) (P : α → Prop) : Prop :=
  ∀ buf v out, c.run buf = .ok (v, out) → (∀ buf', c.run buf' = .ok (v, buf')) ∧ P v

theorem Yields.unchanged {c : BufferM β ε α} {P : α → Prop} (hc : Yields c P)
    {buf out : List β} {v : α} (h : c.run buf = .ok (v, out)) : out = buf ∧ P v := by
  obtain ⟨hrun, hP⟩ := hc buf v out h
  rw [hrun buf] at h
  exact ⟨(Prod.mk.inj (Except.ok.inj h)).2.symm, hP⟩

theorem RoundTrips.yields {c : BufferM β ε α} {P : α → Prop} {f : α → BufferM β ε Unit}
    {r : BufferM β η γ} {a : γ} (hc : Yields c P) (h : ∀ v, P v → RoundTrips (f v) r a) :
    RoundTrips (c >>= f) r a := by
  intro buf out hrun
  obtain ⟨v, mid, hv, hf⟩ := run_bind_ok.mp hrun
  obtain ⟨rfl, hP⟩ := hc.unchanged hv
  exact h v hP mid out hf

theorem Decodes.yields {c : BufferM β ε α} {P : α → Prop} {f : α → BufferM β ε Unit}
    {r : BufferM β η γ} {a : γ} (hc : Yields c P) (h : ∀ v, P v → Decodes (f v) r a) :
    Decodes (c >>= f) r a := by
  intro buf out hrun
  obtain ⟨v, mid, hv, hf⟩ := run_bind_ok.mp hrun
  obtain ⟨rfl, hP⟩ := hc.unchanged hv
  exact h v hP mid out hf

theorem Decodes.bind {w : BufferM β ε Unit} {w' : Unit → BufferM β ε Unit}
    {r : BufferM β η α} {f : α → BufferM β η γ} {a : α} {c : γ}
    (h : RoundTrips w r a) (h' : Decodes (w' ()) (f a) c) : Decodes (w >>= w') (r >>= f) c := by
  intro buf out hrun
  obtain ⟨_, mid, hw, hw'⟩ := run_bind_ok.mp hrun
  obtain ⟨bs, rfl, hr⟩ := h buf mid hw
  obtain ⟨cs, rfl, hf⟩ := h' (buf ++ bs) out hw'
  exact ⟨bs ++ cs, by simp, by rw [run_bind_of_ok (hr cs), hf]⟩

theorem Decodes.last {w : BufferM β ε Unit} {r : BufferM β η α} {f : α → BufferM β η γ}
    {a : α} {c : γ} (h : RoundTrips w r a) (hf : (f a).run [] = .ok (c, [])) :
    Decodes w (r >>= f) c := by
  intro buf out hrun
  obtain ⟨bs, rfl, hr⟩ := h buf out hrun
  have hr' : r.run bs = .ok (a, []) := by simpa using hr []
  exact ⟨bs, rfl, by rw [run_bind_of_ok hr', hf]⟩

theorem Decodes.map {w : BufferM β ε Unit} {r : BufferM β η α} {a : α} (f : α → γ)
    (h : Decodes w r a) : Decodes w (r >>= fun x => Pure.pure (f x)) (f a) := by
  intro buf out hrun
  obtain ⟨bs, rfl, hr⟩ := h buf out hrun
  exact ⟨bs, rfl, run_bind_of_ok hr⟩

def readMany (r : BufferM β η α) : Nat → BufferM β η (List α)
  | 0 => pure []
  | n+1 => do
    let a ← r
    let as ← readMany r n
    return a :: as

theorem RoundTrips.many {w : α → BufferM β ε Unit} {r : BufferM β η α} (as : List α)
    (h : ∀ a, RoundTrips (w a) r a) : RoundTrips (as.forM w) (readMany r as.length) as := by
  induction as with
  | nil => exact RoundTrips.pure []
  | cons a as ih => exact (h a).bind (ih.last fun _ => rfl)

/-- `w` appends `n` symbols, the same ones whatever the buffer holds. -/
def Writes (w : BufferM β ε Unit) (n : Nat) : Prop :=
  ∀ buf out, w.run buf = .ok ((), out) →
    ∃ bs, bs.length = n ∧ out = buf ++ bs ∧ ∀ buf', w.run buf' = .ok ((), buf' ++ bs)

theorem Writes.pure : Writes (pure () : BufferM β ε Unit) 0 := by
  intro buf out h
  obtain rfl : buf = out := (Prod.mk.inj (Except.ok.inj h)).2
  refine ⟨[], rfl, by simp, fun buf' => ?_⟩
  rw [List.append_nil]
  rfl

theorem Writes.bind {w : BufferM β ε Unit} {w' : Unit → BufferM β ε Unit} {n k : Nat}
    (h : Writes w n) (h' : Writes (w' ()) k) : Writes (w >>= w') (n + k) := by
  intro buf out hrun
  obtain ⟨_, mid, hw, hw'⟩ := run_bind_ok.mp hrun
  obtain ⟨bs, rfl, rfl, hbs⟩ := h buf mid hw
  obtain ⟨cs, rfl, rfl, hcs⟩ := h' (buf ++ bs) out hw'
  refine ⟨bs ++ cs, by simp, by simp, fun buf' => ?_⟩
  rw [run_bind_of_ok (hbs buf'), hcs (buf' ++ bs), List.append_assoc]

theorem Writes.yields {c : BufferM β ε α} {P : α → Prop} {f : α → BufferM β ε Unit} {n : Nat}
    (hc : Yields c P) (h : ∀ v, P v → Writes (f v) n) : Writes (c >>= f) n := by
  intro buf out hrun
  obtain ⟨v, mid, hv, hf⟩ := run_bind_ok.mp hrun
  obtain ⟨hc', hP⟩ := hc buf v mid hv
  obtain ⟨rfl, -⟩ := hc.unchanged hv
  obtain ⟨bs, hlen, hout, hbs⟩ := h v hP mid out hf
  exact ⟨bs, hlen, hout, fun buf' => by rw [run_bind_of_ok (hc' buf'), hbs buf']⟩

theorem Writes.sum {w : α → BufferM β ε Unit} {n : α → Nat} (h : ∀ a, Writes (w a) (n a))
    (as : List α) : Writes (as.forM w) (as.map n).sum := by
  induction as with
  | nil => exact Writes.pure
  | cons a as ih => exact (h a).bind ih

theorem Writes.many {w : α → BufferM β ε Unit} {n : Nat} (h : ∀ a, Writes (w a) n)
    (as : List α) : Writes (as.forM w) (n*as.length) := by
  have hsum := Writes.sum h as
  rwa [List.map_const', List.sum_replicate_nat, Nat.mul_comm] at hsum

def Total (w : BufferM β ε Unit) : Prop := ∀ buf, ∃ out, w.run buf = .ok ((), out)

theorem Total.bind {c : BufferM β ε α} {f : α → BufferM β ε Unit} {a : α}
    (hc : ∀ buf, ∃ out, c.run buf = .ok (a, out)) (h : Total (f a)) : Total (c >>= f) := by
  intro buf
  obtain ⟨mid, hmid⟩ := hc buf
  rw [run_bind_of_ok hmid]
  exact h mid

theorem Total.many {w : α → BufferM β ε Unit} (as : List α) (h : ∀ a ∈ as, Total (w a)) :
    Total (as.forM w) := by
  induction as with
  | nil => exact fun buf => ⟨buf, rfl⟩
  | cons a as ih =>
    have hrest := ih fun a' ha' => h a' (List.mem_cons_of_mem a ha')
    exact Total.bind (h a List.mem_cons_self) hrest

def Shows (w : BufferM β ε α) (P : Prop) : Prop := ∀ buf a out, w.run buf = .ok (a, out) → P

theorem Shows.head {w : BufferM β ε α} {f : α → BufferM β ε γ} {P : Prop} (h : Shows w P) :
    Shows (w >>= f) P := by
  intro buf c out hrun
  obtain ⟨a, mid, hw, -⟩ := run_bind_ok.mp hrun
  exact h buf a mid hw

theorem Shows.rest {w : BufferM β ε α} {f : α → BufferM β ε γ} {P : Prop}
    (h : ∀ a, Shows (f a) P) : Shows (w >>= f) P := by
  intro buf c out hrun
  obtain ⟨a, mid, -, hf⟩ := run_bind_ok.mp hrun
  exact h a mid c out hf

theorem Shows.and {w : BufferM β ε α} {P Q : Prop} (h : Shows w P) (h' : Shows w Q) :
    Shows w (P ∧ Q) :=
  fun buf a out hrun => ⟨h buf a out hrun, h' buf a out hrun⟩

theorem Shows.many {w : α → BufferM β ε Unit} {P : α → Prop} (h : ∀ a, Shows (w a) (P a))
    (as : List α) : Shows (as.forM w) (∀ a ∈ as, P a) := by
  induction as with
  | nil =>
    intro buf u out hrun a ha
    cases ha
  | cons a as ih =>
    intro buf u out hrun a' ha'
    have hrest : Shows (w a >>= fun _ => as.forM w) (∀ a ∈ as, P a) := Shows.rest fun _ => ih
    cases ha' with
    | head => exact (h a).head buf u out hrun
    | tail _ hmem => exact hrest buf u out hrun a' hmem

end NineWire.Codec
