import Mathlib.Algebra.Order.Group.Multiset
import Mathlib.Data.Multiset.Filter

/-! Obligations taken on and discharged over a run. A log entry accepts an
obligation, settles one that is open, or drops one that is open. General: what
an obligation is, and how the open ones are stored, is left to the user. -/
namespace NineWire.Ledger
variable {ι : Type}

inductive Entry (ι : Type) where
  | accept (o : ι)
  | settle (o : ι)
  | drop (o : ι)

/-- The obligations a log accepted, newest first like the log itself. -/
def accepted (log : List (Entry ι)) : List ι :=
  log.filterMap fun | .accept o => some o | _ => none

def settled (log : List (Entry ι)) : List ι :=
  log.filterMap fun | .settle o => some o | _ => none

def dropped (log : List (Entry ι)) : List ι :=
  log.filterMap fun | .drop o => some o | _ => none

/-- A log and the obligations it leaves open. Only new obligations are
accepted, and only open ones are settled or dropped. -/
inductive Balanced : List (Entry ι) → Multiset ι → Prop
  | nil : Balanced [] 0
  | accept {log open_ o} : Balanced log open_ → o ∉ accepted log →
      Balanced (.accept o :: log) (o ::ₘ open_)
  | settle {log open_ o} : Balanced log (o ::ₘ open_) → Balanced (.settle o :: log) open_
  | drop {log open_ o} : Balanced log (o ::ₘ open_) → Balanced (.drop o :: log) open_

variable {log newer older : List (Entry ι)} {open_ : Multiset ι} {o : ι}

@[simp] theorem accepted_nil : accepted ([] : List (Entry ι)) = [] := rfl
@[simp] theorem settled_nil : settled ([] : List (Entry ι)) = [] := rfl
@[simp] theorem dropped_nil : dropped ([] : List (Entry ι)) = [] := rfl
@[simp] theorem accepted_accept : accepted (.accept o :: log) = o :: accepted log := rfl
@[simp] theorem accepted_settle : accepted (.settle o :: log) = accepted log := rfl
@[simp] theorem accepted_drop : accepted (.drop o :: log) = accepted log := rfl
@[simp] theorem settled_accept : settled (.accept o :: log) = settled log := rfl
@[simp] theorem settled_settle : settled (.settle o :: log) = o :: settled log := rfl
@[simp] theorem settled_drop : settled (.drop o :: log) = settled log := rfl
@[simp] theorem dropped_accept : dropped (.accept o :: log) = dropped log := rfl
@[simp] theorem dropped_settle : dropped (.settle o :: log) = dropped log := rfl
@[simp] theorem dropped_drop : dropped (.drop o :: log) = o :: dropped log := rfl

/-- What was accepted is what was settled, what was dropped and what is open. -/
theorem Balanced.conserved (h : Balanced log open_) :
    (accepted log : Multiset ι) = settled log + dropped log + open_ := by
  induction h with
  | nil => rfl
  | accept _ _ ih =>
    rw [accepted_accept, ← Multiset.cons_coe, ih]
    simp
  | settle _ ih =>
    rw [accepted_settle, ih]
    simp [← Multiset.cons_coe]
  | drop _ ih =>
    rw [accepted_drop, ih]
    simp [← Multiset.cons_coe]

theorem Balanced.nodup (h : Balanced log open_) : (accepted log).Nodup := by
  induction h with
  | nil => exact List.nodup_nil
  | accept _ hnew ih => exact List.nodup_cons.mpr ⟨hnew, ih⟩
  | settle _ ih => exact ih
  | drop _ ih => exact ih

theorem Balanced.open_nodup (h : Balanced log open_) : open_.Nodup := by
  have hall : ((accepted log : List ι) : Multiset ι).Nodup := Multiset.coe_nodup.mpr h.nodup
  rw [h.conserved] at hall
  exact (Multiset.nodup_add.mp hall).2.1

theorem Balanced.mem_accepted_of_open (h : Balanced log open_) (ho : o ∈ open_) :
    o ∈ accepted log := by
  rw [← Multiset.mem_coe, h.conserved]
  exact Multiset.mem_add.mpr (.inr ho)

theorem Balanced.suffix (h : Balanced (newer ++ older) open_) : ∃ rest, Balanced older rest := by
  induction newer generalizing open_ with
  | nil => exact ⟨open_, h⟩
  | cons e newer ih =>
    cases h with
    | accept h _ => exact ih h
    | settle h => exact ih h
    | drop h => exact ih h

/-- An obligation is settled after it was accepted. -/
theorem Balanced.settled_after (h : Balanced (newer ++ .settle o :: older) open_) :
    o ∈ accepted older := by
  obtain ⟨rest, h⟩ := h.suffix
  cases h with
  | settle h => exact h.mem_accepted_of_open (Multiset.mem_cons_self o rest)

theorem Balanced.not_open (h : Balanced log open_) (ho : o ∈ dropped log) : o ∉ open_ := by
  have hall : ((accepted log : List ι) : Multiset ι).Nodup := Multiset.coe_nodup.mpr h.nodup
  rw [h.conserved] at hall
  have hdisjoint := (Multiset.nodup_add.mp hall).2.2
  have hdropped : o ∈ (settled log + dropped log : Multiset ι) :=
    Multiset.mem_add.mpr (.inr ho)
  exact fun hopen => Multiset.disjoint_left.mp hdisjoint hdropped hopen

/-- Obligations of a kind that is never dropped are each settled or open. -/
theorem Balanced.conserved_of_not_dropped (p : ι → Bool) (h : Balanced log open_)
    (hp : ∀ o ∈ dropped log, p o = false) :
    ((accepted log).filter p : Multiset ι) = (settled log).filter p + open_.filter (p ·) := by
  have hdrop : (dropped log).filter p = [] := by
    rw [List.filter_eq_nil_iff]
    intro o ho
    simp [hp o ho]
  have hall := congrArg (Multiset.filter (p ·)) h.conserved
  simpa [Multiset.filter_add, hdrop] using hall

def SettlesAfter (q o : ι) (log : List (Entry ι)) : Prop :=
  ∀ newer older, log = newer ++ .settle o :: older → q ∈ settled older

theorem SettlesAfter.cons {q : ι} {e : Entry ι} (h : SettlesAfter q o log)
    (he : e = .settle o → q ∈ settled log) : SettlesAfter q o (e :: log) := by
  intro newer older hlog
  cases newer with
  | nil =>
    obtain ⟨rfl, rfl⟩ := List.cons.inj hlog
    exact he rfl
  | cons e' newer =>
    obtain ⟨-, hrest⟩ := List.cons.inj hlog
    exact h newer older hrest

theorem SettlesAfter.append {q : ι} {entries : List (Entry ι)} (h : SettlesAfter q o log)
    (he : ∀ e ∈ entries, e ≠ .settle o) : SettlesAfter q o (entries ++ log) := by
  induction entries with
  | nil => exact h
  | cons e entries ih =>
    refine SettlesAfter.cons (ih fun e' he' => he e' (List.mem_cons_of_mem e he')) fun heq => ?_
    exact (he e List.mem_cons_self heq).elim

end NineWire.Ledger
