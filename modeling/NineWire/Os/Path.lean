import Mathlib.Tactic.Common

/-! Paths as Unix reads them, bytes with a slash between the parts, and the
`push` and `join` of a path buffer. What lies under a directory is what a
relative path without a step up reaches from it, through no link. -/
namespace NineWire.Os

abbrev Path := List UInt8

def slash : UInt8 := 47
def dotdot : Path := [46, 46]

def Path.IsAbsolute (p : Path) : Prop := p.head? = some slash

instance (p : Path) : Decidable p.IsAbsolute := inferInstanceAs (Decidable (_ = _))

def Path.NeedSep (buf : Path) : Prop := ∃ c, buf.getLast? = some c ∧ c ≠ slash

instance (buf : Path) : Decidable buf.NeedSep :=
  decidable_of_iff (buf.getLast?.any (· ≠ slash)) (by simp [Path.NeedSep, Option.any_eq_true])

/-- An absolute path replaces the buffer. -/
def Path.push (buf p : Path) : Path :=
  if p.IsAbsolute then p else if buf.NeedSep then buf ++ slash :: p else buf ++ p

def Path.collect (ps : List Path) : Path := ps.foldl Path.push []

def Path.parts (p : Path) : List Path := p.splitOn slash

/-- A path that goes down only: it is relative, no part of it is a step up, and
what a slash of it follows is not a link. -/
structure Path.Plain (link : Path → Prop) (p : Path) : Prop where
  relative : ¬p.IsAbsolute
  down : dotdot ∉ p.parts
  direct : ∀ pre post, p = pre ++ slash :: post → ¬link pre

/-- Steps that push plain paths, one after the other, and stop at no link. -/
structure Path.Stepwise (link : Path → Prop) (ps : List Path) : Prop where
  plain : (Path.collect ps).Plain link
  stops : ∀ before, before <+: ps → before ≠ [] → ¬link (Path.collect before)

section Path
variable {root buf p q pre post : Path} {link : Path → Prop} {ps : List Path}

theorem not_isAbsolute_nil : ¬Path.IsAbsolute [] := by decide

theorem not_needSep_nil : ¬Path.NeedSep [] := by decide

theorem push_absolute (h : p.IsAbsolute) : buf.push p = p := if_pos h

theorem push_relative (h : ¬p.IsAbsolute) :
    buf.push p = buf ++ ((if buf.NeedSep then [slash] else []) ++ p) := by
  rw [Path.push, if_neg h]
  split <;> rfl

theorem isAbsolute_append (hp : p ≠ []) : Path.IsAbsolute (p ++ q) ↔ p.IsAbsolute := by
  cases p with
  | nil => exact (hp rfl).elim
  | cons c p => simp [Path.IsAbsolute]

theorem needSep_append (hp : p ≠ []) : Path.NeedSep (buf ++ p) ↔ p.NeedSep := by
  obtain ⟨init, c, rfl⟩ := List.eq_nil_or_concat p |>.resolve_left hp
  simp [Path.NeedSep, List.getLast?_append]

theorem push_isAbsolute (hp : ¬p.IsAbsolute) (hbuf : buf ≠ []) :
    (buf.push p).IsAbsolute ↔ buf.IsAbsolute := by
  rw [push_relative hp, isAbsolute_append hbuf]

theorem nil_push (p : Path) : Path.push [] p = p := by
  by_cases h : p.IsAbsolute
  · exact push_absolute h
  · rw [push_relative h, if_neg not_needSep_nil]
    rfl

theorem push_push (root buf p : Path) : root.push (buf.push p) = (root.push buf).push p := by
  by_cases hp : p.IsAbsolute
  · rw [push_absolute hp, push_absolute hp, push_absolute hp]
  · by_cases hnil : buf = []
    · subst hnil
      rw [nil_push, push_relative not_isAbsolute_nil, List.append_nil, push_relative hp,
        push_relative hp]
      by_cases hsep : root.NeedSep
      · have hdone : ¬Path.NeedSep (root ++ [slash]) := by
          rw [needSep_append (by simp)]
          decide
        simp [hsep, hdone]
      · simp [hsep]
    · by_cases habs : buf.IsAbsolute
      · rw [push_absolute habs, push_absolute ((push_isAbsolute hp hnil).mpr habs)]
      · have hsep (front : Path) : Path.NeedSep (root ++ (front ++ buf)) ↔ buf.NeedSep := by
          rw [← List.append_assoc, needSep_append hnil]
        rw [push_relative (mt (push_isAbsolute hp hnil).mp habs), push_relative habs,
          push_relative hp, push_relative hp]
        simp [hsep]

theorem collect_append (ps : List Path) (p : Path) :
    Path.collect (ps ++ [p]) = (Path.collect ps).push p := by
  rw [Path.collect, List.foldl_append]
  rfl

theorem push_collect_append (root : Path) (ps : List Path) (p : Path) :
    root.push (Path.collect (ps ++ [p])) = (root.push (Path.collect ps)).push p := by
  rw [collect_append, push_push]

theorem parts_append_slash (p q : Path) : Path.parts (p ++ slash :: q) = p.parts ++ q.parts :=
  List.splitOn_append_cons_self p q

/-- A relative path is pushed with all its parts. -/
theorem dotdot_mem_parts_push (hp : ¬p.IsAbsolute) :
    dotdot ∈ (buf.push p).parts ↔ dotdot ∈ buf.parts ∨ dotdot ∈ p.parts := by
  have hnil : dotdot ∉ Path.parts [] := by decide
  rw [push_relative hp]
  by_cases hsep : buf.NeedSep
  · rw [if_pos hsep, List.singleton_append, parts_append_slash, List.mem_append]
  · rw [if_neg hsep, List.nil_append]
    obtain rfl | ⟨init, c, rfl⟩ := List.eq_nil_or_concat buf
    · simp [hnil]
    · have hc : c = slash := by simpa [Path.NeedSep] using hsep
      rw [hc, List.concat_eq_append, List.append_assoc, List.singleton_append, parts_append_slash,
        parts_append_slash]
      simp [hnil]

theorem relative_left (h : ¬Path.IsAbsolute (pre ++ post)) : ¬pre.IsAbsolute := by
  by_cases hnil : pre = []
  · rw [hnil]
    exact not_isAbsolute_nil
  · rwa [isAbsolute_append hnil] at h

/-- Before a slash of what was pushed on a buffer stands a part of the buffer,
all of it, or the buffer with a part of what was pushed. -/
theorem push_split (hp : ¬p.IsAbsolute) (h : buf.push p = pre ++ slash :: post) :
    (∃ post', buf = pre ++ slash :: post') ∨ (pre = buf ∧ buf ≠ []) ∨
      ∃ pre', p = pre' ++ slash :: post ∧ pre = buf.push pre' := by
  by_cases hall : pre = buf
  · refine .inr (.inl ⟨hall, ?_⟩)
    rintro rfl
    rw [nil_push, hall] at h
    exact hp (by rw [h]; rfl)
  · rw [push_relative hp] at h
    obtain ⟨mid, hpre, hrest⟩ | ⟨mid, hbuf, hrest⟩ := List.append_eq_append_iff.mp h
    · have hmid : mid ≠ [] := by
        rintro rfl
        exact hall (by simpa using hpre)
      by_cases hsep : buf.NeedSep
      · obtain ⟨c, mid, rfl⟩ := List.exists_cons_of_ne_nil hmid
        rw [if_pos hsep, List.singleton_append, List.cons_append] at hrest
        obtain ⟨rfl, hp'⟩ := List.cons.inj hrest
        refine .inr (.inr ⟨mid, hp', ?_⟩)
        rw [push_relative (relative_left (hp' ▸ hp)), if_pos hsep, hpre]
        rfl
      · rw [if_neg hsep, List.nil_append] at hrest
        refine .inr (.inr ⟨mid, hrest, ?_⟩)
        rw [push_relative (relative_left (hrest ▸ hp)), if_neg hsep, hpre]
        rfl
    · cases mid with
      | nil => exact (hall (by simpa using hbuf.symm)).elim
      | cons c mid =>
        obtain ⟨rfl, -⟩ := List.cons.inj hrest
        exact .inl ⟨mid, hbuf⟩

theorem plain_nil : Path.Plain link [] where
  relative := not_isAbsolute_nil
  down := by decide
  direct pre post h := by simp at h

theorem push_isAbsolute_left (hp : ¬p.IsAbsolute) (h : buf.IsAbsolute) : (buf.push p).IsAbsolute := by
  by_cases hnil : buf = []
  · exact (not_isAbsolute_nil (hnil ▸ h)).elim
  · rwa [push_isAbsolute hp hnil]

/-- Pushing on a buffer that is no link goes down exactly when the buffer does
and what is pushed does from there. -/
theorem plain_push_iff (hbuf : buf = [] ∨ ¬link buf) :
    (buf.push p).Plain link ↔ buf.Plain link ∧ p.Plain fun pre => link (buf.push pre) := by
  by_cases hp : p.IsAbsolute
  · rw [push_absolute hp]
    exact ⟨fun h => (h.relative hp).elim, fun h => (h.2.relative hp).elim⟩
  · constructor
    · intro h
      have hdown := h.down
      rw [dotdot_mem_parts_push hp, not_or] at hdown
      refine ⟨⟨mt (push_isAbsolute_left hp) h.relative, hdown.1, ?_⟩, ⟨hp, hdown.2, ?_⟩⟩
      · intro pre post heq
        refine h.direct pre (post ++ ((if buf.NeedSep then [slash] else []) ++ p)) ?_
        rw [push_relative hp]
        simp [heq]
      · intro pre post heq
        refine h.direct (buf.push pre) post ?_
        rw [push_relative hp, push_relative (relative_left (heq ▸ hp))]
        simp [heq]
    · rintro ⟨hbefore, hpushed⟩
      refine ⟨?_, ?_, ?_⟩
      · by_cases hnil : buf = []
        · rwa [hnil, nil_push]
        · rw [push_isAbsolute hp hnil]
          exact hbefore.relative
      · rw [dotdot_mem_parts_push hp, not_or]
        exact ⟨hbefore.down, hpushed.down⟩
      · intro pre post heq
        obtain ⟨post', hbuf'⟩ | ⟨rfl, hsome⟩ | ⟨pre', hp', rfl⟩ := push_split hp heq
        · exact hbefore.direct pre post' hbuf'
        · exact hbuf.resolve_left hsome
        · exact hpushed.direct pre' post hp'

theorem stepwise_nil : Path.Stepwise link [] where
  plain := plain_nil
  stops _ hbefore hsome := (hsome (List.prefix_nil.mp hbefore)).elim

theorem here_of_stops (h : ∀ before, before <+: ps → before ≠ [] → ¬link (Path.collect before)) :
    Path.collect ps = [] ∨ ¬link (Path.collect ps) := by
  by_cases hnil : ps = []
  · exact .inl (by rw [hnil]; rfl)
  · exact .inr (h ps (List.prefix_refl ps) hnil)

theorem Path.Stepwise.snoc (h : Path.Stepwise link ps)
    (hp : p.Plain fun pre => link ((Path.collect ps).push pre))
    (hstop : ¬link (Path.collect (ps ++ [p]))) : Path.Stepwise link (ps ++ [p]) where
  plain := by
    rw [collect_append, plain_push_iff (here_of_stops h.stops)]
    exact ⟨h.plain, hp⟩
  stops before hbefore hsome := by
    obtain rfl | hbefore := List.prefix_concat_iff.mp hbefore
    · exact hstop
    · exact h.stops before hbefore hsome

theorem Path.Stepwise.dropLast (h : Path.Stepwise link ps) : Path.Stepwise link ps.dropLast := by
  have hprefix : ps.dropLast <+: ps := List.dropLast_prefix ps
  have hstops : ∀ before, before <+: ps.dropLast → before ≠ [] → ¬link (Path.collect before) :=
    fun before hbefore => h.stops before (hbefore.trans hprefix)
  refine ⟨?_, hstops⟩
  obtain rfl | ⟨init, p, rfl⟩ := List.eq_nil_or_concat ps
  · exact h.plain
  · rw [List.concat_eq_append, List.dropLast_concat] at hstops ⊢
    have hhere := here_of_stops hstops
    have hplain := h.plain
    rw [List.concat_eq_append, collect_append, plain_push_iff hhere] at hplain
    exact hplain.1

end Path

end NineWire.Os
