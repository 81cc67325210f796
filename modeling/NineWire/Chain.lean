import Mathlib.Tactic.Common
import Mathlib.Data.List.Nodup
import Mathlib.Logic.Function.Basic

/-! Linked cells in an array: a segment of a chain of links, how it is cut and
joined, and which changes of a link it does not notice. General: what a cell is
does not matter. -/
namespace NineWire.Chain
variable {α : Type}

/-- From `p` the links of `next` lead over the cells of the list to `q`. -/
def Seg (next : α → α) : α → List α → α → Prop
  | p, [], q => p = q
  | p, x :: xs, q => p = x ∧ Seg next (next x) xs q

variable {next : α → α} {p q r x : α} {xs ys : List α}

theorem seg_append : Seg next p (xs ++ ys) q ↔ ∃ r, Seg next p xs r ∧ Seg next r ys q := by
  induction xs generalizing p with
  | nil => simp [Seg]
  | cons x xs ih => simp [Seg, ih, and_assoc]

theorem seg_cut : Seg next p (xs ++ x :: ys) q ↔ Seg next p xs x ∧ Seg next (next x) ys q := by
  rw [seg_append]
  constructor
  · rintro ⟨r, hxs, rfl, hys⟩
    exact ⟨hxs, hys⟩
  · rintro ⟨hxs, hys⟩
    exact ⟨x, hxs, rfl, hys⟩

theorem seg_snoc : Seg next p (xs ++ [x]) q ↔ Seg next p xs x ∧ next x = q := seg_cut

/-- Only the links of its own cells are part of a segment. -/
theorem Seg.congr {next' : α → α} (h : Seg next p xs q) (hsame : ∀ x ∈ xs, next' x = next x) :
    Seg next' p xs q := by
  induction xs generalizing p with
  | nil => exact h
  | cons x xs ih =>
    obtain ⟨hp, h⟩ := h
    refine ⟨hp, ?_⟩
    rw [hsame x List.mem_cons_self]
    apply ih h
    intro y hy
    exact hsame y (List.mem_cons_of_mem x hy)

section update
variable [DecidableEq α] {z : α}

theorem Seg.update (h : Seg next p xs q) (hx : x ∉ xs) :
    Seg (Function.update next x z) p xs q := by
  apply h.congr
  intro y hy
  have hne : y ≠ x := fun hyx => hx (hyx ▸ hy)
  exact Function.update_of_ne hne z next

theorem Seg.push (h : Seg next p xs q) (hx : x ∉ xs) :
    Seg (Function.update next x p) x (x :: xs) q := by
  refine ⟨rfl, ?_⟩
  rw [Function.update_self]
  exact h.update hx

/-- The link of cell `x` is set: what was behind it is replaced by another segment. -/
theorem Seg.redirect (h : Seg next p xs x) (h' : Seg next z ys q) (hx : x ∉ xs) (hy : x ∉ ys) :
    Seg (Function.update next x z) p (xs ++ x :: ys) q := by
  rw [seg_cut, Function.update_self]
  exact ⟨h.update hx, h'.update hy⟩

end update

section double
variable {prior next' prior' : α → α} {first last p' q' : α}

/-- Cells linked both ways: from `first`, before which is `p`, to `last`, behind
which is `q`. Without a cell, `q` comes first and `p` last. -/
def DSeg (next prior : α → α) : α → α → List α → α → α → Prop
  | p, first, [], last, q => first = q ∧ last = p
  | p, first, x :: xs, last, q => first = x ∧ prior x = p ∧ DSeg next prior x (next x) xs last q

theorem dseg_append : DSeg next prior p first (xs ++ ys) last q ↔
    ∃ m n, DSeg next prior p first xs m n ∧ DSeg next prior m n ys last q := by
  induction xs generalizing p first with
  | nil => simp [DSeg]
  | cons x xs ih => simp [DSeg, ih, and_assoc]

theorem dseg_cut : DSeg next prior p first (xs ++ x :: ys) last q ↔
    DSeg next prior p first xs (prior x) x ∧ DSeg next prior x (next x) ys last q := by
  rw [dseg_append]
  constructor
  · rintro ⟨m, n, hxs, rfl, rfl, hys⟩
    exact ⟨hxs, hys⟩
  · rintro ⟨hxs, hys⟩
    exact ⟨prior x, x, hxs, rfl, rfl, hys⟩

/-- Only the links of its own cells are part of it. -/
theorem DSeg.congr (h : DSeg next prior p first xs last q) (hnext : ∀ x ∈ xs, next' x = next x)
    (hprior : ∀ x ∈ xs, prior' x = prior x) : DSeg next' prior' p first xs last q := by
  induction xs generalizing p first with
  | nil => exact h
  | cons x xs ih =>
    obtain ⟨hfirst, hp, h⟩ := h
    refine ⟨hfirst, (hprior x List.mem_cons_self).trans hp, ?_⟩
    rw [hnext x List.mem_cons_self]
    apply ih h
    · exact fun y hy => hnext y (List.mem_cons_of_mem x hy)
    · exact fun y hy => hprior y (List.mem_cons_of_mem x hy)

theorem DSeg.first_eq (h : DSeg next prior p first xs last q) (hq : q ∉ xs) :
    first = q ↔ xs = [] := by
  cases xs with
  | nil => simp [h.1]
  | cons x xs =>
    have hx : first ≠ q := by
      rintro rfl
      exact hq (h.1 ▸ List.mem_cons_self)
    simp [hx]

theorem DSeg.first_mem (h : DSeg next prior p first xs last q) (hne : xs ≠ []) : first ∈ xs := by
  cases xs with
  | nil => exact absurd rfl hne
  | cons x xs => exact h.1 ▸ List.mem_cons_self

theorem DSeg.last_mem (h : DSeg next prior p first xs last q) (hne : xs ≠ []) : last ∈ xs := by
  induction xs generalizing p first with
  | nil => exact absurd rfl hne
  | cons x xs ih =>
    obtain ⟨-, -, h⟩ := h
    cases xs with
    | nil => exact h.2 ▸ List.mem_cons_self
    | cons y ys => exact List.mem_cons_of_mem x (ih h (List.cons_ne_nil y ys))

theorem DSeg.last_eq (h : DSeg next prior p first xs last q) (hp : p ∉ xs) :
    last = p ↔ xs = [] := by
  constructor
  · rintro rfl
    by_contra hne
    exact hp (h.last_mem hne)
  · rintro rfl
    exact h.2

variable [DecidableEq α] {z : α}

theorem DSeg.update_next (h : DSeg next prior p first xs last q) (hx : x ∉ xs) :
    DSeg (Function.update next x z) prior p first xs last q := by
  apply h.congr
  · intro y hy
    exact Function.update_of_ne (ne_of_mem_of_not_mem hy hx) z next
  · exact fun _ _ => rfl

theorem DSeg.update_prior (h : DSeg next prior p first xs last q) (hx : x ∉ xs) :
    DSeg next (Function.update prior x z) p first xs last q := by
  apply h.congr
  · exact fun _ _ => rfl
  · intro y hy
    exact Function.update_of_ne (ne_of_mem_of_not_mem hy hx) z prior

theorem DSeg.relink_last (h : DSeg next prior p first xs last q) (hnodup : xs.Nodup) :
    DSeg (if xs = [] then next else Function.update next last z) prior p
      (if xs = [] then z else first) xs last z := by
  induction xs generalizing p first with
  | nil => exact ⟨rfl, h.2⟩
  | cons x xs ih =>
    obtain ⟨hfirst, hp, h⟩ := h
    obtain ⟨hx, hnodup⟩ := List.nodup_cons.mp hnodup
    refine ⟨hfirst, hp, ?_⟩
    cases xs with
    | nil =>
      obtain rfl := h.2
      exact ⟨Function.update_self _ _ _, rfl⟩
    | cons y ys =>
      have hlast := h.last_mem (List.cons_ne_nil y ys)
      have hxlast : x ≠ last := fun hxl => hx (hxl ▸ hlast)
      change DSeg (Function.update next last z) prior x (Function.update next last z x) _ last z
      rw [Function.update_of_ne hxlast]
      exact ih h hnodup

theorem DSeg.relink_first (h : DSeg next prior p first xs last q) (hnodup : xs.Nodup) :
    DSeg next (if xs = [] then prior else Function.update prior first z) z first xs
      (if xs = [] then z else last) q := by
  cases xs with
  | nil => exact ⟨h.1, rfl⟩
  | cons x xs =>
    obtain ⟨rfl, -, h⟩ := h
    exact ⟨rfl, Function.update_self _ _ _, h.update_prior (List.nodup_cons.mp hnodup).1⟩

/-- What was on both sides of a cell is linked past it. -/
theorem DSeg.join {m n x' : α} (h : DSeg next prior p first xs m x)
    (h' : DSeg next prior x' n ys last q)
    (hnodup : (xs ++ ys).Nodup) :
    DSeg (if xs = [] then next else Function.update next m n)
      (if ys = [] then prior else Function.update prior n m) p (if xs = [] then n else first)
      (xs ++ ys) (if ys = [] then m else last) q := by
  obtain ⟨hxs, hys, hdisj⟩ := List.nodup_append.mp hnodup
  refine dseg_append.mpr ⟨m, n, (h.relink_last hxs).congr (fun _ _ => rfl) ?_,
    (h'.relink_first hys).congr ?_ fun _ _ => rfl⟩
  · intro y hy
    split_ifs with hempty
    · rfl
    · exact Function.update_of_ne (hdisj y hy n (h'.first_mem hempty)) m prior
  · intro y hy
    split_ifs with hempty
    · rfl
    · exact Function.update_of_ne (hdisj m (h.last_mem hempty) y hy).symm n next

/-- Cell `y` comes between the two, whatever was there. -/
theorem DSeg.between {m n x' y : α} (h : DSeg next prior p first xs m x)
    (h' : DSeg next prior x' n ys last q) (hnodup : (xs ++ y :: ys).Nodup) :
    DSeg (if xs = [] then Function.update next y n else Function.update (Function.update next y n) m
      y)
      (if ys = [] then Function.update prior y m
        else Function.update (Function.update prior y m) n y)
      p (if xs = [] then y else first) (xs ++ y :: ys) (if ys = [] then y else last) q := by
  obtain ⟨hxs, hcons, hdisj⟩ := List.nodup_append.mp hnodup
  obtain ⟨hy, hys⟩ := List.nodup_cons.mp hcons
  have hyxs : y ∉ xs := fun hmem => hdisj y hmem y List.mem_cons_self rfl
  have hbefore := (h.update_next (z := n) hyxs).update_prior (z := m) hyxs
  have hbehind := (h'.update_next (z := n) hy).update_prior (z := m) hy
  refine dseg_append.mpr ⟨m, y, (hbefore.relink_last hxs).congr (fun _ _ => rfl) ?_, rfl, ?_, ?_⟩
  · intro z hz
    split_ifs with hempty
    · rfl
    · have hn := List.mem_cons_of_mem y (h'.first_mem hempty)
      exact Function.update_of_ne (hdisj z hz n hn) _ _
  · split_ifs with hempty
    · exact Function.update_self _ _ _
    · rw [Function.update_of_ne (ne_of_mem_of_not_mem (h'.first_mem hempty) hy).symm,
        Function.update_self]
  · have hny : (if xs = [] then Function.update next y n
        else Function.update (Function.update next y n) m y) y = n := by
      split_ifs with hempty
      · exact Function.update_self _ _ _
      · rw [Function.update_of_ne (ne_of_mem_of_not_mem (h.last_mem hempty) hyxs).symm,
          Function.update_self]
    rw [hny]
    apply (hbehind.relink_first hys).congr
    · intro z hz
      split_ifs with hempty
      · rfl
      · have hm := hdisj m (h.last_mem hempty) z (List.mem_cons_of_mem y hz)
        exact Function.update_of_ne hm.symm _ _
    · exact fun _ _ => rfl

end double

end NineWire.Chain
