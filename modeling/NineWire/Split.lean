import Mathlib.Data.String.Basic

/-! Splitting a string at one character, as a split of its list of characters. -/
namespace NineWire.Split
open String

theorem atEnd_of_valid (l r : List Char) :
    (⟨utf8Len l⟩ : Pos.Raw).atEnd (ofList (l ++ r)) = true ↔ r = [] := by
  rw [atEnd_iff, rawEndPos_ofList, utf8Len_append, Pos.Raw.mk_le_mk, ← utf8Len_eq_zero]
  omega

/-- Where `splitOnAux` stands, with the parts `acc` behind it: the part that it
reads began after `l` and has the characters `m` so far. -/
theorem splitOnAux_of_valid (c : Char) (l m r : List Char) (acc : List String) :
    splitOnAux (ofList (l ++ m ++ r)) (ofList [c]) ⟨utf8Len l⟩ ⟨utf8Len (l ++ m)⟩ 0 acc =
      acc.reverse ++ (List.splitOnPPrepend (· == c) r m.reverse).map ofList := by
  induction r generalizing l m acc with
  | nil =>
    have hpart := extract_of_valid l m []
    rw [← utf8Len_append] at hpart
    rw [splitOnAux, if_pos ((atEnd_of_valid (l ++ m) []).mpr rfl), hpart]
    simp
  | cons d r ih =>
    have hend : ¬(⟨utf8Len (l ++ m)⟩ : Pos.Raw).atEnd (ofList (l ++ m ++ d :: r)) = true := by
      rw [atEnd_of_valid]
      exact List.cons_ne_nil d r
    have hget : Pos.Raw.get (ofList (l ++ m ++ d :: r)) ⟨utf8Len (l ++ m)⟩ = d :=
      get_of_valid (l ++ m) (d :: r)
    have hnext : Pos.Raw.next (ofList (l ++ m ++ d :: r)) ⟨utf8Len (l ++ m)⟩ =
        ⟨utf8Len (l ++ m ++ [d])⟩ := by
      rw [next_of_valid, utf8Len_append (l ++ m)]
      simp
    have hsep : Pos.Raw.get (ofList [c]) 0 = c := get_of_valid [] [c]
    have hsepnext : Pos.Raw.next (ofList [c]) 0 = ⟨utf8Len [c]⟩ := by
      have h := next_of_valid [] c []
      simpa using h
    have hsepend : (⟨utf8Len [c]⟩ : Pos.Raw).atEnd (ofList [c]) = true :=
      (atEnd_of_valid [c] []).mpr rfl
    rw [splitOnAux, if_neg hend]
    simp only [hget, hsep, hnext, hsepnext, if_pos hsepend]
    by_cases hd : d = c
    · subst hd
      have hback : (⟨utf8Len (l ++ m ++ [d])⟩ : Pos.Raw).unoffsetBy ⟨utf8Len [d]⟩ =
          ⟨utf8Len (l ++ m)⟩ := by
        rw [utf8Len_append (l ++ m)]
        simp [Pos.Raw.unoffsetBy]
      have hpart := extract_of_valid l m (d :: r)
      rw [← utf8Len_append] at hpart
      have hrest := ih (l ++ m ++ [d]) [] (ofList m :: acc)
      rw [hback, hpart]
      simpa [List.splitOnPPrepend_cons_eq_if] using hrest
    · have hback : (⟨utf8Len (l ++ m)⟩ : Pos.Raw).unoffsetBy 0 = ⟨utf8Len (l ++ m)⟩ := rfl
      have hrest := ih l (m ++ [d]) acc
      rw [hback, hnext]
      simpa [List.splitOnPPrepend_cons_eq_if, hd] using hrest

theorem splitOn_singleton (s : String) (c : Char) :
    s.splitOn (ofList [c]) = (s.toList.splitOn c).map ofList := by
  have h := splitOnAux_of_valid c [] [] s.toList []
  rw [splitOn, if_neg (by simp)]
  simpa [List.splitOn_eq_splitOnP] using h

end NineWire.Split
