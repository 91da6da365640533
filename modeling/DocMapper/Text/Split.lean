/-!
Splitting text at a separator character. Main statements: no piece holds the separator, and the
pieces joined by it again are the text.
-/

namespace DocMapper.Text

/-- The pieces between the separators; there is always at least one. -/
def splitChars (sep : Char) : List Char → List (List Char)
  | [] => [[]]
  | c :: rest =>
    if c = sep then [] :: splitChars sep rest
    else
      match splitChars sep rest with
      | [] => [[c]]
      | piece :: pieces => (c :: piece) :: pieces

def split (sep : Char) (s : String) : List String :=
  (splitChars sep s.toList).map String.ofList

theorem splitChars_ne_nil (sep : Char) (cs : List Char) : splitChars sep cs ≠ [] := by
  cases cs with
  | nil => simp [splitChars]
  | cons c rest =>
    by_cases h : c = sep
    · simp [splitChars, h]
    · simp only [splitChars, h, if_false]
      split <;> simp

theorem not_mem_of_mem_splitChars {sep : Char} {cs piece : List Char}
    (h : piece ∈ splitChars sep cs) : sep ∉ piece := by
  induction cs generalizing piece with
  | nil => simp_all [splitChars]
  | cons c rest ih =>
    by_cases hc : c = sep
    · simp only [splitChars, hc, if_true, List.mem_cons] at h
      rcases h with rfl | h
      · simp
      · exact ih h
    · simp only [splitChars, hc, if_false] at h
      split at h
      next he => exact absurd he (splitChars_ne_nil sep rest)
      next first others he =>
        rcases List.mem_cons.1 h with rfl | h
        · have := ih (he ▸ List.mem_cons_self (a := first) (l := others))
          simp [this, Ne.symm hc]
        · exact ih (he ▸ List.mem_cons_of_mem _ h)

theorem intercalate_splitChars (sep : Char) (cs : List Char) :
    [sep].intercalate (splitChars sep cs) = cs := by
  induction cs with
  | nil => simp [splitChars, List.intercalate]
  | cons c rest ih =>
    by_cases hc : c = sep
    · simp only [splitChars, hc, if_true]
      cases he : splitChars sep rest with
      | nil => exact absurd he (splitChars_ne_nil sep rest)
      | cons first others => rw [he] at ih; simp_all [List.intercalate]
    · simp only [splitChars, hc, if_false]
      cases he : splitChars sep rest with
      | nil => exact absurd he (splitChars_ne_nil sep rest)
      | cons first others =>
        rw [he] at ih
        cases others <;> simp_all [List.intercalate]

/-- What stands before the first separator and what stands after it. -/
def cutAt? (sep : Char) : List Char → Option (List Char × List Char)
  | [] => none
  | c :: rest =>
    if c = sep then some ([], rest)
    else (cutAt? sep rest).map fun (before, after) => (c :: before, after)

end DocMapper.Text
