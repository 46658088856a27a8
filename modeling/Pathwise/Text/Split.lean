/-!
# Cutting text at a separator

`Text.split` cuts a text at every occurrence of a character. There is always at least one piece,
and putting the separator back between the pieces gives the text again.
-/

namespace Pathwise

namespace Text

/-- The pieces of a list of characters between the occurrences of a separator. -/
def pieces (sep : Char) : List Char → List (List Char)
  | [] => [[]]
  | c :: rest =>
    if c = sep then [] :: pieces sep rest
    else
      match pieces sep rest with
      | [] => [[c]]
      | p :: ps => (c :: p) :: ps

theorem pieces_ne_nil (sep : Char) (cs : List Char) : pieces sep cs ≠ [] := by
  cases cs with
  | nil => simp [pieces]
  | cons c rest =>
    rw [pieces]
    split
    · simp
    · split <;> simp

/-- Nothing is lost: the pieces with the separator between them are the whole. -/
theorem intercalate_pieces (sep : Char) (cs : List Char) :
    [sep].intercalate (pieces sep cs) = cs := by
  induction cs with
  | nil => rfl
  | cons c rest ih =>
    have hne := pieces_ne_nil sep rest
    rw [pieces]
    cases hp : pieces sep rest with
    | nil => exact absurd hp hne
    | cons p ps =>
      rw [hp] at ih
      by_cases hc : c = sep
      · simp only [hc, if_pos]
        rw [← ih]
        simp [List.intercalate]
      · simp only [hc, if_neg, not_false_eq_true]
        rw [← ih]
        cases ps <;> simp [List.intercalate]

/-- The pieces of a text. -/
def split (sep : Char) (s : String) : List String :=
  (pieces sep s.toList).map String.ofList

end Text

end Pathwise
