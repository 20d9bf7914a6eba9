/-!
Pieces of text, and the bytes that text takes.
-/

namespace PlaybookTidy.Text

/-- The pieces of a text between the occurrences of `sep`; there is always one. -/
def splitOn (sep : Char) : List Char → List (List Char)
  | [] => [[]]
  | c :: s =>
    if c = sep then [] :: splitOn sep s
    else
      match splitOn sep s with
      | [] => [[c]]
      | p :: ps => (c :: p) :: ps

theorem splitOn_ne_nil (sep : Char) (s : List Char) : splitOn sep s ≠ [] := by
  fun_cases splitOn sep s <;> simp

/-- A text is its pieces with the separator between them. -/
theorem intercalate_splitOn (sep : Char) (s : List Char) :
    [sep].intercalate (splitOn sep s) = s := by
  induction s with
  | nil => rfl
  | cons c s ih =>
    obtain ⟨p, ps, hp⟩ := List.exists_cons_of_ne_nil (splitOn_ne_nil sep s)
    rw [hp] at ih
    by_cases h : c = sep
    · simp only [splitOn, if_pos h, hp]
      simpa [List.intercalate, h] using ih
    · simp only [splitOn, if_neg h, hp]
      cases ps <;> simpa [List.intercalate] using congrArg (c :: ·) ih

def dropEndWhile {α : Type} (p : α → Bool) (s : List α) : List α :=
  (s.reverse.dropWhile p).reverse

def byteLength (s : List Char) : Nat := s.foldl (fun n c => n + c.utf8Size) 0

end PlaybookTidy.Text
