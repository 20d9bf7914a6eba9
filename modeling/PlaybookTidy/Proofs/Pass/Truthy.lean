import Mathlib.Data.List.TakeWhile
import PlaybookTidy.Pass.Truthy
import PlaybookTidy.Proofs.Lines

/-!
What the pass for truth values does to one line: the value of an indented key is looked at, and
what is written is never looked at again.
-/

namespace PlaybookTidy.Truthy

theorem not_isWordChar_of_isIndent {c : Char} (h : Line.isIndent c) :
    Text.isWordChar c = false := by
  rcases Line.isIndent_iff.1 h with rfl | rfl <;> rfl

theorem isBreak_of_isWordChar {c : Char} (h : Text.isWordChar c) : Line.isBreak c = false := by
  rw [Bool.eq_false_iff]
  intro hb
  rcases Line.isBreak_iff.1 hb with rfl | rfl <;> exact absurd h (by decide)

/-- A word and a colon do not begin with indentation. -/
theorem isIndent_head_keyed {word s : List Char} (hw : ∀ c ∈ word, Text.isWordChar c) (c : Char)
    (hc : (word ++ ':' :: s).head? = some c) : Line.isIndent c = false := by
  rw [Bool.eq_false_iff]
  intro hic
  cases word with
  | nil =>
    obtain rfl : ':' = c := by simpa using hc
    exact absurd hic (by decide)
  | cons d word =>
    obtain rfl : d = c := by simpa using hc
    have hnot := not_isWordChar_of_isIndent hic
    simp [hw d List.mem_cons_self] at hnot

/-- The value that a line of indentation, a word and a colon gets. -/
theorem rewriteBody?_keyed {indent word : List Char} (hi : ∀ c ∈ indent, Line.isIndent c)
    (hw : ∀ c ∈ word, Text.isWordChar c) (s : List Char) :
    rewriteBody? (indent ++ (word ++ ':' :: s)) =
      if indent = [] || word = [] || !(s.head?.any Line.isIndent) then none
      else (value? (s.dropWhile Line.isIndent)).map fun v => indent ++ word ++ [':', ' '] ++ v := by
  have hrest := isIndent_head_keyed (s := s) hw
  have hti := Line.takeWhile_isIndent hi hrest
  have hdi := Line.dropWhile_isIndent hi hrest
  have hcolon : Text.isWordChar ':' = false := by decide
  have htw : (word ++ ':' :: s).takeWhile Text.isWordChar = word := by
    simp [List.takeWhile_append_of_pos hw, hcolon]
  have hdw : (word ++ ':' :: s).dropWhile Text.isWordChar = ':' :: s := by
    simp [List.dropWhile_append_of_pos hw, hcolon]
  simp only [rewriteBody?, hti, hdi, htw, hdw]

/-- A line with neither a word nor a colon after its indentation stays. -/
theorem rewriteBody?_of_head {indent : List Char} (hi : ∀ c ∈ indent, Line.isIndent c) {c : Char}
    (hc : Line.isIndent c = false) (hw : Text.isWordChar c = false) (hne : c ≠ ':')
    (s : List Char) : rewriteBody? (indent ++ c :: s) = none := by
  have hr : ∀ d, (c :: s).head? = some d → Line.isIndent d = false := by
    rintro d ⟨⟩
    exact hc
  simp only [rewriteBody?, Line.dropWhile_isIndent hi hr, List.dropWhile_cons, hw]
  split
  · rename_i heq
    exact absurd (List.cons.inj heq).1 hne
  · rfl

/-- A line that changes is an indented word, a colon and a blank before the value; it keeps the
word. -/
theorem exists_of_rewriteBody? {body out : List Char} (h : rewriteBody? body = some out) :
    ∃ indent word s v : List Char, indent ≠ [] ∧ (∀ c ∈ indent, Line.isIndent c) ∧ word ≠ [] ∧
      (∀ c ∈ word, Text.isWordChar c) ∧ body = indent ++ (word ++ ':' :: s) ∧
      value? (s.dropWhile Line.isIndent) = some v ∧ out = indent ++ (word ++ ':' :: ' ' :: v) := by
  have hi : ∀ c ∈ body.takeWhile Line.isIndent, Line.isIndent c :=
    fun _ => List.mem_takeWhile_imp
  have hw : ∀ c ∈ (body.dropWhile Line.isIndent).takeWhile Text.isWordChar, Text.isWordChar c :=
    fun _ => List.mem_takeWhile_imp
  unfold rewriteBody? at h
  dsimp only at h
  split at h
  · rename_i s hs
    split at h
    · exact absurd h nofun
    · rename_i hcond
      obtain ⟨v, hv, rfl⟩ := Option.map_eq_some_iff.1 h
      simp only [Bool.or_eq_true, decide_eq_true_eq, not_or] at hcond
      refine ⟨_, _, s, v, hcond.1.1, hi, hcond.1.2, hw, ?_, hv, by simp⟩
      rw [← hs, List.takeWhile_append_dropWhile, List.takeWhile_append_dropWhile]
  · exact absurd h nofun

/-- A value is `yes` or `no` with blanks after it. -/
theorem value?_eq_some_iff {s v : List Char} :
    value? s = some v ↔ ∃ after, (∀ c ∈ after, Line.isIndent c) ∧
      (s = "yes".toList ++ after ∧ v = "true".toList ∨
        s = "no".toList ++ after ∧ v = "false".toList) := by
  constructor
  · intro h
    unfold value? at h
    split at h
    · rename_i after
      obtain ⟨hall, hv⟩ := Option.ite_none_right_eq_some.1 h
      exact ⟨after, List.all_eq_true.1 hall, Or.inl ⟨rfl, (Option.some.inj hv).symm⟩⟩
    · rename_i after
      obtain ⟨hall, hv⟩ := Option.ite_none_right_eq_some.1 h
      exact ⟨after, List.all_eq_true.1 hall, Or.inr ⟨rfl, (Option.some.inj hv).symm⟩⟩
    · exact absurd h nofun
  · rintro ⟨after, hafter, ⟨rfl, rfl⟩ | ⟨rfl, rfl⟩⟩
    · exact if_pos (List.all_eq_true.2 hafter)
    · exact if_pos (List.all_eq_true.2 hafter)

theorem value?_eq_some {s v : List Char} (h : value? s = some v) :
    v = "true".toList ∨ v = "false".toList := by
  obtain ⟨after, -, ⟨-, hv⟩ | ⟨-, hv⟩⟩ := value?_eq_some_iff.1 h
  · exact Or.inl hv
  · exact Or.inr hv

/-- `yes` or `no`, with blanks on either side or none. -/
def IsTruthValue (x : List Char) : Prop :=
  ∃ before word after : List Char, (∀ c ∈ before, Line.isIndent c) ∧
    (word = "yes".toList ∨ word = "no".toList) ∧ (∀ c ∈ after, Line.isIndent c) ∧
    x = before ++ (word ++ after)

/-- What stands after the colon of a key has a new value exactly if it is a truth value. -/
theorem isSome_value?_iff {x : List Char} :
    (value? (x.dropWhile Line.isIndent)).isSome ↔ IsTruthValue x := by
  rw [Option.isSome_iff_exists]
  simp only [value?_eq_some_iff]
  constructor
  · rintro ⟨v, after, hafter, hx⟩
    refine ⟨x.takeWhile Line.isIndent, ?_⟩
    have hsplit : x.takeWhile Line.isIndent ++ x.dropWhile Line.isIndent = x :=
      List.takeWhile_append_dropWhile
    rcases hx with ⟨hx, -⟩ | ⟨hx, -⟩
    · refine ⟨_, after, fun _ => List.mem_takeWhile_imp, Or.inl rfl, hafter, ?_⟩
      rw [← hx, hsplit]
    · refine ⟨_, after, fun _ => List.mem_takeWhile_imp, Or.inr rfl, hafter, ?_⟩
      rw [← hx, hsplit]
  · rintro ⟨before, word, after, hbefore, rfl | rfl, hafter, rfl⟩
    · rw [Line.dropWhile_isIndent hbefore (by simp [Line.isIndent])]
      exact ⟨_, after, hafter, Or.inl ⟨rfl, rfl⟩⟩
    · rw [Line.dropWhile_isIndent hbefore (by simp [Line.isIndent])]
      exact ⟨_, after, hafter, Or.inr ⟨rfl, rfl⟩⟩

/-- A value that was written is not replaced again. -/
theorem rewriteBody?_settles {body out : List Char} (h : rewriteBody? body = some out) :
    rewriteBody? out = none := by
  obtain ⟨indent, word, s, v, -, hi, -, hw, -, hv, rfl⟩ := exists_of_rewriteBody? h
  rw [rewriteBody?_keyed hi hw]
  -- Neither of the two values is one that is looked for.
  rcases value?_eq_some hv with rfl | rfl
  · split <;> rfl
  · split <;> rfl

/-- Replacing a value puts no line end into a line. -/
theorem keepsBodies : Line.KeepsBodies rewriteBody? := by
  refine ⟨rfl, ?_, ?_⟩
  · intro b b' h
    obtain ⟨indent, word, s, v, hne, -, -, -, -, -, rfl⟩ := exists_of_rewriteBody? h
    simp
  · intro b b' h hb d hd
    obtain ⟨indent, word, s, v, -, -, -, hw, rfl, hv, rfl⟩ := exists_of_rewriteBody? h
    rcases List.mem_append.1 hd with hd | hd
    · exact hb d (List.mem_append_left _ hd)
    · rcases List.mem_append.1 hd with hd | hd
      · exact isBreak_of_isWordChar (hw d hd)
      · have hvalue : ∀ c ∈ ':' :: ' ' :: v, Line.isBreak c = false := by
          rcases value?_eq_some hv with rfl | rfl <;> simp [Line.isBreak]
        exact hvalue d hd

end PlaybookTidy.Truthy
