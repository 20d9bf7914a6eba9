import Mathlib.Data.List.DropRight
import PlaybookTidy.Text.Split

/-!
Cutting a text at a separator, dropping what stands at the end of a list, and the bytes of a text
made of two.
-/

namespace PlaybookTidy.Text

variable {α : Type} {sep : Char} {s : List Char}

theorem splitOn_of_not_mem (h : sep ∉ s) : splitOn sep s = [s] := by
  induction s with
  | nil => rfl
  | cons c s ih =>
    have hc : c ≠ sep := fun hc => h (hc ▸ List.mem_cons_self)
    have hs : sep ∉ s := fun hs => h (List.mem_cons_of_mem c hs)
    rw [splitOn, if_neg hc, ih hs]

theorem splitOn_append_sep (sep : Char) (a b : List Char) :
    splitOn sep (a ++ sep :: b) = splitOn sep a ++ splitOn sep b := by
  induction a with
  | nil => simp [splitOn]
  | cons c a ih =>
    by_cases hc : c = sep
    · simp only [List.cons_append, splitOn, if_pos hc, ih]
    · obtain ⟨p, ps, hp⟩ := List.exists_cons_of_ne_nil (splitOn_ne_nil sep a)
      simp only [List.cons_append, splitOn, if_neg hc, ih, hp]

/-- What holds no separator goes to the first piece. -/
theorem splitOn_append_of_not_mem {a b p : List Char} {ps : List (List Char)} (h : sep ∉ a)
    (hb : splitOn sep b = p :: ps) : splitOn sep (a ++ b) = (a ++ p) :: ps := by
  induction a with
  | nil => exact hb
  | cons c a ih =>
    have hc : c ≠ sep := fun hc => h (hc ▸ List.mem_cons_self)
    have ha : sep ∉ a := fun ha => h (List.mem_cons_of_mem c ha)
    rw [List.cons_append, splitOn, if_neg hc, ih ha]
    rfl

theorem not_mem_of_mem_splitOn {p : List Char} (h : p ∈ splitOn sep s) : sep ∉ p := by
  induction s generalizing p with
  | nil =>
    obtain rfl : p = [] := by simpa [splitOn] using h
    simp
  | cons c s ih =>
    obtain ⟨q, qs, hq⟩ := List.exists_cons_of_ne_nil (splitOn_ne_nil sep s)
    rw [hq] at ih
    by_cases hc : c = sep
    · rw [splitOn, if_pos hc, hq] at h
      rcases List.mem_cons.1 h with rfl | h
      · simp
      · exact ih h
    · rw [splitOn, if_neg hc, hq] at h
      rcases List.mem_cons.1 h with rfl | h
      · have hsep : sep ≠ c := Ne.symm hc
        simpa [hsep] using ih List.mem_cons_self
      · exact ih (List.mem_cons_of_mem q h)

/-- A character other than the separator stands in one of the pieces. -/
theorem mem_iff_splitOn {c : Char} (hc : c ≠ sep) : c ∈ s ↔ ∃ p ∈ splitOn sep s, c ∈ p := by
  induction s with
  | nil => simp [splitOn]
  | cons d s ih =>
    obtain ⟨p, ps, hp⟩ := List.exists_cons_of_ne_nil (splitOn_ne_nil sep s)
    rw [hp] at ih
    by_cases hd : d = sep
    · simp [splitOn, hd, hp, hc, ih]
    · simp [splitOn, if_neg hd, hp, ih, or_assoc]

/-- Pieces without a separator in them are the pieces of their text. -/
theorem splitOn_intercalate {ps : List (List Char)} (hps : ps ≠ []) (h : ∀ p ∈ ps, sep ∉ p) :
    splitOn sep ([sep].intercalate ps) = ps := by
  induction ps with
  | nil => exact absurd rfl hps
  | cons p ps ih =>
    have hp : sep ∉ p := h p List.mem_cons_self
    cases ps with
    | nil => simpa [List.intercalate] using splitOn_of_not_mem hp
    | cons q ps =>
      have hcons : [sep].intercalate (p :: q :: ps) = p ++ sep :: [sep].intercalate (q :: ps) := by
        simp [List.intercalate]
      have hrest := ih (by simp) fun r hr => h r (List.mem_cons_of_mem p hr)
      rw [hcons, splitOn_append_sep, splitOn_of_not_mem hp, hrest]
      rfl

theorem dropEndWhile_eq_rdropWhile (p : α → Bool) (l : List α) :
    dropEndWhile p l = l.rdropWhile p := rfl

theorem dropEndWhile_prefix (p : α → Bool) (l : List α) : dropEndWhile p l <+: l :=
  List.rdropWhile_prefix p l

theorem dropEndWhile_of_last {p : α → Bool} {l : List α} {a : α} (h : p a = false) :
    dropEndWhile p (l ++ [a]) = l ++ [a] :=
  List.rdropWhile_concat_neg p l a (by simp [h])

theorem last_of_dropEndWhile {p : α → Bool} {l l' : List α} {a : α}
    (h : dropEndWhile p l = l' ++ [a]) : p a = false := by
  rw [dropEndWhile_eq_rdropWhile] at h
  have hne : l.rdropWhile p ≠ [] := by simp [h]
  have hlast := List.rdropWhile_last_not p l hne
  simpa [h] using hlast

theorem head_of_dropEndWhile {p : α → Bool} {l : List α} {a : α}
    (h : (dropEndWhile p l).head? = some a) : l.head? = some a := by
  obtain ⟨front, hfront⟩ := List.head?_eq_some_iff.1 h
  obtain ⟨rest, hrest⟩ := dropEndWhile_prefix p l
  rw [← hrest, hfront]
  rfl

/-- Separators at the end only add empty pieces. -/
theorem exists_splitOn_dropEndWhile (sep : Char) (s : List Char) :
    ∃ k, splitOn sep s = splitOn sep (dropEndWhile (· = sep) s) ++ List.replicate k [] := by
  induction s using List.reverseRecOn with
  | nil => exact ⟨0, rfl⟩
  | append_singleton s c ih =>
    by_cases hc : c = sep
    · subst hc
      obtain ⟨k, hk⟩ := ih
      have hdrop : dropEndWhile (· = c) (s ++ [c]) = dropEndWhile (· = c) s :=
        List.rdropWhile_concat_pos _ s c (by simp)
      refine ⟨k + 1, ?_⟩
      rw [hdrop, splitOn_append_sep, hk, List.append_assoc, List.replicate_succ']
      rfl
    · rw [dropEndWhile_of_last (by simpa using hc)]
      exact ⟨0, by simp⟩

/-- What is dropped at the front would be filtered out. -/
theorem filter_dropWhile (p : α → Bool) (l : List α) :
    (l.dropWhile p).filter (fun a => !p a) = l.filter fun a => !p a := by
  induction l with
  | nil => rfl
  | cons a l ih =>
    cases ha : p a with
    | false => rw [List.dropWhile_cons_of_neg (by simp [ha])]
    | true => rw [List.dropWhile_cons_of_pos ha, ih, List.filter_cons_of_neg (by simp [ha])]

/-- What is dropped at the end would be filtered out. -/
theorem filter_dropEndWhile (p : α → Bool) (l : List α) :
    (dropEndWhile p l).filter (fun a => !p a) = l.filter fun a => !p a := by
  rw [dropEndWhile, List.filter_reverse, filter_dropWhile, List.filter_reverse,
    List.reverse_reverse]

theorem foldl_utf8Size (s : List Char) (k : Nat) :
    s.foldl (fun n c => n + c.utf8Size) k = k + byteLength s := by
  induction s generalizing k with
  | nil => rfl
  | cons c s ih =>
    rw [byteLength, List.foldl_cons, List.foldl_cons, ih, ih]
    omega

theorem byteLength_append (a b : List Char) :
    byteLength (a ++ b) = byteLength a + byteLength b := by
  rw [byteLength, List.foldl_append, foldl_utf8Size]
  rfl

/-- Leaving characters out makes no text longer. -/
theorem byteLength_le_of_sublist {a b : List Char} (h : a.Sublist b) :
    byteLength a ≤ byteLength b := by
  induction h with
  | slnil => exact Nat.le_refl _
  | @cons a b c _ ih =>
    have hcons := byteLength_append [c] b
    rw [List.singleton_append] at hcons
    omega
  | @cons_cons a b c _ ih =>
    have hfirst := byteLength_append [c] a
    have hsecond := byteLength_append [c] b
    rw [List.singleton_append] at hfirst hsecond
    omega

end PlaybookTidy.Text
