import Mathlib.Data.List.Forall2
import PlaybookTidy.Proofs.Pass.Truthy
import PlaybookTidy.Proofs.Scan

/-!
The pass for truth values, told by its grammar. Line by line it does what two searches of the whole
text do, first for `yes` and then for `no`.
-/

namespace PlaybookTidy.Truthy

variable {indent key blanks after word value body out s : List Char}

def IsGap (s : List Char) : Prop := s ≠ [] ∧ ∀ c ∈ s, Line.isIndent c

def IsWord (s : List Char) : Prop := s ≠ [] ∧ ∀ c ∈ s, Text.isWordChar c

/-- An indented key with a word as its value, and the same key with another value. -/
def Assigns (word value body out : List Char) : Prop :=
  ∃ indent key blanks after : List Char, IsGap indent ∧ IsWord key ∧ IsGap blanks ∧
    (∀ c ∈ after, Line.isIndent c) ∧ body = indent ++ (key ++ ':' :: (blanks ++ (word ++ after))) ∧
    out = indent ++ (key ++ ':' :: ' ' :: value)

def Replaces (body out : List Char) : Prop :=
  Assigns "yes".toList "true".toList body out ∨ Assigns "no".toList "false".toList body out

def IsFlag (body : List Char) : Prop := ∃ out, Replaces body out

theorem colon_notMem_key (hi : IsGap indent) (hk : IsWord key) : ':' ∉ indent ++ key := by
  intro hc
  rcases List.mem_append.1 hc with hc | hc
  · exact absurd (hi.2 _ hc) (by decide)
  · exact absurd (hk.2 _ hc) (by decide)

/-- A line that is rewritten holds one colon. What stands before it stays, what stands after it is
the value. -/
theorem Assigns.cut (h : Assigns word value body out) : ∃ indent key blanks after : List Char,
    IsGap indent ∧ IsWord key ∧ IsGap blanks ∧ (∀ c ∈ after, Line.isIndent c) ∧
      body = (indent ++ key) ++ ':' :: (blanks ++ (word ++ after)) ∧
      out = body.takeWhile (· ≠ ':') ++ ':' :: ' ' :: value := by
  obtain ⟨indent, key, blanks, after, hi, hk, hb, ha, rfl, rfl⟩ := h
  have hlead : ∀ c ∈ indent ++ key, decide (c ≠ ':') = true := by
    intro c hc
    rw [decide_eq_true_eq]
    rintro rfl
    exact colon_notMem_key hi hk hc
  refine ⟨indent, key, blanks, after, hi, hk, hb, ha, by simp, ?_⟩
  rw [← List.append_assoc, ← List.append_assoc, List.takeWhile_append_of_pos hlead]
  simp

def assignment (word value : List Char) : LinePattern where
  takes := Assigns word value
  whole := True

theorem rewrites_assignment :
    (assignment word value).Rewrites body out ↔ Assigns word value body out := by
  constructor
  · rintro ⟨taken, put, rest, h, hrest, rfl, rfl⟩
    rw [hrest trivial, List.append_nil, List.append_nil]
    exact h
  · exact fun h => ⟨body, out, [], h, fun _ => rfl, by simp, by simp⟩

/-- An assignment fills its line, so there is one way to find it there. -/
theorem definite_assignment (hword : ∀ c ∈ word, Line.isBreak c = false) :
    (assignment word value).Definite where
  ne_nil := by
    rintro taken put ⟨indent, key, blanks, after, -, -, -, -, rfl, -⟩
    simp
  noBreak := by
    rintro taken put ⟨indent, key, blanks, after, hi, hk, hb, ha, rfl, -⟩ c hc
    simp only [List.mem_append, List.mem_cons] at hc
    rcases hc with hc | hc | rfl | hc | hc | hc
    · exact Line.isBreak_of_isIndent (hi.2 c hc)
    · exact isBreak_of_isWordChar (hk.2 c hc)
    · rfl
    · exact Line.isBreak_of_isIndent (hb.2 c hc)
    · exact hword c hc
    · exact Line.isBreak_of_isIndent (ha c hc)
  unique := by
    intro taken taken' put put' rest rest' h h' _ heq
    -- Both are the whole line, which tells what is put there.
    obtain rfl := heq trivial
    obtain ⟨-, -, -, -, -, -, -, -, -, hput⟩ := h.cut
    obtain ⟨-, -, -, -, -, -, -, -, -, hput'⟩ := h'.cut
    exact ⟨rfl, hput.trans hput'.symm⟩

theorem rewriteBody?_assigned {v : List Char} (hi : IsGap indent) (hk : IsWord key)
    (hb : IsGap blanks) (hs : ∀ c, s.head? = some c → Line.isIndent c = false)
    (hv : value? s = some v) :
    rewriteBody? (indent ++ (key ++ ':' :: (blanks ++ s))) =
      some (indent ++ (key ++ ':' :: ' ' :: v)) := by
  obtain ⟨b, bs, rfl⟩ := List.exists_cons_of_ne_nil hb.1
  have hblank : Line.isIndent b = true := hb.2 b List.mem_cons_self
  rw [rewriteBody?_keyed hi.2 hk.2, Line.dropWhile_isIndent hb.2 hs, hv]
  simp [hi.1, hk.1, hblank]

/-- The pass rewrites the lines of its grammar as the grammar says. -/
theorem rewriteBody?_eq_some_iff : rewriteBody? body = some out ↔ Replaces body out := by
  constructor
  · intro h
    obtain ⟨indent, key, s, v, hine, hi, hkne, hk, rfl, hv, rfl⟩ := exists_of_rewriteBody? h
    have hsplit : s.takeWhile Line.isIndent ++ s.dropWhile Line.isIndent = s :=
      List.takeWhile_append_dropWhile
    -- Without a blank after the colon the line would not have been rewritten.
    have hgap : IsGap (s.takeWhile Line.isIndent) := by
      refine ⟨?_, fun _ => List.mem_takeWhile_imp⟩
      rw [rewriteBody?_keyed hi hk] at h
      cases s with
      | nil => simp at h
      | cons c s =>
        intro hnil
        have hc : Line.isIndent c = false := by simpa using hnil
        simp [hc] at h
    obtain ⟨after, hafter, ⟨hs, rfl⟩ | ⟨hs, rfl⟩⟩ := value?_eq_some_iff.1 hv
    · refine Or.inl ⟨indent, key, _, after, ⟨hine, hi⟩, ⟨hkne, hk⟩, hgap, hafter, ?_, rfl⟩
      rw [← hs, hsplit]
    · refine Or.inr ⟨indent, key, _, after, ⟨hine, hi⟩, ⟨hkne, hk⟩, hgap, hafter, ?_, rfl⟩
      rw [← hs, hsplit]
  · rintro (⟨indent, key, blanks, after, hi, hk, hb, ha, rfl, rfl⟩ |
      ⟨indent, key, blanks, after, hi, hk, hb, ha, rfl, rfl⟩)
    · refine rewriteBody?_assigned hi hk hb (by simp [Line.isIndent]) ?_
      exact value?_eq_some_iff.2 ⟨after, ha, Or.inl ⟨rfl, rfl⟩⟩
    · refine rewriteBody?_assigned hi hk hb (by simp [Line.isIndent]) ?_
      exact value?_eq_some_iff.2 ⟨after, ha, Or.inr ⟨rfl, rfl⟩⟩

theorem isSome_rewriteBody?_iff : (rewriteBody? body).isSome ↔ IsFlag body := by
  rw [Option.isSome_iff_exists]
  simp only [rewriteBody?_eq_some_iff, IsFlag]

instance : DecidablePred IsFlag := fun _ => decidable_of_iff _ isSome_rewriteBody?_iff

inductive Replaced : Line → Line → Prop
  | flag {body out : List Char} {e : Ending} : Replaces body out → Replaced ⟨body, e⟩ ⟨out, e⟩
  | other {l : Line} : ¬ IsFlag l.body → Replaced l l

theorem replaced_iff {l k : Line} :
    Replaced l k ↔ { l with body := (rewriteBody? l.body).getD l.body } = k := by
  constructor
  · rintro (hflag | hno)
    · rw [rewriteBody?_eq_some_iff.2 hflag, Option.getD_some]
    · rw [← isSome_rewriteBody?_iff, Option.not_isSome_iff_eq_none] at hno
      rw [hno, Option.getD_none]
  · rintro rfl
    cases hb : rewriteBody? l.body with
    | none =>
      have hno : ¬ IsFlag l.body := by simp [← isSome_rewriteBody?_iff, hb]
      exact .other hno
    | some out => exact .flag (rewriteBody?_eq_some_iff.1 hb)

/-- Texts are related line by line exactly if the pass makes the one of the other. -/
theorem forall₂_replaced_iff {ls ks : List Line} :
    List.Forall₂ Replaced ls ks ↔ (Line.rewriteEach rewriteBody? ls).1 = ks := by
  have hrel : Replaced =
      fun l k => { l with body := (rewriteBody? l.body).getD l.body } = k := by
    funext l k
    exact propext replaced_iff
  rw [hrel, Line.rewriteEach, ← List.forall₂_eq_eq_eq, List.forall₂_map_left_iff]

/-- Lines at the margin, lines without a colon (so that a value stands on a line of its own), keys
that hold another character than those of words, and values other than the plain `yes` and `no`. -/
inductive Exempt : List Char → Prop
  | unindented {body : List Char} : (∀ c ∈ body.head?, Line.isIndent c = false) → Exempt body
  | noColon {body : List Char} : ':' ∉ body → Exempt body
  | key {indent key value : List Char} : (∀ c ∈ indent, Line.isIndent c) →
      (∀ c ∈ key.head?, Line.isIndent c = false) → (∃ c ∈ key, Text.isWordChar c = false) →
      Exempt (indent ++ key ++ ':' :: value)
  | value {lead value : List Char} : ¬ IsTruthValue value → Exempt (lead ++ ':' :: value)

theorem Assigns.keyed {word new out : List Char} (hword : word = "yes".toList ∨ word = "no".toList)
    (h : Assigns word new body out) : ∃ indent key value : List Char, IsGap indent ∧ IsWord key ∧
      IsTruthValue value ∧ ':' ∉ value ∧ body = indent ++ key ++ ':' :: value := by
  obtain ⟨indent, key, blanks, after, hi, hk, hb, ha, hbody, -⟩ := h.cut
  refine ⟨indent, key, _, hi, hk, ⟨blanks, word, after, hb.2, hword, ha, rfl⟩, ?_, hbody⟩
  intro hc
  simp only [List.mem_append] at hc
  rcases hc with hc | hc | hc
  · exact absurd (hb.2 _ hc) (by decide)
  · rcases hword with rfl | rfl <;> simp at hc
  · exact absurd (ha _ hc) (by decide)

/-- The form of a line that is rewritten, whatever its value. -/
theorem IsFlag.keyed (h : IsFlag body) : ∃ indent key value : List Char, IsGap indent ∧ IsWord key ∧
    IsTruthValue value ∧ ':' ∉ value ∧ body = indent ++ key ++ ':' :: value := by
  obtain ⟨out, hyes | hno⟩ := h
  · exact hyes.keyed (Or.inl rfl)
  · exact hno.keyed (Or.inr rfl)

/-- No exempt line has the form of one that is rewritten. -/
theorem not_isFlag_of_exempt (h : Exempt body) : ¬ IsFlag body := by
  intro hflag
  -- The line holds one colon, so there is one way to cut it there.
  obtain ⟨indent, key, value, hi, hk, hvalue, hcolon, hbody⟩ := hflag.keyed
  cases h with
  | unindented hhead =>
    obtain ⟨c, r, rfl⟩ := List.exists_cons_of_ne_nil hi.1
    have hc := hi.2 c List.mem_cons_self
    rw [hhead c (by simp [hbody])] at hc
    exact absurd hc (by simp)
  | noColon hno => exact hno (by simp [hbody])
  | key hi' hhead hodd =>
    obtain ⟨hlead, -, -⟩ :=
      (List.append_cons_inj_of_notMem (colon_notMem_key hi hk) hcolon).1 hbody.symm
    have hword : ∀ c ∈ key.head?, Line.isIndent c = false := by
      intro c hc
      rw [Bool.eq_false_iff]
      intro hic
      have hnot := not_isWordChar_of_isIndent hic
      simp [hk.2 c (List.mem_of_head? hc)] at hnot
    obtain rfl := Line.rest_inj hi.2 hi' hword hhead hlead
    obtain ⟨c, hc, hodd⟩ := hodd
    simp [hk.2 c hc] at hodd
  | value hno =>
    obtain ⟨-, -, rfl⟩ :=
      (List.append_cons_inj_of_notMem (colon_notMem_key hi hk) hcolon).1 hbody.symm
    exact hno hvalue

/-- The pass rewrites the lines of its grammar, as the two searches one after the other do, and
counts them. The other lines and all endings stay. -/
theorem rewrite_grammar (s : String) :
    let pass := Line.onText rewrite s
    (∀ t : String, pass.1 = t ↔
      List.Forall₂ Replaced (Line.split s.toList) (Line.split t.toList)) ∧
    pass.2 = (Line.split s.toList).countP (fun l => IsFlag l.body) ∧
    (∀ (t : String) (n : ℕ), pass = (t, n) ↔ ∃ (middle : List Char) (j k : ℕ),
      (assignment "yes".toList "true".toList).Scans [] s.toList middle j ∧
      (assignment "no".toList "false".toList).Scans [] middle t.toList k ∧ n = j + k) ∧
    ∀ (i : ℕ) (l : Line), (Line.split s.toList)[i]? = some l → Exempt l.body →
      (Line.split pass.1.toList)[i]? = some l := by
  intro pass
  have hlines : Line.split pass.1.toList = (Line.rewriteEach rewriteBody? (Line.split s.toList)).1 :=
    Line.split_onText keepsBodies s
  refine ⟨fun t => ?_, ?_, fun t n => ?_, fun i l hl hexempt => ?_⟩
  · rw [← Line.split_toList_inj, hlines, forall₂_replaced_iff]
  · show ((Line.split s.toList).countP fun l => (rewriteBody? l.body).isSome) = _
    refine List.countP_congr fun l _ => ?_
    rw [isSome_rewriteBody?_iff, decide_eq_true_eq]
  · have hyes : ∀ c ∈ "yes".toList, Line.isBreak c = false := by simp [Line.isBreak]
    have hno : ∀ c ∈ "no".toList, Line.isBreak c = false := by simp [Line.isBreak]
    refine LinePattern.onText_eq_iff_scans (definite_assignment hyes) (definite_assignment hno)
      ?_ keepsBodies ?_
    · intro b out
      rw [rewrites_assignment, rewrites_assignment, rewriteBody?_eq_some_iff]
      rfl
    · -- The second search does not come upon what the first wrote.
      intro b out out' h h'
      rw [rewrites_assignment] at h h'
      have hsettled := rewriteBody?_settles (rewriteBody?_eq_some_iff.2 (Or.inl h))
      rw [rewriteBody?_eq_some_iff.2 (Or.inr h')] at hsettled
      exact absurd hsettled (by simp)
  · have hnone : rewriteBody? l.body = none := by
      rw [← Option.not_isSome_iff_eq_none, isSome_rewriteBody?_iff]
      exact not_isFlag_of_exempt hexempt
    rw [hlines, Line.rewriteEach, List.getElem?_map, hl, Option.map_some, hnone, Option.getD_none]

end PlaybookTidy.Truthy
