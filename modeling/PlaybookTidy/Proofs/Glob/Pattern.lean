import PlaybookTidy.Glob.Match

/-!
Reading patterns. The rules say what a text means as a pattern, whatever its position; an escaped
text is a pattern that only that text matches.
-/

namespace PlaybookTidy.Glob

/-- The tokens of a text; a wildcard for any depth needs the start of a component before it. -/
inductive Reads : Bool → List Char → List Token → Prop
  | nil (start : Bool) : Reads start [] []
  | anyChar {start s ts} : Reads false s ts → Reads start ('?' :: s) (.anyChar :: ts)
  | lastDepth : Reads true ['*', '*'] [.anyDepth]
  | anyDepth {s ts} : Reads true s ts → Reads true ('*' :: '*' :: '/' :: s) (.anyDepth :: ts)
  | anySequence {start s ts} : s.head? ≠ some '*' → Reads false s ts →
      Reads start ('*' :: s) (.anySequence :: ts)
  | set {start s r t ts} : readSet? s = some (t, r) → Reads false r ts →
      Reads start ('[' :: s) (t :: ts)
  | char {start c s ts} : c ≠ '?' → c ≠ '*' → c ≠ '[' → Reads (c = '/') s ts →
      Reads start (c :: s) (.char c :: ts)

theorem bind_ok {ε α β : Type} {x : Except ε α} {f : α → β} {b : β}
    (h : (do return f (← x)) = Except.ok b) : ∃ a, x = .ok a ∧ f a = b := by
  cases x with
  | error e => simp [bind, Except.bind] at h
  | ok a => exact ⟨a, rfl, by simpa [bind, Except.bind, pure, Except.pure] using h⟩

/-- What is read as tokens has these tokens by the rules for patterns. -/
theorem reads_of_tokensFrom {i : Nat} {before : Option Char} {s : List Char} {ts : List Token}
    (h : tokensFrom i before s = .ok ts) :
    Reads (before = none || before = some '/') s ts := by
  -- Each case in which the reader goes on is a rule for patterns.
  fun_induction tokensFrom i before s generalizing ts with
  | case1 =>
    obtain rfl := Except.ok.inj h
    exact .nil _
  | case2 i before s ih =>
    obtain ⟨rest, hrest, rfl⟩ := bind_ok h
    exact .anyChar (ih hrest)
  | case3 => simp at h
  | case4 i before hstart =>
    obtain rfl := Except.ok.inj h
    rw [hstart]
    exact .lastDepth
  | case5 i before hstart s _ ih =>
    obtain ⟨rest, hrest, rfl⟩ := bind_ok h
    rw [hstart]
    exact .anyDepth (ih hrest)
  | case6 => simp at h
  | case7 => simp at h
  | case8 i before s _ hs ih =>
    obtain ⟨rest, hrest, rfl⟩ := bind_ok h
    apply Reads.anySequence _ (ih hrest)
    intro hhead
    obtain ⟨r, rfl⟩ := List.head?_eq_some_iff.1 hhead
    exact hs r rfl
  | case9 i before s t r hset _ ih =>
    obtain ⟨rest, hrest, rfl⟩ := bind_ok h
    exact .set hset (ih hrest)
  | case10 => simp at h
  | case11 i before c s hany _ _ hsequence hset ih =>
    obtain ⟨rest, hrest, rfl⟩ := bind_ok h
    exact .char hany hsequence hset (by simpa using ih hrest)

/-- A text that has tokens by the rules is read as these tokens, wherever it stands in a pattern. -/
theorem tokensFrom_of_reads {start : Bool} {s : List Char} {ts : List Token}
    (h : Reads start s ts) (i : Nat) (before : Option Char)
    (hb : (decide (before = none) || decide (before = some '/')) = start) :
    tokensFrom i before s = .ok ts := by
  -- `i` only says where an error is, and what stands before matters to `**` alone.
  induction h generalizing i before with
  | nil => rw [tokensFrom]
  | anyChar h ih =>
    rw [tokensFrom, ih (i + 1) _ rfl]
    rfl
  | lastDepth => rw [tokensFrom, if_pos hb]
  | anyDepth h ih =>
    have hrest := ih (i + 3) (some '/') rfl
    rw [tokensFrom, if_pos hb]
    simp only [hrest]
    rfl
  | anySequence hs h ih =>
    rw [tokensFrom, ih (i + 1) _ rfl]
    · rfl
    · rintro r rfl
      exact hs rfl
    · rintro r rfl
      exact hs rfl
  | set hr h ih =>
    rw [tokensFrom]
    split
    · rename_i t' r' hr'
      obtain ⟨rfl, rfl⟩ := Prod.mk.inj (Option.some.inj (hr.symm.trans hr'))
      simp only [ih _ (some ']') rfl]
      rfl
    · rename_i hnone
      simp [hr] at hnone
  | char hany hsequence hset h ih =>
    rw [tokensFrom, ih (i + 1) (some _) (by simp)]
    · rfl
    · exact hany
    · exact fun _ hc => absurd hc hsequence
    · exact fun _ hc => absurd hc hsequence
    · exact hsequence
    · exact hset

/-- Position and what stands before play no part beyond the start of a component. -/
theorem tokensFrom_eq_ok_iff {i : Nat} {before : Option Char} {s : List Char} {ts : List Token} :
    tokensFrom i before s = .ok ts ↔ Reads (before = none || before = some '/') s ts :=
  ⟨reads_of_tokensFrom, fun h => tokensFrom_of_reads h i before rfl⟩

theorem parse_eq_ok_iff {s : List Char} {ts : List Token} :
    parse s = .ok ts ↔ Reads true s ts :=
  tokensFrom_eq_ok_iff

def quoted (c : Char) : Token := if isSpecial c then .within [.single c] else .char c

/-- The set that stands for a special character holds that character alone. -/
theorem readSet?_special {c : Char} (hc : isSpecial c = true) (r : List Char) :
    readSet? (c :: ']' :: r) = some (.within [.single c], r) := by
  have hbang : c ≠ '!' := by
    rintro rfl
    simp [isSpecial] at hc
  simp [readSet?, hbang, specifiers]

/-- An escaped text stands before any text that reads the same at both places. -/
theorem reads_escape_append {s r : List Char} {ts : List Token} {start : Bool}
    (h : ∀ start, Reads start r ts) :
    Reads start (escape s ++ r) (s.map quoted ++ ts) := by
  induction s generalizing start with
  | nil => exact h start
  | cons c s ih =>
    have hcons : escape (c :: s) = (if isSpecial c then ['[', c, ']'] else [c]) ++ escape s := rfl
    rw [hcons, List.map_cons, quoted]
    by_cases hc : isSpecial c = true
    · rw [if_pos hc, if_pos hc]
      exact .set (readSet?_special hc _) ih
    · rw [if_neg hc, if_neg hc]
      simp only [isSpecial, Bool.or_eq_true, decide_eq_true_eq, not_or] at hc
      exact .char hc.1.1.1 hc.1.1.2 hc.1.2 ih

/-- What stands after an escaped text is read after it. -/
theorem reads_of_escape_append {s r : List Char} {ts : List Token} {start : Bool}
    (h : Reads start (escape s ++ r) ts) : ∃ start' rest, Reads start' r rest := by
  induction s generalizing start ts with
  | nil => exact ⟨start, ts, h⟩
  | cons c s ih =>
    have hcons : escape (c :: s) = (if isSpecial c then ['[', c, ']'] else [c]) ++ escape s := rfl
    rw [hcons] at h
    by_cases hc : isSpecial c = true
    · rw [if_pos hc] at h
      have hset : readSet? (c :: ']' :: (escape s ++ r)) =
          some (.within [.single c], escape s ++ r) := readSet?_special hc _
      cases h with
      | set hr h =>
        obtain ⟨-, rfl⟩ := Prod.mk.inj (Option.some.inj (hset.symm.trans hr))
        exact ih h
      | char _ _ hne => exact absurd rfl hne
    · rw [if_neg hc] at h
      simp only [isSpecial, Bool.or_eq_true, decide_eq_true_eq, not_or] at hc
      -- No wildcard begins with this character.
      generalize hu : [c] ++ escape s ++ r = u at h
      cases h with
      | nil => simp at hu
      | anyChar => exact absurd (List.cons.inj hu).1 hc.1.1.1
      | lastDepth => exact absurd (List.cons.inj hu).1 hc.1.1.2
      | anyDepth => exact absurd (List.cons.inj hu).1 hc.1.1.2
      | anySequence => exact absurd (List.cons.inj hu).1 hc.1.1.2
      | set => exact absurd (List.cons.inj hu).1 hc.1.2
      | char _ _ _ h =>
        obtain ⟨-, rfl⟩ := List.cons.inj hu
        exact ih h

theorem reads_escape (start : Bool) (s : List Char) : Reads start (escape s) (s.map quoted) := by
  have h : Reads start (escape s ++ []) (s.map quoted ++ []) := reads_escape_append Reads.nil
  simpa using h

/-- An escaped text matches itself and nothing else. -/
theorem accepts_quoted {s r : List Char} : accepts (s.map quoted) r ↔ r = s := by
  induction s generalizing r with
  | nil => exact accepts_nil_iff
  | cons c s ih =>
    have hadmits : ∀ d, (quoted c).admits d ↔ d = c := by
      intro d
      unfold quoted
      split <;> simp [Token.admits, Specifier.admits, eq_comm]
    have hs : quoted c ≠ .anySequence := by unfold quoted; split <;> simp
    have hd : quoted c ≠ .anyDepth := by unfold quoted; split <;> simp
    rw [List.map_cons, accepts_single_iff hs hd]
    constructor
    · rintro ⟨d, q, rfl, hd, hq⟩
      rw [(hadmits d).1 hd, ih.1 hq]
    · rintro rfl
      exact ⟨c, s, rfl, (hadmits c).2 rfl, ih.2 rfl⟩

theorem ne_char_of_readSet? {s r : List Char} {t : Token} (h : readSet? s = some (t, r))
    (c : Char) : t ≠ .char c := by
  rintro rfl
  unfold readSet? at h
  split at h
  · split at h <;> simp at h
  · split at h <;> simp at h
  · simp at h

theorem suffix_of_readSet? {s r : List Char} {t : Token} (h : readSet? s = some (t, r)) :
    r <:+ s := by
  have hrest : ∀ q : List Char, (q.dropWhile (· ≠ ']')).drop 1 <:+ q := by
    intro q
    exact (List.drop_suffix 1 _).trans (List.dropWhile_suffix _)
  unfold readSet? at h
  split at h
  · rename_i a q
    split at h
    · simp only [Option.some.injEq, Prod.mk.injEq] at h
      rw [← h.2]
      exact (hrest q).trans ((List.suffix_cons a q).trans (List.suffix_cons '!' _))
    · simp at h
  · rename_i a q _
    split at h
    · simp only [Option.some.injEq, Prod.mk.injEq] at h
      rw [← h.2]
      exact (hrest q).trans (List.suffix_cons a q)
    · simp at h
  · simp at h

/-- A character token at the front was written there. -/
theorem head_of_reads {start : Bool} {s : List Char} {ts : List Token} {c : Char}
    (h : Reads start s (.char c :: ts)) : s.head? = some c := by
  cases h with
  | set hr h => exact absurd rfl (ne_char_of_readSet? hr c)
  | char => rfl

theorem mem_of_reads {start : Bool} {s : List Char} {ts : List Token} {c : Char}
    (h : Reads start s ts) (hc : .char c ∈ ts) : c ∈ s := by
  induction h with
  | nil => simp at hc
  | anyChar _ ih => exact List.mem_cons_of_mem _ (ih (by simpa using hc))
  | lastDepth => simp at hc
  | anyDepth _ ih =>
    have hmem := ih (by simpa using hc)
    simp [hmem]
  | anySequence _ _ ih => exact List.mem_cons_of_mem _ (ih (by simpa using hc))
  | set hr _ ih =>
    have hne := ne_char_of_readSet? hr c
    have hmem := ih ((List.mem_cons.1 hc).resolve_left hne.symm)
    exact List.mem_cons_of_mem _ ((suffix_of_readSet? hr).subset hmem)
  | char _ _ _ _ ih =>
    rcases List.mem_cons.1 hc with hc | hc
    · obtain rfl := Token.char.inj hc
      exact List.mem_cons_self
    · exact List.mem_cons_of_mem _ (ih hc)

end PlaybookTidy.Glob
