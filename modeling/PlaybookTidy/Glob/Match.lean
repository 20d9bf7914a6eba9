import PlaybookTidy.Glob.Pattern

/-!
Which texts a pattern matches. A slash is a character like any other, except that `**` takes whole
components. The answers for all suffixes of a text are computed together, so the work is the length
of the pattern times the length of the text. The statements at the end say for each kind of token
which texts it takes.
-/

namespace PlaybookTidy.Glob

def Specifier.admits : Specifier → Char → Bool
  | single a, c => a = c
  | range lo hi, c => lo ≤ c && c ≤ hi

/-- The characters of which a token takes one. -/
def Token.admits : Token → Char → Bool
  | char a, c => a = c
  | anyChar, _ => true
  | within set, c => set.any fun m => m.admits c
  | outside set, c => !set.any fun m => m.admits c
  | anySequence, _ | anyDepth, _ => false

/-- The answers of the empty pattern: yes for the empty suffix. -/
def emptyAnswers : List Char → List Bool
  | [] => [true]
  | _ :: s => false :: emptyAnswers s

/-- The answers if a character that satisfies `p` comes first and `answers` hold after it. -/
def stepAnswers (p : Char → Bool) : List Char → List Bool → List Bool
  | c :: s, _ :: answers => (p c && answers.headD false) :: stepAnswers p s answers
  | _, _ => [false]

/-- For each suffix, whether `answers` has a yes further on, after a character that satisfies `p`. -/
def laterAnswers (p : Char → Bool) : List Char → List Bool → List Bool
  | c :: s, _ :: answers =>
    let later := laterAnswers p s answers
    ((p c && answers.headD false) || later.headD false) :: later
  | _, _ => [false]

/-- Whether tokens match the suffixes of a text, the whole text first. -/
def answers : List Token → List Char → List Bool
  | [], s => emptyAnswers s
  | [.anyDepth], s => true :: s.map fun _ => true
  | .anyDepth :: ts, s =>
    let rest := answers ts s
    List.zipWith or rest (laterAnswers (· = '/') s rest)
  | .anySequence :: ts, s =>
    let rest := answers ts s
    List.zipWith or rest (laterAnswers (fun _ => true) s rest)
  | t :: ts, s => stepAnswers t.admits s (answers ts s)

def accepts (ts : List Token) (s : List Char) : Bool := (answers ts s).headD false

theorem answers_anySequence (ts : List Token) (s : List Char) :
    answers (.anySequence :: ts) s =
      List.zipWith or (answers ts s) (laterAnswers (fun _ => true) s (answers ts s)) := rfl

/-- A wildcard for any depth takes nothing, or all up to a slash. -/
theorem answers_anyDepth {ts : List Token} (h : ts ≠ []) (s : List Char) :
    answers (.anyDepth :: ts) s =
      List.zipWith or (answers ts s) (laterAnswers (· = '/') s (answers ts s)) := by
  cases ts with
  | nil => exact absurd rfl h
  | cons t ts => rfl

theorem answers_single {t : Token} (hs : t ≠ .anySequence) (hd : t ≠ .anyDepth) (ts : List Token)
    (s : List Char) : answers (t :: ts) s = stepAnswers t.admits s (answers ts s) := by
  cases t <;> simp_all [answers]

/-- The answers for the suffixes of a text do not depend on what stands before them. -/
theorem exists_answers_cons (ts : List Token) (c : Char) (s : List Char) :
    ∃ a, answers ts (c :: s) = a :: answers ts s := by
  induction ts with
  | nil => exact ⟨false, rfl⟩
  | cons t ts ih =>
    obtain ⟨a, ha⟩ := ih
    by_cases hs : t = .anySequence
    · rw [hs, answers_anySequence, answers_anySequence, ha]
      exact ⟨_, rfl⟩
    · by_cases hd : t = .anyDepth
      · by_cases ht : ts = []
        · exact ⟨true, by rw [hd, ht]; rfl⟩
        · rw [hd, answers_anyDepth ht, answers_anyDepth ht, ha]
          exact ⟨_, rfl⟩
      · rw [answers_single hs hd, answers_single hs hd, ha]
        exact ⟨_, rfl⟩

theorem answers_cons (ts : List Token) (c : Char) (s : List Char) :
    answers ts (c :: s) = accepts ts (c :: s) :: answers ts s := by
  obtain ⟨a, ha⟩ := exists_answers_cons ts c s
  simp [accepts, ha]

theorem answers_nil (ts : List Token) : answers ts [] = [accepts ts []] := by
  have h : (answers ts []).length = 1 := by
    induction ts with
    | nil => rfl
    | cons t ts ih =>
      obtain ⟨a, ha⟩ := List.length_eq_one_iff.1 ih
      by_cases hs : t = .anySequence
      · simp [hs, answers_anySequence, ha, laterAnswers]
      · by_cases hd : t = .anyDepth
        · by_cases ht : ts = []
          · simp [hd, ht, answers]
          · simp [hd, answers_anyDepth ht, ha, laterAnswers]
        · simp [answers_single hs hd, stepAnswers]
  obtain ⟨a, ha⟩ := List.length_eq_one_iff.1 h
  simp [accepts, ha]

/-- A yes further on is a match of what comes after a character that satisfies `p`. -/
theorem headD_laterAnswers_iff {p : Char → Bool} {ts : List Token} {s : List Char} :
    (laterAnswers p s (answers ts s)).headD false = true ↔
      ∃ a c b, s = a ++ c :: b ∧ p c ∧ accepts ts b := by
  induction s with
  | nil => simp [laterAnswers]
  | cons c s ih =>
    rw [answers_cons]
    simp only [laterAnswers, List.headD_cons, Bool.or_eq_true, Bool.and_eq_true, ih]
    constructor
    · rintro (⟨hp, hs⟩ | ⟨a, d, b, rfl, hp, hb⟩)
      · exact ⟨[], c, s, rfl, hp, hs⟩
      · exact ⟨c :: a, d, b, rfl, hp, hb⟩
    · rintro ⟨a, d, b, hs, hp, hb⟩
      cases a with
      | nil =>
        obtain ⟨rfl, rfl⟩ := List.cons.inj hs
        exact Or.inl ⟨hp, hb⟩
      | cons e a =>
        obtain ⟨rfl, rfl⟩ := List.cons.inj hs
        exact Or.inr ⟨a, d, b, rfl, hp, hb⟩

/-- A token for any number of characters takes none, or some that end with one that satisfies `p`. -/
theorem headD_zipWith_later_iff {p : Char → Bool} {ts : List Token} {s : List Char} :
    (List.zipWith or (answers ts s) (laterAnswers p s (answers ts s))).headD false = true ↔
      accepts ts s ∨ ∃ a c b, s = a ++ c :: b ∧ p c ∧ accepts ts b := by
  rw [← headD_laterAnswers_iff]
  cases s with
  | nil => simp [answers_nil, laterAnswers]
  | cons c s => simp [answers_cons, laterAnswers]

theorem accepts_nil_iff {s : List Char} : accepts [] s ↔ s = [] := by
  cases s <;> simp [accepts, answers, emptyAnswers]

/-- A token for one character takes one that it admits. -/
theorem accepts_single_iff {t : Token} {ts : List Token} {s : List Char} (hs : t ≠ .anySequence)
    (hd : t ≠ .anyDepth) :
    accepts (t :: ts) s ↔ ∃ c r, s = c :: r ∧ t.admits c ∧ accepts ts r := by
  rw [accepts, answers_single hs hd]
  cases s with
  | nil => simp [stepAnswers]
  | cons c r =>
    rw [answers_cons]
    simp only [stepAnswers, List.headD_cons, Bool.and_eq_true]
    constructor
    · exact fun h => ⟨c, r, rfl, h⟩
    · rintro ⟨d, q, h, hq⟩
      obtain ⟨rfl, rfl⟩ := List.cons.inj h
      exact hq

/-- Any sequence takes any number of characters. -/
theorem accepts_anySequence_iff {ts : List Token} {s : List Char} :
    accepts (.anySequence :: ts) s ↔ ∃ a b, s = a ++ b ∧ accepts ts b := by
  rw [accepts, answers_anySequence, headD_zipWith_later_iff]
  constructor
  · rintro (h | ⟨a, c, b, rfl, -, h⟩)
    · exact ⟨[], s, rfl, h⟩
    · exact ⟨a ++ [c], b, by simp, h⟩
  · rintro ⟨a, b, rfl, h⟩
    rcases List.eq_nil_or_concat a with rfl | ⟨a, c, rfl⟩
    · exact Or.inl h
    · exact Or.inr ⟨a, c, b, by simp, rfl, h⟩

/-- Any depth takes everything at the end of a pattern. -/
theorem accepts_anyDepth (s : List Char) : accepts [.anyDepth] s := rfl

/-- Elsewhere any depth takes nothing, or all up to a slash and that slash. -/
theorem accepts_anyDepth_iff {ts : List Token} {s : List Char} (h : ts ≠ []) :
    accepts (.anyDepth :: ts) s ↔
      accepts ts s ∨ ∃ a b, s = a ++ '/' :: b ∧ accepts ts b := by
  rw [accepts, answers_anyDepth h, headD_zipWith_later_iff]
  simp only [decide_eq_true_eq]
  constructor
  · rintro (hs | ⟨a, c, b, rfl, rfl, hb⟩)
    · exact Or.inl hs
    · exact Or.inr ⟨a, b, rfl, hb⟩
  · rintro (hs | ⟨a, b, rfl, hb⟩)
    · exact Or.inl hs
    · exact Or.inr ⟨a, '/', b, rfl, rfl, hb⟩

end PlaybookTidy.Glob
