import PlaybookTidy.Proofs.Bytes
import PlaybookTidy.Proofs.Pass.Naming
import PlaybookTidy.Proofs.Scan

/-!
The pass for names, told letter by letter. It raises the ASCII lower-case letters that stand right
after a lead at the start of a line, and nothing else in the text changes.
-/

namespace PlaybookTidy.Naming

open Line (StartsAt Regular join split rewriteEach isBreak)

variable {before s out body tail lead x y : List Char} {c : Char} {n : ℕ}

/-- What stands before a place in a text ends with a lead that begins a line. -/
def FollowsLead (before after : List Char) : Prop :=
  ∃ earlier lead, before = earlier ++ lead ∧ StartsAt earlier (lead ++ after) ∧ IsLead lead

/-- The letters right after a lead are raised, and counted. The text begins after `before`. -/
inductive Raises : List Char → List Char → List Char → ℕ → Prop
  | done (before : List Char) : Raises before [] [] 0
  | keep {before : List Char} {c : Char} {s out : List Char} {n : ℕ} :
      ¬ (c.isLower ∧ FollowsLead before (c :: s)) → Raises (before ++ [c]) s out n →
      Raises before (c :: s) (c :: out) n
  | raise {before : List Char} {c : Char} {s out : List Char} {n : ℕ} :
      c.isLower → FollowsLead before (c :: s) → Raises (before ++ [c]) s out n →
      Raises before (c :: s) (c.toUpper :: out) (n + 1)

theorem toUpper_ne_self (h : c.isLower) : c.toUpper ≠ c := by
  intro he
  have hup := isLower_toUpper h
  rw [he, h] at hup
  exact absurd hup (by simp)

theorem Raises.length_eq (h : Raises before s out n) : out.length = s.length := by
  induction h with
  | done => rfl
  | keep _ _ ih => rw [List.length_cons, ih, List.length_cons]
  | raise _ _ _ ih => rw [List.length_cons, ih, List.length_cons]

/-- The number is that of the places in which the texts differ. -/
theorem Raises.eq_countP (h : Raises before s out n) :
    n = (s.zip out).countP fun p => p.1 ≠ p.2 := by
  induction h with
  | done => rfl
  | keep _ _ ih => simp [ih]
  | raise hc _ _ ih =>
    have hne := (toUpper_ne_self hc).symm
    simp [ih, hne]

/-- Both letters are one byte. -/
theorem length_utf8EncodeChar_toUpper (h : c.isLower) :
    (String.utf8EncodeChar c.toUpper).length = (String.utf8EncodeChar c).length := by
  have hc := isLower_iff.1 h
  have hu := toNat_toUpper h
  have hone : ∀ d : Char, d.toNat ≤ 127 → (String.utf8EncodeChar d).length = 1 := by
    intro d hd
    simp [String.utf8EncodeChar, hd]
  rw [hone c (by omega), hone c.toUpper (by omega)]

/-- A letter and its upper-case one take one byte each, so the text keeps its size. -/
theorem Raises.length_bytes (h : Raises before s out n) :
    (out.flatMap String.utf8EncodeChar).length = (s.flatMap String.utf8EncodeChar).length := by
  induction h with
  | done => rfl
  | keep _ _ ih => simp [ih]
  | raise hc _ _ ih => simp [ih, length_utf8EncodeChar_toUpper hc]

/-- What becomes of the character at a place. -/
theorem Raises.getElem? (h : Raises before s out n) (hs : s = x ++ c :: y) :
    ∃ d, out[x.length]? = some d ∧ (d ≠ c → d = c.toUpper) ∧
      (d ≠ c ↔ c.isLower ∧ FollowsLead (before ++ x) (c :: y)) := by
  -- The place is that of the first character left, or further on.
  induction h generalizing x with
  | done => simp at hs
  | keep hno _ ih =>
    cases x with
    | nil =>
      obtain ⟨rfl, rfl⟩ := List.cons.inj hs
      refine ⟨_, rfl, fun hd => absurd rfl hd, ?_⟩
      simpa using hno
    | cons e x =>
      obtain ⟨rfl, rfl⟩ := List.cons.inj hs
      simpa using ih rfl
  | raise hc hlead _ ih =>
    cases x with
    | nil =>
      obtain ⟨rfl, rfl⟩ := List.cons.inj hs
      refine ⟨_, rfl, fun _ => rfl, ?_⟩
      simpa [toUpper_ne_self hc, hc] using hlead
    | cons e x =>
      obtain ⟨rfl, rfl⟩ := List.cons.inj hs
      simpa using ih rfl

/-- Characters that follow no lead, or that are no lower-case letters, are passed over. -/
theorem Raises.pass {passed : List Char}
    (hpassed : ∀ x c y, passed = x ++ c :: y → c.isLower →
      ¬ FollowsLead (before ++ x) (c :: (y ++ s)))
    (h : Raises (before ++ passed) s out n) : Raises before (passed ++ s) (passed ++ out) n := by
  induction passed generalizing before with
  | nil => simpa using h
  | cons c passed ih =>
    refine .keep ?_ (ih ?_ (by simpa using h))
    · rintro ⟨hc, hlead⟩
      exact hpassed [] c passed rfl hc (by simpa using hlead)
    · intro x d y hxy
      simpa using hpassed (c :: x) d y (by simp [hxy])

theorem noBreak_lead (h : IsLead lead) : ∀ c ∈ lead, isBreak c = false := by
  have hitem : ∀ c ∈ "- name: ".toList, isBreak c = false := by simp [isBreak]
  have hnotify : ∀ c ∈ "notify: ".toList, isBreak c = false := by simp [isBreak]
  obtain ⟨indent, hi, rfl | ⟨-, rfl⟩⟩ := h
  · intro c hc
    rcases List.mem_append.1 hc with hc | hc
    · exact Line.isBreak_of_isIndent (hi c hc)
    · exact hitem c hc
  · intro c hc
    rcases List.mem_append.1 hc with hc | hc
    · exact Line.isBreak_of_isIndent (hi c hc)
    · exact hnotify c hc

/-- One text has one lead at the most. -/
theorem lead_inj {lead' s' : List Char} (h : IsLead lead) (h' : IsLead lead')
    (heq : lead ++ s = lead' ++ s') : lead = lead' ∧ s = s' := by
  have hkey := afterKey?_lead h s
  rw [heq, afterKey?_lead h' s'] at hkey
  simpa [eq_comm] using hkey

/-- No lead goes on to another one. -/
theorem eq_nil_of_lead_append (h : IsLead lead) (h' : IsLead (lead ++ s)) : s = [] := by
  have hone : lead = lead ++ s ∧ s = [] := lead_inj h h' (by simp)
  exact hone.2

/-- Within a line the lead is all that stands before the place. -/
theorem followsLead_iff {rest : List Char} (hstart : StartsAt before (body ++ rest))
    (hb : ∀ c ∈ body, isBreak c = false) :
    FollowsLead (before ++ body) rest ↔ IsLead body := by
  constructor
  · rintro ⟨earlier, lead, heq, hline, hlead⟩
    rcases List.append_eq_append_iff.1 heq with ⟨extra, rfl, rfl⟩ | ⟨extra, rfl, rfl⟩
    · rcases List.eq_nil_or_concat extra with rfl | ⟨x, c, rfl⟩
      · exact hlead
      · exact absurd hline (Line.not_startsAt (by simp) (hb c (by simp)) _)
    · rcases List.eq_nil_or_concat extra with rfl | ⟨x, c, rfl⟩
      · exact hlead
      · exact absurd hstart (Line.not_startsAt (by simp) (noBreak_lead hlead c (by simp)) _)
  · exact fun h => ⟨before, body, rfl, hstart, h⟩

/-- From the start of a line on, the letter after its lead is raised. -/
theorem Raises.line (hstart : StartsAt before (body ++ tail))
    (hb : ∀ c ∈ body, isBreak c = false) (h : Raises (before ++ body) tail out n) :
    Raises before (body ++ tail) ((rewriteBody? body).getD body ++ out)
      (n + (rewriteBody? body).isSome.toNat) := by
  -- A place in the line follows a lead only if that is what the line begins with.
  have hplace : ∀ x c y, body = x ++ c :: y → FollowsLead (before ++ x) (c :: (y ++ tail)) →
      IsLead x := by
    rintro x c y rfl hlead
    refine (followsLead_iff ?_ fun d hd => hb d (by simp [hd])).1 hlead
    simpa using hstart
  cases hbody : rewriteBody? body with
  | none =>
    refine Raises.pass ?_ (by simpa using h)
    intro x c y hxy hc hlead
    have hsome := rewriteBody?_eq_some_iff.2 ⟨x, c, y, hplace x c y hxy hlead, hc, hxy, rfl⟩
    simp [hbody] at hsome
  | some b' =>
    obtain ⟨lead, c, rest, hlead, hc, rfl, rfl⟩ := rewriteBody?_eq_some_iff.1 hbody
    -- From the end of the line to its start: what follows the letter, the letter, the lead.
    have hrest : Raises (before ++ lead ++ [c]) (rest ++ tail) (rest ++ out) n := by
      refine Raises.pass ?_ (by simpa using h)
      rintro x d y rfl - hfollows
      have hlong := hplace (lead ++ c :: x) d y (by simp) (by simpa using hfollows)
      exact absurd (eq_nil_of_lead_append hlead hlong) (List.cons_ne_nil c x)
    have hletter : Raises (before ++ lead) (c :: (rest ++ tail)) (c.toUpper :: (rest ++ out))
        (n + 1) := by
      refine .raise hc ((followsLead_iff ?_ (noBreak_lead hlead)).2 hlead) hrest
      simpa using hstart
    have hall : Raises before (lead ++ c :: (rest ++ tail))
        (lead ++ c.toUpper :: (rest ++ out)) (n + 1) := by
      refine Raises.pass ?_ hletter
      rintro x d y rfl - hfollows
      have hshort := hplace x d (y ++ c :: rest) (by simp) (by simpa using hfollows)
      exact absurd (eq_nil_of_lead_append hshort hlead) (List.cons_ne_nil d y)
    simpa using hall

/-- By induction on the lines, the letters behind the leads of a text are raised. -/
theorem raises_join {ls : List Line} (hr : Regular ls)
    (hstart : ls ≠ [] → StartsAt before (join ls)) :
    Raises before (join ls) (join (rewriteEach rewriteBody? ls).1)
      (rewriteEach rewriteBody? ls).2 := by
  induction ls generalizing before with
  | nil => exact .done before
  | cons l ls ih =>
    have hnext := ih hr.2.2.2 fun hne => Line.startsAt_next hr hne before
    have htail : Raises (before ++ l.body) (l.ending.chars ++ join ls)
        (l.ending.chars ++ join (rewriteEach rewriteBody? ls).1)
        (rewriteEach rewriteBody? ls).2 := by
      refine Raises.pass ?_ hnext
      rintro x c y hxy hc -
      have hbreak : isBreak c := Line.isBreak_of_mem_ending (e := l.ending) (by simp [hxy])
      rcases Line.isBreak_iff.1 hbreak with rfl | rfl <;> exact absurd hc (by decide)
    have hline := hstart (List.cons_ne_nil l ls)
    rw [Line.join_cons] at hline ⊢
    rw [Line.rewriteEach_cons, Line.join_cons]
    exact Raises.line hline hr.1 htail

/-- The pass raises the letters of a text. -/
theorem raises_onText (s : String) :
    Raises [] s.toList (Line.onText rewrite s).1.toList (Line.onText rewrite s).2 := by
  have h : Raises [] (join (split s.toList)) (join (rewriteEach rewriteBody? (split s.toList)).1)
      (rewriteEach rewriteBody? (split s.toList)).2 :=
    raises_join (Line.regular_split s.toList) fun _ => Or.inl rfl
  rw [Line.join_split] at h
  simpa [Line.onText, rewrite] using h

def IsNameLead (lead : List Char) : Prop :=
  ∃ indent : List Char, (∀ c ∈ indent, Line.isIndent c) ∧ lead = indent ++ "- name: ".toList

def IsReferenceLead (lead : List Char) : Prop :=
  ∃ indent : List Char, indent ≠ [] ∧ (∀ c ∈ indent, Line.isIndent c) ∧
    lead = indent ++ "notify: ".toList

theorem isLead_iff : IsLead lead ↔ IsNameLead lead ∨ IsReferenceLead lead := by
  constructor
  · rintro ⟨indent, hi, rfl | ⟨hne, rfl⟩⟩
    · exact Or.inl ⟨indent, hi, rfl⟩
    · exact Or.inr ⟨indent, hne, hi, rfl⟩
  · rintro (⟨indent, hi, rfl⟩ | ⟨indent, hne, hi, rfl⟩)
    · exact ⟨indent, hi, Or.inl rfl⟩
    · exact ⟨indent, hi, Or.inr ⟨hne, rfl⟩⟩

/-- A lead and a lower-case letter at the start of a line, as a pattern. -/
def capital (isLead : List Char → Prop) : LinePattern where
  takes taken put :=
    ∃ lead c, isLead lead ∧ c.isLower ∧ taken = lead ++ [c] ∧ put = lead ++ [c.toUpper]
  whole := False

variable {isLead : List Char → Prop}

theorem rewrites_capital : (capital isLead).Rewrites body out ↔
    ∃ lead c s, isLead lead ∧ c.isLower ∧ body = lead ++ c :: s ∧ out = lead ++ c.toUpper :: s := by
  constructor
  · rintro ⟨taken, put, s, ⟨lead, c, hlead, hc, rfl, rfl⟩, -, rfl, rfl⟩
    exact ⟨lead, c, s, hlead, hc, by simp, by simp⟩
  · rintro ⟨lead, c, s, hlead, hc, rfl, rfl⟩
    exact ⟨_, _, s, ⟨lead, c, hlead, hc, rfl, rfl⟩, False.elim, by simp, by simp⟩

/-- A lead ends where its key does, so there is one way to find it. -/
theorem definite_capital (h : ∀ lead, isLead lead → IsLead lead) :
    (capital isLead).Definite where
  ne_nil := by
    rintro taken put ⟨lead, c, -, -, rfl, -⟩
    simp
  noBreak := by
    rintro taken put ⟨lead, c, hlead, hc, rfl, -⟩ d hd
    rcases List.mem_append.1 hd with hd | hd
    · exact noBreak_lead (h lead hlead) d hd
    · obtain rfl := List.mem_singleton.1 hd
      rw [Bool.eq_false_iff]
      intro hbreak
      rcases Line.isBreak_iff.1 hbreak with rfl | rfl <;> exact absurd hc (by decide)
  unique := by
    rintro _ _ _ _ rest rest' ⟨lead, c, hlead, hc, rfl, rfl⟩ ⟨lead', c', hlead', hc', rfl, rfl⟩
      heq -
    rw [List.append_assoc, List.append_assoc] at heq
    obtain ⟨rfl, hletter⟩ := lead_inj (h lead hlead) (h lead' hlead') heq
    obtain ⟨rfl, -⟩ := List.cons.inj hletter
    exact ⟨rfl, rfl⟩

/-- Two texts that are equal up to the case of an ASCII letter in front. -/
def SameName (x y : List Char) : Prop :=
  x = y ∨ ∃ c s, c.isLower ∧ (x = c :: s ∧ y = c.toUpper :: s ∨ x = c.toUpper :: s ∧ y = c :: s)

/-- Names become equal exactly if they differ in the case of their first letter or not at all. -/
theorem capitalize_eq_iff : capitalize x = capitalize y ↔ SameName x y := by
  have hraise : ∀ {c : Char} (s : List Char), c.isLower →
      capitalize (c.toUpper :: s) = capitalize (c :: s) := by
    intro c s hc
    simp [capitalize, hc, isLower_toUpper hc]
  -- Texts that differ become the same if one begins with the letter that the other is raised to.
  constructor
  · intro h
    cases x with
    | nil =>
      cases y with
      | nil => exact Or.inl rfl
      | cons d t => by_cases hd : d.isLower <;> simp [capitalize, hd] at h
    | cons c s =>
      cases y with
      | nil => by_cases hc : c.isLower <;> simp [capitalize, hc] at h
      | cons d t =>
        by_cases hc : c.isLower
        · by_cases hd : d.isLower
          · obtain ⟨hletter, rfl⟩ : c.toUpper = d.toUpper ∧ s = t := by
              simpa [capitalize, hc, hd] using h
            exact Or.inl (by rw [toUpper_inj hc hd hletter])
          · obtain ⟨rfl, rfl⟩ : c.toUpper = d ∧ s = t := by simpa [capitalize, hc, hd] using h
            exact Or.inr ⟨c, s, hc, Or.inl ⟨rfl, rfl⟩⟩
        · by_cases hd : d.isLower
          · obtain ⟨rfl, rfl⟩ : c = d.toUpper ∧ s = t := by simpa [capitalize, hc, hd] using h
            exact Or.inr ⟨d, s, hd, Or.inr ⟨rfl, rfl⟩⟩
          · exact Or.inl (by simpa [capitalize, hc, hd] using h)
  · rintro (rfl | ⟨c, s, hc, ⟨rfl, rfl⟩ | ⟨rfl, rfl⟩⟩)
    · rfl
    · exact (hraise s hc).symm
    · exact hraise s hc

/-- A line with a lead keeps it, and what follows is capitalized. -/
theorem getElem?_split_onText {s : String} {i : ℕ} {e : Ending} (h : IsLead lead)
    (hl : (split s.toList)[i]? = some ⟨lead ++ x, e⟩) :
    (split (Line.onText rewrite s).1.toList)[i]? = some ⟨lead ++ capitalize x, e⟩ := by
  have hlines : split (Line.onText rewrite s).1.toList =
      (rewriteEach rewriteBody? (split s.toList)).1 := Line.split_onText keepsBodies s
  rw [hlines, rewriteEach, List.getElem?_map, hl, Option.map_some, getD_rewriteBody?_lead h]

/-- The pass differs from its input in as many places as it counts: in the ASCII lower-case letters
right after a lead that begins a line, and these become upper-case ones. It does what the two
searches one after the other do. So two names or references agree after it exactly if they agreed
up to the case of the letter in front. -/
theorem rewrite_raises (s : String) :
    let pass := Line.onText rewrite s
    (pass.1.length = s.length ∧ (Text.bytes pass.1).length = (Text.bytes s).length) ∧
    pass.2 = ((s.toList.zip pass.1.toList).countP fun p => p.1 ≠ p.2) ∧
    (∀ (before after : List Char) (c : Char), s.toList = before ++ c :: after →
      ∃ d, pass.1.toList[before.length]? = some d ∧ (d ≠ c → d = c.toUpper) ∧
        (d ≠ c ↔ c.isLower ∧ FollowsLead before (c :: after))) ∧
    (∀ (t : String) (n : ℕ), pass = (t, n) ↔ ∃ (middle : List Char) (j k : ℕ),
      (capital IsNameLead).Scans [] s.toList middle j ∧
      (capital IsReferenceLead).Scans [] middle t.toList k ∧ n = j + k) ∧
    ∀ (s' : String) (i i' : ℕ) (lead lead' x x' : List Char) (e e' : Ending),
      IsLead lead → IsLead lead' → (split s.toList)[i]? = some ⟨lead ++ x, e⟩ →
      (split s'.toList)[i']? = some ⟨lead' ++ x', e'⟩ → ∃ y y' : List Char,
        (split pass.1.toList)[i]? = some ⟨lead ++ y, e⟩ ∧
        (split (Line.onText rewrite s').1.toList)[i']? = some ⟨lead' ++ y', e'⟩ ∧
        (y = y' ↔ SameName x x') := by
  intro pass
  have hraises : Raises [] s.toList pass.1.toList pass.2 := raises_onText s
  refine ⟨⟨?_, ?_⟩, hraises.eq_countP, fun before after c hs => hraises.getElem? hs,
    fun t n => ?_, ?_⟩
  · rw [← String.length_toList, ← String.length_toList, hraises.length_eq]
  · rw [Text.bytes_eq, Text.bytes_eq, hraises.length_bytes]
  · refine LinePattern.onText_eq_iff_scans
      (definite_capital fun lead h => isLead_iff.2 (Or.inl h))
      (definite_capital fun lead h => isLead_iff.2 (Or.inr h)) ?_ keepsBodies ?_
    · intro b out
      rw [rewriteBody?_eq_some_iff, rewrites_capital, rewrites_capital]
      simp only [isLead_iff, or_and_right, exists_or]
    · -- The second search does not come upon what the first wrote.
      intro b out out' h h'
      rw [rewrites_capital] at h h'
      obtain ⟨lead, c, r, hlead, hc, hb, hout⟩ := h
      obtain ⟨lead', c', r', hlead', hc', hb', hout'⟩ := h'
      have hsettled := rewriteBody?_settles
        (rewriteBody?_eq_some_iff.2 ⟨lead, c, r, isLead_iff.2 (Or.inl hlead), hc, hb, hout⟩)
      rw [rewriteBody?_eq_some_iff.2
        ⟨lead', c', r', isLead_iff.2 (Or.inr hlead'), hc', hb', hout'⟩] at hsettled
      exact absurd hsettled (by simp)
  · intro s' i i' lead lead' x x' e e' hlead hlead' hl hl'
    exact ⟨capitalize x, capitalize x', getElem?_split_onText hlead hl,
      getElem?_split_onText hlead' hl', capitalize_eq_iff⟩

end PlaybookTidy.Naming
