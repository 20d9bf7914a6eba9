import PlaybookTidy.Text.Line

/-!
Lists of lines that are the lines of a text. Splitting what such lines make up gives them back, and
a rewriting that keeps bodies free of line ends keeps a list of this kind.
-/

namespace PlaybookTidy.Line

/-- Line feeds and carriage returns, the characters that no body holds. -/
def isBreak (c : Char) : Bool := c = '\n' || c = '\r'

theorem isBreak_iff {c : Char} : isBreak c ↔ c = '\n' ∨ c = '\r' := by
  simp [isBreak]

theorem isIndent_iff {c : Char} : isIndent c ↔ c = ' ' ∨ c = '\t' := by
  simp [isIndent]

theorem isBreak_of_isIndent {c : Char} (h : isIndent c) : isBreak c = false := by
  rcases isIndent_iff.1 h with rfl | rfl <;> rfl

/-- The lines of a text: bodies without line ends, only the last line may lack an ending and then
is not empty, and no carriage return meets the line feed of the next line. -/
def Regular : List Line → Prop
  | [] => True
  | l :: ls =>
    (∀ c ∈ l.body, isBreak c = false) ∧ (l.ending = .absent → l.body ≠ [] ∧ ls = []) ∧
      (l.ending = .cr → ls.head? ≠ some ⟨[], .lf⟩) ∧ Regular ls

/-- Only a text that begins with a line feed has an empty first line that ends so. -/
theorem held_nil_of_head_splitAfter (held s : List Char)
    (h : (splitAfter held s).head? = some ⟨[], .lf⟩) : held = [] ∧ s.head? = some '\n' := by
  fun_induction splitAfter held s with
  | case1 => simp at h
  | case2 held hne => simp at h
  | case3 held s ih => simp at h
  | case4 held s _ ih => simp at h
  | case5 held s ih => simpa using h
  | case6 held c s _ _ _ ih => simpa using (ih h).1

/-- What a text is split into are the lines of a text. -/
theorem regular_splitAfter (held s : List Char) (hh : ∀ c ∈ held, isBreak c = false) :
    Regular (splitAfter held s) := by
  have hbody : ∀ c ∈ held.reverse, isBreak c = false := fun c hc => hh c (List.mem_reverse.1 hc)
  -- What is held has no break in it, so each line ends where the first one stands.
  fun_induction splitAfter held s with
  | case1 => exact trivial
  | case2 held hne =>
    refine ⟨hbody, fun _ => ⟨?_, rfl⟩, by simp, trivial⟩
    simpa using hne
  | case3 held s ih => exact ⟨hbody, by simp, by simp, ih (by simp) (by simp)⟩
  | case4 held s hs ih =>
    refine ⟨hbody, by simp, ?_, ih (by simp) (by simp)⟩
    -- A carriage return that ends a line alone has no line feed after it.
    intro _ hn
    obtain ⟨r, hr⟩ := List.head?_eq_some_iff.1 (held_nil_of_head_splitAfter _ _ hn).2
    exact hs r hr
  | case5 held s ih => exact ⟨hbody, by simp, by simp, ih (by simp) (by simp)⟩
  | case6 held c s _ hcr hlf ih =>
    have hheld : ∀ d ∈ c :: held, isBreak d = false := by
      intro d hd
      rcases List.mem_cons.1 hd with rfl | hd
      · simpa [isBreak] using ⟨hlf, hcr⟩
      · exact hh d hd
    exact ih hheld fun d hd => hheld d (List.mem_reverse.1 hd)

theorem regular_split (s : List Char) : Regular (split s) := regular_splitAfter [] s (by simp)

theorem splitAfter_append (held b s : List Char) (hb : ∀ c ∈ b, isBreak c = false) :
    splitAfter held (b ++ s) = splitAfter (b.reverse ++ held) s := by
  induction b generalizing held with
  | nil => rfl
  | cons c b ih =>
    have hc : ¬(c = '\n' ∨ c = '\r') := by
      simpa [isBreak] using hb c List.mem_cons_self
    have hstep : splitAfter held (c :: (b ++ s)) = splitAfter (c :: held) (b ++ s) := by
      rw [splitAfter]
      · exact fun r hr _ => hc (Or.inr hr)
      · exact fun hr => hc (Or.inr hr)
      · exact fun hr => hc (Or.inl hr)
    rw [List.cons_append, hstep, ih _ fun d hd => hb d (List.mem_cons_of_mem c hd)]
    simp

/-- A text without line ends is one line, unless it is empty. -/
theorem split_of_noBreak {b : List Char} (hne : b ≠ []) (hb : ∀ c ∈ b, isBreak c = false) :
    split b = [⟨b, .absent⟩] := by
  have h := splitAfter_append [] b [] hb
  simpa [split, splitAfter, hne] using h

/-- The first character of joined lines is a line feed only if the first line is empty and ends
with one. -/
theorem head_of_head_join {ls : List Line} (hr : Regular ls) (h : (join ls).head? = some '\n') :
    ls.head? = some ⟨[], .lf⟩ := by
  cases ls with
  | nil => simp [join] at h
  | cons l ls =>
    obtain ⟨body, ending⟩ := l
    obtain ⟨hb, ha, -, -⟩ := hr
    cases body with
    | nil =>
      cases ending with
      | absent => exact absurd rfl (ha rfl).1
      | lf => rfl
      | crlf => simp [join, chars, Ending.chars] at h
      | cr => simp [join, chars, Ending.chars] at h
    | cons c b =>
      have hc : c = '\n' := by simpa [join, chars] using h
      have := hb c List.mem_cons_self
      simp [hc, isBreak] at this

/-- Regular lines are the lines of the text that they make up. -/
theorem split_join {ls : List Line} (h : Regular ls) : split (join ls) = ls := by
  induction ls with
  | nil => rfl
  | cons l ls ih =>
    obtain ⟨body, ending⟩ := l
    obtain ⟨hb, ha, hcr, hr⟩ := h
    have hstep : split (join (⟨body, ending⟩ :: ls)) =
        splitAfter body.reverse (ending.chars ++ join ls) := by
      have := splitAfter_append [] body (ending.chars ++ join ls) hb
      simpa [split, join, chars] using this
    rw [hstep]
    cases ending with
    | absent =>
      obtain ⟨hne, rfl⟩ := ha rfl
      simpa [Ending.chars, join, splitAfter] using hne
    | lf => simpa [Ending.chars, splitAfter, split] using ih hr
    | crlf => simpa [Ending.chars, splitAfter, split] using ih hr
    | cr =>
      -- The text that follows does not begin with a line feed, so the carriage return ends a line.
      have hn : ∀ r, join ls = '\n' :: r → False := by
        intro r hj
        apply hcr rfl
        apply head_of_head_join hr
        rw [hj]
        rfl
      show splitAfter body.reverse ('\r' :: join ls) = _
      rw [splitAfter]
      · simpa [split] using ih hr
      · exact hn

/-- What may come after an ending: nothing after an absent one, and no line feed after a lone
carriage return. -/
def Follows (e : Ending) (s : List Char) : Prop :=
  (e = .absent → s.head? = none) ∧ (e = .cr → s.head? ≠ some '\n')

theorem Follows.congr {e : Ending} {s t : List Char} (h : Follows e s) (ht : t.head? = s.head?) :
    Follows e t := by
  rwa [Follows, ht]

/-- Lines are regular if the text after each of them may come after its ending. -/
theorem regular_cons_iff {l : Line} {ls : List Line} : Regular (l :: ls) ↔
    (∀ c ∈ l.body, isBreak c = false) ∧ (l.ending = .absent → l.body ≠ []) ∧
      Follows l.ending (join ls) ∧ Regular ls := by
  constructor
  · rintro ⟨hb, ha, hcr, hr⟩
    refine ⟨hb, fun he => (ha he).1, ⟨fun he => ?_, fun he hn => ?_⟩, hr⟩
    · rw [(ha he).2]
      rfl
    · exact hcr he (head_of_head_join hr hn)
  · rintro ⟨hb, hne, ⟨ha, hcr⟩, hr⟩
    refine ⟨hb, fun he => ⟨hne he, ?_⟩, fun he hn => hcr he ?_, hr⟩
    · rw [← split_join hr, List.head?_eq_none_iff.1 (ha he)]
      rfl
    · obtain ⟨ks, rfl⟩ := List.head?_eq_some_iff.1 hn
      rfl

theorem Regular.of_append {ks ls : List Line} (h : Regular (ks ++ ls)) : Regular ls := by
  induction ks with
  | nil => exact h
  | cons k ks ih => exact ih h.2.2.2

/-- A line that holds something goes up to the next ending. -/
theorem splitAfter_ending {held s : List Char} {e : Ending} (hne : held ≠ []) (h : Follows e s) :
    splitAfter held (e.chars ++ s) = ⟨held.reverse, e⟩ :: split s := by
  cases e with
  | absent =>
    obtain rfl := List.head?_eq_none_iff.1 (h.1 rfl)
    simp [Ending.chars, splitAfter, split, hne]
  | lf => rfl
  | crlf => rfl
  | cr =>
    show splitAfter held ('\r' :: s) = _
    rw [splitAfter]
    · rfl
    · rintro r rfl
      exact h.2 rfl rfl

/-- A text is known by its lines. -/
theorem split_toList_inj {s t : String} : split s.toList = split t.toList ↔ s = t := by
  constructor
  · intro h
    have hjoin := congrArg join h
    rw [join_split, join_split] at hjoin
    exact String.toList_injective hjoin
  · rintro rfl
    rfl

/-- What a rewriting of bodies has to keep for its results to be bodies of lines. -/
structure KeepsBodies (f : List Char → Option (List Char)) : Prop where
  nil : f [] = none
  ne_nil : ∀ b b', f b = some b' → b' ≠ []
  noBreak : ∀ b b', f b = some b' → (∀ c ∈ b, isBreak c = false) → ∀ c ∈ b', isBreak c = false

/-- A rewriting that keeps bodies makes lines of a text out of lines of a text. -/
theorem regular_rewriteEach {f : List Char → Option (List Char)} (hf : KeepsBodies f)
    {ls : List Line} (h : Regular ls) : Regular (rewriteEach f ls).1 := by
  have hnil : ∀ b : List Char, (f b).getD b = [] → b = [] := by
    intro b hb
    cases hfb : f b with
    | none => simpa [hfb] using hb
    | some b' => exact absurd (by simpa [hfb] using hb) (hf.ne_nil b b' hfb)
  induction ls with
  | nil => exact trivial
  | cons l ls ih =>
    obtain ⟨hb, ha, hcr, hr⟩ := h
    refine ⟨?_, ?_, ?_, ih hr⟩
    · show ∀ c ∈ (f l.body).getD l.body, isBreak c = false
      cases hfb : f l.body with
      | none => exact hb
      | some b' => exact hf.noBreak l.body b' hfb hb
    · intro he
      obtain ⟨hne, rfl⟩ := ha he
      exact ⟨fun hnl => hne (hnil _ hnl), rfl⟩
    · intro he hn
      -- An empty line after a carriage return was empty before.
      cases ls with
      | nil => simp at hn
      | cons m ls =>
        obtain ⟨body, ending⟩ := m
        simp only [List.map_cons, List.head?_cons, Option.some.injEq, mk.injEq] at hn
        exact hcr he (by simp [hnil body hn.1, hn.2])

/-- The lines of a text that was rewritten are the rewritten lines. -/
theorem split_onText {f : List Char → Option (List Char)} (hf : KeepsBodies f) (s : String) :
    split (onText (rewriteEach f) s).1.toList = (rewriteEach f (split s.toList)).1 := by
  simp [onText, split_join (regular_rewriteEach hf (regular_split _))]

theorem rewriteEach_cons (f : List Char → Option (List Char)) (l : Line) (ls : List Line) :
    rewriteEach f (l :: ls) =
      ({ l with body := (f l.body).getD l.body } :: (rewriteEach f ls).1,
        (rewriteEach f ls).2 + (f l.body).isSome.toNat) := by
  cases h : f l.body <;> simp [rewriteEach, h]

/-- Lines that a rewriting does not answer stay, and none is counted. -/
theorem rewriteEach_of_settled {f : List Char → Option (List Char)} {ls : List Line}
    (h : ∀ l ∈ ls, f l.body = none) : rewriteEach f ls = (ls, 0) := by
  have hmap : (ls.map fun l => { l with body := (f l.body).getD l.body }) = ls.map id :=
    List.map_congr_left fun l hl => by simp [h l hl]
  have hcount : (ls.countP fun l => (f l.body).isSome) = 0 :=
    List.countP_eq_zero.2 fun l hl => by simp [h l hl]
  rw [rewriteEach, hmap, hcount, List.map_id]

/-- A rewriting that leaves alone what it wrote has nothing to do a second time. -/
theorem rewriteEach_rewriteEach {f : List Char → Option (List Char)}
    (h : ∀ b b', f b = some b' → f b' = none) (ls : List Line) :
    rewriteEach f (rewriteEach f ls).1 = ((rewriteEach f ls).1, 0) := by
  apply rewriteEach_of_settled
  intro l hl
  obtain ⟨k, -, rfl⟩ := List.mem_map.1 hl
  cases hk : f k.body with
  | none => simp [hk]
  | some b' => simpa [hk] using h k.body b' hk

/-- Two rewritings in a row are one if the second leaves alone what the first wrote. -/
theorem rewriteEach_orElse {f g : List Char → Option (List Char)}
    (h : ∀ b b', f b = some b' → g b' = none) (ls : List Line) :
    rewriteEach (fun b => (f b).or (g b)) ls =
      ((rewriteEach g (rewriteEach f ls).1).1,
        (rewriteEach f ls).2 + (rewriteEach g (rewriteEach f ls).1).2) := by
  induction ls with
  | nil => rfl
  | cons l ls ih =>
    rw [rewriteEach_cons, ih, rewriteEach_cons f, rewriteEach_cons g]
    cases hf : f l.body with
    | none => simp [Nat.add_assoc]
    | some b' => simp [h l.body b' hf, Nat.add_right_comm]

/-- Indentation ends where the first other character stands. -/
theorem takeWhile_isIndent {indent rest : List Char} (hi : ∀ c ∈ indent, isIndent c)
    (hr : ∀ c, rest.head? = some c → isIndent c = false) :
    (indent ++ rest).takeWhile isIndent = indent := by
  rw [List.takeWhile_append_of_pos hi]
  cases rest with
  | nil => simp
  | cons c r => simp [hr c rfl]

theorem dropWhile_isIndent {indent rest : List Char} (hi : ∀ c ∈ indent, isIndent c)
    (hr : ∀ c, rest.head? = some c → isIndent c = false) :
    (indent ++ rest).dropWhile isIndent = rest := by
  rw [List.dropWhile_append_of_pos hi]
  cases rest with
  | nil => simp
  | cons c r => simp [hr c rfl]

/-- Where the indentation of a line ends is where the rest of it begins. -/
theorem rest_inj {indent indent' rest rest' : List Char} (hi : ∀ c ∈ indent, isIndent c)
    (hi' : ∀ c ∈ indent', isIndent c) (hr : ∀ c, rest.head? = some c → isIndent c = false)
    (hr' : ∀ c, rest'.head? = some c → isIndent c = false)
    (h : indent ++ rest = indent' ++ rest') : rest = rest' := by
  rw [← dropWhile_isIndent hi hr, h, dropWhile_isIndent hi' hr']

end PlaybookTidy.Line
