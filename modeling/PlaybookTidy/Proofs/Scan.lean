import Mathlib.Data.List.Basic
import PlaybookTidy.Proofs.Lines

/-!
Searching a text as a whole for a pattern that starts where lines do, and replacing what is found.
Such a scan never crosses the end of a line, so it rewrites line by line.
-/

namespace PlaybookTidy

namespace Line

/-- A line starts at the front of a text, after a line feed, and after a carriage return that no
line feed follows. -/
def StartsAt (before after : List Char) : Prop :=
  before = [] ∨ before.getLast? = some '\n' ∨
    before.getLast? = some '\r' ∧ after.head? ≠ some '\n'

/-- A line ends where the text does, before a carriage return, and before a line feed that follows
no carriage return. -/
def EndsAt (before after : List Char) : Prop :=
  after = [] ∨ after.head? = some '\r' ∨
    after.head? = some '\n' ∧ before.getLast? ≠ some '\r'

variable {before after body tail taken : List Char} {c : Char}

/-- After any other character no line starts. -/
theorem not_startsAt (h : before.getLast? = some c) (hc : isBreak c = false) (after : List Char) :
    ¬ StartsAt before after := by
  have hbreak : ¬ (c = '\n' ∨ c = '\r') := by simpa [isBreak] using hc
  rintro (rfl | hlf | ⟨hcr, -⟩)
  · simp at h
  · exact hbreak (Or.inl (Option.some.inj (h.symm.trans hlf)))
  · exact hbreak (Or.inr (Option.some.inj (h.symm.trans hcr)))

/-- Before any other character no line ends. -/
theorem not_endsAt (hc : isBreak c = false) (before after : List Char) :
    ¬ EndsAt before (c :: after) := by
  have hbreak : ¬ (c = '\n' ∨ c = '\r') := by simpa [isBreak] using hc
  rintro (hnil | hcr | ⟨hlf, -⟩)
  · simp at hnil
  · exact hbreak (Or.inr (by simpa using hcr))
  · exact hbreak (Or.inl (by simpa using hlf))

/-- After characters without a line end, what begins with one or is empty ends the line. -/
theorem endsAt_of_noBreak (hne : taken ≠ []) (ht : ∀ c ∈ taken, isBreak c = false)
    (htail : ∀ c ∈ tail.head?, isBreak c) (before : List Char) :
    EndsAt (before ++ taken) tail := by
  cases tail with
  | nil => exact Or.inl rfl
  | cons c s =>
    rcases isBreak_iff.1 (htail c (by simp)) with rfl | rfl
    · refine Or.inr (Or.inr ⟨rfl, ?_⟩)
      rw [List.getLast?_append_of_ne_nil _ hne]
      intro hlast
      have hcr := ht '\r' (List.mem_of_getLast? hlast)
      simp [isBreak] at hcr
    · exact Or.inr (Or.inl rfl)

/-- Characters without a line end, taken where a body begins, are taken from that body. -/
theorem exists_rest (h : taken ++ after = body ++ tail) (ht : ∀ c ∈ taken, isBreak c = false)
    (htail : ∀ c ∈ tail.head?, isBreak c) :
    ∃ rest, body = taken ++ rest ∧ after = rest ++ tail := by
  rcases List.append_eq_append_iff.1 h with ⟨rest, rfl, rfl⟩ | ⟨extra, rfl, rfl⟩
  · exact ⟨rest, rfl, rfl⟩
  · cases extra with
    | nil => exact ⟨[], by simp, by simp⟩
    | cons c s =>
      have hbreak := htail c (by simp)
      rw [ht c (by simp)] at hbreak
      exact absurd hbreak (by simp)

/-- What follows a body is its ending and the other lines. -/
theorem join_cons (l : Line) (ls : List Line) :
    join (l :: ls) = l.body ++ (l.ending.chars ++ join ls) := by
  simp [join, chars]

theorem isBreak_of_mem_ending {e : Ending} (h : c ∈ e.chars) : isBreak c := by
  cases e with
  | absent => simp [Ending.chars] at h
  | lf =>
    obtain rfl : c = '\n' := by simpa [Ending.chars] using h
    rfl
  | crlf =>
    have hpair : c = '\r' ∨ c = '\n' := by simpa [Ending.chars] using h
    rcases hpair with rfl | rfl <;> rfl
  | cr =>
    obtain rfl : c = '\r' := by simpa [Ending.chars] using h
    rfl

/-- After the body of a line there is an ending, or nothing. -/
theorem isBreak_of_head_tail {l : Line} {ls : List Line} (h : Regular (l :: ls)) :
    ∀ c ∈ (l.ending.chars ++ join ls).head?, isBreak c := by
  obtain ⟨-, ha, -, -⟩ := h
  intro c hc
  cases he : l.ending with
  | absent =>
    rw [he, (ha he).2] at hc
    simp [Ending.chars, join] at hc
  | lf =>
    obtain rfl : c = '\n' := by simpa [he, Ending.chars, eq_comm] using hc
    rfl
  | crlf =>
    obtain rfl : c = '\r' := by simpa [he, Ending.chars, eq_comm] using hc
    rfl
  | cr =>
    obtain rfl : c = '\r' := by simpa [he, Ending.chars, eq_comm] using hc
    rfl

/-- After an ending the next line starts. -/
theorem Follows.startsAt {e : Ending} {s : List Char} (h : Follows e s) (hne : s ≠ [])
    (before : List Char) : StartsAt (before ++ e.chars) s := by
  cases e with
  | absent => exact absurd (List.head?_eq_none_iff.1 (h.1 rfl)) hne
  | lf => exact Or.inr (Or.inl (by simp [Ending.chars]))
  | crlf => exact Or.inr (Or.inl (by simp [Ending.chars]))
  -- The next line does not begin with a line feed, which would belong to this ending.
  | cr => exact Or.inr (Or.inr ⟨by simp [Ending.chars], h.2 rfl⟩)

/-- After a character of a body a line ends where an ending follows. -/
theorem endsAt_iff (h : before.getLast? = some c) (hc : isBreak c = false) :
    EndsAt before after ↔ ∃ e s, after = e.chars ++ s ∧ Follows e s := by
  -- So a line feed that comes next is not the second half of an ending.
  have hcr : before.getLast? ≠ some '\r' := by
    intro hlast
    obtain rfl : c = '\r' := Option.some.inj (h.symm.trans hlast)
    exact absurd hc (by decide)
  constructor
  · rintro (rfl | hfront | ⟨hfront, -⟩)
    · exact ⟨.absent, [], rfl, by simp [Follows]⟩
    · obtain ⟨s, rfl⟩ := List.head?_eq_some_iff.1 hfront
      by_cases hlf : s.head? = some '\n'
      · obtain ⟨r, rfl⟩ := List.head?_eq_some_iff.1 hlf
        exact ⟨.crlf, r, rfl, by simp [Follows]⟩
      · exact ⟨.cr, s, rfl, by simp [Follows, hlf]⟩
    · obtain ⟨s, rfl⟩ := List.head?_eq_some_iff.1 hfront
      exact ⟨.lf, s, rfl, by simp [Follows]⟩
  · rintro ⟨e, s, rfl, hs⟩
    cases e with
    | absent => exact Or.inl (List.head?_eq_none_iff.1 (hs.1 rfl))
    | lf => exact Or.inr (Or.inr ⟨rfl, hcr⟩)
    | crlf => exact Or.inr (Or.inl rfl)
    | cr => exact Or.inr (Or.inl rfl)

theorem startsAt_next {l : Line} {ls : List Line} (h : Regular (l :: ls)) (hne : ls ≠ [])
    (before : List Char) : StartsAt (before ++ l.body ++ l.ending.chars) (join ls) := by
  obtain ⟨-, -, hfollows, hr⟩ := regular_cons_iff.1 h
  refine hfollows.startsAt ?_ _
  intro hnil
  rw [← split_join hr, hnil] at hne
  exact hne rfl

end Line

/-- A pattern for the first characters of a line, or for all of them. -/
structure LinePattern where
  /-- The characters that are taken, and those that are put in their place. -/
  takes : List Char → List Char → Prop
  /-- What is taken goes up to the end of the line. -/
  whole : Prop

namespace LinePattern

open Line (isBreak StartsAt EndsAt Follows Regular join split rewriteEach KeepsBodies)

/-- The pattern takes what stands between `before` and `after`. -/
structure Occurs (P : LinePattern) (before taken after put : List Char) : Prop where
  start : StartsAt before (taken ++ after)
  takes : P.takes taken put
  stop : P.whole → EndsAt (before ++ taken) after

/-- From left to right, each occurrence that does not overlap the one before it is replaced. The
text begins after `before`. -/
inductive Scans (P : LinePattern) : List Char → List Char → List Char → Nat → Prop
  | done (before : List Char) : Scans P before [] [] 0
  | skip {before : List Char} {c : Char} {s out : List Char} {n : Nat} :
      (∀ taken after put, taken ++ after = c :: s → ¬ P.Occurs before taken after put) →
      Scans P (before ++ [c]) s out n → Scans P before (c :: s) (c :: out) n
  | take {before s taken after put out : List Char} {n : Nat} : taken ++ after = s →
      P.Occurs before taken after put → Scans P (before ++ taken) after out n →
      Scans P before s (put ++ out) (n + 1)

def Rewrites (P : LinePattern) (body out : List Char) : Prop :=
  ∃ taken put rest, P.takes taken put ∧ (P.whole → rest = []) ∧ body = taken ++ rest ∧
    out = put ++ rest

/-- What the pattern takes begins within a line, and there is one way to take it at a place. -/
structure Determined (P : LinePattern) : Prop where
  front (taken put : List Char) : P.takes taken put → ∃ c s, taken = c :: s ∧ isBreak c = false
  unique (before taken taken' after after' put put' : List Char) :
    P.Occurs before taken after put → P.Occurs before taken' after' put' →
      taken ++ after = taken' ++ after' → taken = taken' ∧ put = put'

/-- The pattern takes some characters but no line ends, and there is one way to take them. -/
structure Definite (P : LinePattern) : Prop where
  ne_nil (taken put : List Char) : P.takes taken put → taken ≠ []
  noBreak (taken put : List Char) : P.takes taken put → ∀ c ∈ taken, isBreak c = false
  unique (taken taken' put put' rest rest' : List Char) : P.takes taken put →
    P.takes taken' put' → taken ++ rest = taken' ++ rest' → (P.whole → taken = taken') →
    taken = taken' ∧ put = put'

variable {P Q : LinePattern} {before after body tail taken put out out' s : List Char} {n n' : Nat}
  {f : List Char → Option (List Char)} {ls : List Line}

/-- At the start of a line the pattern occurs in its body or not at all. -/
theorem occurs_iff (hP : P.Definite) (hstart : StartsAt before (body ++ tail))
    (hb : ∀ c ∈ body, isBreak c = false) (htail : ∀ c ∈ tail.head?, isBreak c)
    (h : taken ++ after = body ++ tail) :
    P.Occurs before taken after put ↔
      ∃ rest, P.takes taken put ∧ (P.whole → rest = []) ∧ body = taken ++ rest ∧
        after = rest ++ tail := by
  constructor
  · intro hocc
    obtain ⟨rest, rfl, rfl⟩ := Line.exists_rest h (hP.noBreak _ _ hocc.takes) htail
    refine ⟨rest, hocc.takes, ?_, rfl, rfl⟩
    intro hwhole
    cases rest with
    | nil => rfl
    | cons c rest =>
      have hc : isBreak c = false := hb c (by simp)
      exact absurd (hocc.stop hwhole) (Line.not_endsAt hc _ _)
  · rintro ⟨rest, htakes, hwhole, rfl, rfl⟩
    refine ⟨h ▸ hstart, htakes, ?_⟩
    intro hw
    rw [hwhole hw, List.nil_append]
    exact Line.endsAt_of_noBreak (hP.ne_nil _ _ htakes) (hP.noBreak _ _ htakes) htail before

/-- Without line ends in what is taken, two occurrences that start at one place are one. -/
theorem Definite.determined (hP : P.Definite) : P.Determined where
  front := by
    intro taken put htakes
    obtain ⟨c, s, rfl⟩ := List.exists_cons_of_ne_nil (hP.ne_nil _ _ htakes)
    exact ⟨c, s, rfl, hP.noBreak _ _ htakes c (by simp)⟩
  unique := by
    intro before taken taken' after after' put put' h h' heq
    -- Where both go up to the end of the line, neither can go further than the other.
    have hshort : ∀ {taken taken' after after' put put' : List Char},
        P.Occurs before taken after put → P.Occurs before taken' after' put' → P.whole →
        ∀ extra, taken' = taken ++ extra → after = extra ++ after' → extra = [] := by
      rintro taken taken' after after' put put' hocc hocc' hwhole extra rfl rfl
      cases extra with
      | nil => rfl
      | cons c extra =>
        have hc : isBreak c = false := hP.noBreak _ _ hocc'.takes c (by simp)
        exact absurd (hocc.stop hwhole) (Line.not_endsAt hc _ _)
    have hwhole : P.whole → taken = taken' := by
      intro hw
      rcases List.append_eq_append_iff.1 heq with ⟨extra, htaken, hafter⟩ | ⟨extra, htaken, hafter⟩
      · rw [htaken, hshort h h' hw extra htaken hafter, List.append_nil]
      · rw [htaken, hshort h' h hw extra htaken hafter, List.append_nil]
    exact hP.unique _ _ _ _ _ _ h.takes h'.takes heq hwhole

/-- A scan has one result. -/
theorem Scans.unique (hP : P.Determined) (h : P.Scans before s out n)
    (h' : P.Scans before s out' n') : out = out' ∧ n = n' := by
  -- A place is passed over only where nothing occurs, so both scans take the same step there.
  induction h generalizing out' n' with
  | done before =>
    cases h' with
    | done => exact ⟨rfl, rfl⟩
    | take heq hocc _ =>
      obtain ⟨c, s, rfl, -⟩ := hP.front _ _ hocc.takes
      exact absurd heq nofun
  | skip hnone _ ih =>
    cases h' with
    | skip _ hrest =>
      obtain ⟨rfl, rfl⟩ := ih hrest
      exact ⟨rfl, rfl⟩
    | take heq hocc _ => exact absurd hocc (hnone _ _ _ heq)
  | take heq hocc _ ih =>
    cases h' with
    | done =>
      obtain ⟨c, s, rfl, -⟩ := hP.front _ _ hocc.takes
      exact absurd heq nofun
    | skip hnone _ => exact absurd hocc (hnone _ _ _ heq)
    | take heq' hocc' hrest =>
      have hsame := heq.trans heq'.symm
      obtain ⟨rfl, rfl⟩ := hP.unique _ _ _ _ _ _ _ hocc hocc' hsame
      obtain rfl := List.append_cancel_left hsame
      obtain ⟨rfl, rfl⟩ := ih hrest
      exact ⟨rfl, rfl⟩

/-- Characters before which no line starts, or which are line ends, are passed over. -/
theorem Scans.pass (hP : P.Determined) {passed : List Char}
    (hpassed : ∀ x c y, passed = x ++ c :: y → isBreak c ∨ ¬ StartsAt (before ++ x) (c :: (y ++ s)))
    (h : P.Scans (before ++ passed) s out n) : P.Scans before (passed ++ s) (passed ++ out) n := by
  induction passed generalizing before with
  | nil => simpa using h
  | cons c passed ih =>
    refine .skip ?_ (ih ?_ (by simpa using h))
    · intro taken after put heq hocc
      have hstart := hocc.start
      rw [heq] at hstart
      rcases hpassed [] c passed rfl with hc | hno
      · obtain ⟨d, taken, rfl, hd⟩ := hP.front _ _ hocc.takes
        obtain ⟨rfl, -⟩ := List.cons.inj heq
        rw [hd] at hc
        exact absurd hc (by simp)
      · exact hno (by simpa using hstart)
    · intro x d y hxy
      simpa using hpassed (c :: x) d y (by simp [hxy])

theorem Scans.pass_ending (hP : P.Determined) {e : Ending}
    (h : P.Scans (before ++ e.chars) s out n) : P.Scans before (e.chars ++ s) (e.chars ++ out) n := by
  refine Scans.pass hP ?_ h
  rintro x c y hxy
  exact Or.inl (Line.isBreak_of_mem_ending (e := e) (by simp [hxy]))

/-- The rest of a body is passed over. -/
theorem Scans.pass_rest (hP : P.Determined) {c : Char} {rest : List Char}
    (hlast : before.getLast? = some c) (hc : isBreak c = false)
    (hrest : ∀ c ∈ rest, isBreak c = false) (h : P.Scans (before ++ rest) s out n) :
    P.Scans before (rest ++ s) (rest ++ out) n := by
  refine Scans.pass hP ?_ h
  rintro x d y rfl
  right
  rcases List.eq_nil_or_concat x with rfl | ⟨x, e, rfl⟩
  · simpa using Line.not_startsAt hlast hc _
  · exact Line.not_startsAt (by simp) (hrest e (by simp)) _

/-- A line is passed over if the pattern does not occur where it starts. -/
theorem Scans.pass_body (hP : P.Determined) (hb : ∀ c ∈ body, isBreak c = false)
    (hnone : ∀ taken after put, taken ++ after = body ++ s → ¬ P.Occurs before taken after put)
    (h : P.Scans (before ++ body) s out n) : P.Scans before (body ++ s) (body ++ out) n := by
  cases body with
  | nil => simpa using h
  | cons c body =>
    refine .skip hnone (Scans.pass_rest hP (by simp) (hb c (by simp)) ?_ (by simpa using h))
    exact fun d hd => hb d (List.mem_cons_of_mem c hd)

/-- From the start of a line on, a scan rewrites its body and goes on after its ending. -/
theorem Scans.line (hP : P.Definite) (hf : ∀ b out, f b = some out ↔ P.Rewrites b out)
    (hstart : StartsAt before (body ++ tail)) (hb : ∀ c ∈ body, isBreak c = false)
    (htail : ∀ c ∈ tail.head?, isBreak c) (h : P.Scans (before ++ body) tail out n) :
    P.Scans before (body ++ tail) ((f body).getD body ++ out) (n + (f body).isSome.toNat) := by
  cases hfb : f body with
  | some b' =>
    obtain ⟨taken, put, rest, htakes, hwhole, rfl, rfl⟩ := (hf body b').1 hfb
    have hocc : P.Occurs before taken (rest ++ tail) put :=
      (occurs_iff hP hstart hb htail (by simp)).2 ⟨rest, htakes, hwhole, rfl, rfl⟩
    have hne := hP.ne_nil _ _ htakes
    have hlast : (before ++ taken).getLast? = some (taken.getLast hne) := by
      rw [List.getLast?_append_of_ne_nil _ hne, List.getLast?_eq_some_getLast hne]
    have hrest : P.Scans (before ++ taken) (rest ++ tail) (rest ++ out) n := by
      refine Scans.pass_rest hP.determined hlast ?_ ?_ (by simpa using h)
      · exact hP.noBreak _ _ htakes _ (List.getLast_mem hne)
      · exact fun c hc => hb c (List.mem_append_right taken hc)
    simpa using Scans.take (by simp) hocc hrest
  | none =>
    refine Scans.pass_body hP.determined hb ?_ h
    -- What occurs at the start of the line would have been rewritten.
    intro taken after put heq hocc
    obtain ⟨rest, htakes, hwhole, hbody, -⟩ := (occurs_iff hP hstart hb htail heq).1 hocc
    have hsome := (hf _ _).2 ⟨taken, put, rest, htakes, hwhole, hbody, rfl⟩
    simp [hfb] at hsome

/-- A scan of joined lines rewrites each of them. -/
theorem scans_join (hP : P.Definite) (hf : ∀ b out, f b = some out ↔ P.Rewrites b out)
    (hr : Regular ls) (hstart : ls ≠ [] → StartsAt before (join ls)) :
    P.Scans before (join ls) (join (rewriteEach f ls).1) (rewriteEach f ls).2 := by
  -- By induction on the lines, with any text before them after which a line starts.
  induction ls generalizing before with
  | nil => exact .done before
  | cons l ls ih =>
    have hnext := ih hr.2.2.2 fun hne => Line.startsAt_next hr hne before
    have hline := hstart (List.cons_ne_nil l ls)
    rw [Line.join_cons] at hline ⊢
    rw [Line.rewriteEach_cons, Line.join_cons]
    exact Scans.line hP hf hline hr.1 (Line.isBreak_of_head_tail hr)
      (Scans.pass_ending hP.determined hnext)

/-- A search of a text does what rewriting each of its lines does. -/
theorem scans_iff (hP : P.Definite) (hf : ∀ b out, f b = some out ↔ P.Rewrites b out) :
    P.Scans [] s out n ↔
      out = join (rewriteEach f (split s)).1 ∧ n = (rewriteEach f (split s)).2 := by
  have hscan : P.Scans [] (join (split s)) (join (rewriteEach f (split s)).1)
      (rewriteEach f (split s)).2 :=
    scans_join hP hf (Line.regular_split s) fun _ => Or.inl rfl
  rw [Line.join_split] at hscan
  constructor
  · exact fun h => h.unique hP.determined hscan
  · rintro ⟨rfl, rfl⟩
    exact hscan

def restrict (P : LinePattern) [DecidablePred fun body => ∃ out, P.Rewrites body out]
    (f : List Char → Option (List Char)) (body : List Char) : Option (List Char) :=
  if ∃ out, P.Rewrites body out then f body else none

section

variable [DecidablePred fun body => ∃ out, P.Rewrites body out]

theorem of_restrict (h : P.restrict f body = some out) : f body = some out := by
  unfold restrict at h
  split at h
  · exact h
  · exact absurd h nofun

/-- Of a rewriting for several patterns, the lines of one of them are left. -/
theorem restrict_eq_some_iff (hf : ∀ b out, P.Rewrites b out → f b = some out)
    (body out : List Char) : P.restrict f body = some out ↔ P.Rewrites body out := by
  constructor
  · intro h
    obtain ⟨out', hout'⟩ : ∃ out, P.Rewrites body out := by
      unfold restrict at h
      split at h
      · assumption
      · exact absurd h nofun
    have heq : some out' = some out := (hf body out' hout').symm.trans (of_restrict h)
    exact Option.some.inj heq ▸ hout'
  · intro h
    rw [restrict, if_pos ⟨out, h⟩, hf body out h]

theorem keepsBodies_restrict (h : KeepsBodies f) : KeepsBodies (P.restrict f) where
  nil := by simp [restrict, h.nil]
  ne_nil b out hb := h.ne_nil b out (of_restrict hb)
  noBreak b out hb := h.noBreak b out (of_restrict hb)

end

/-- Two patterns one after the other, of which the second does not occur in what the first wrote,
rewrite the lines in which one of them occurs. -/
theorem onText_eq_iff_scans (hP : P.Definite) (hQ : Q.Definite)
    (hf : ∀ b out, f b = some out ↔ P.Rewrites b out ∨ Q.Rewrites b out) (hkeep : KeepsBodies f)
    (hsettled : ∀ b out out', P.Rewrites b out → ¬ Q.Rewrites out out') {s t : String} :
    Line.onText (rewriteEach f) s = (t, n) ↔
      ∃ middle j k, P.Scans [] s.toList middle j ∧ Q.Scans [] middle t.toList k ∧ n = j + k := by
  classical
  have hp := restrict_eq_some_iff fun b out h => (hf b out).2 (Or.inl h)
  have hq := restrict_eq_some_iff fun b out h => (hf b out).2 (Or.inr h)
  -- The one pass over the lines is taken apart into what each search would write.
  have hor : f = fun b => (P.restrict f b).or (Q.restrict f b) := by
    funext b
    cases hb : P.restrict f b with
    | some out => exact of_restrict hb
    | none =>
      apply Option.ext
      intro out
      have hno : ¬ P.Rewrites b out := by simp [← hp, hb]
      simp [hf, hno, hq]
  have hnone : ∀ b out, P.restrict f b = some out → Q.restrict f out = none := by
    intro b out h
    rw [Option.eq_none_iff_forall_ne_some]
    intro out' h'
    exact hsettled b out out' ((hp b out).1 h) ((hq out out').1 h')
  have hlines := Line.rewriteEach_orElse hnone (split s.toList)
  rw [← hor] at hlines
  have hmiddle := Line.split_join
    (Line.regular_rewriteEach (keepsBodies_restrict (P := P) hkeep) (Line.regular_split s.toList))
  have htext : ∀ out : List Char, String.ofList out = t ↔ t.toList = out := by
    intro out
    rw [← String.toList_inj, String.toList_ofList, eq_comm]
  simp only [Line.onText, hlines, Prod.mk.injEq, htext]
  constructor
  · rintro ⟨hout, rfl⟩
    refine ⟨_, _, _, (scans_iff hP hp).2 ⟨rfl, rfl⟩, (scans_iff hQ hq).2 ?_, rfl⟩
    rw [hmiddle]
    exact ⟨hout, rfl⟩
  · rintro ⟨middle, j, k, hscan, hscan', rfl⟩
    obtain ⟨rfl, rfl⟩ := (scans_iff hP hp).1 hscan
    rw [scans_iff hQ hq, hmiddle] at hscan'
    exact ⟨hscan'.1, by rw [hscan'.2]⟩

end LinePattern

end PlaybookTidy
