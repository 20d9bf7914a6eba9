import Mathlib
import PlaybookTidy.Proofs.Lines
import PlaybookTidy.Proofs.Pipeline

/-!
Fixing goes line by line. A text that is cut after a line end can be fixed in two parts, also where
the cut divides a carriage return from its line feed, and every line keeps its ending.
-/

namespace PlaybookTidy

namespace Line

/-- The lines of two texts and of the text that they make up together. Where the first ends with a
carriage return and the second begins with a line feed, the two are one ending of the whole. -/
inductive Meet : List Line → List Line → List Line → Prop
  | whole (ls ms : List Line) : Meet ls ms (ls ++ ms)
  | divided (ls : List Line) (body : List Char) (ms : List Line) :
      Meet (ls ++ [⟨body, .cr⟩]) (⟨[], .lf⟩ :: ms) (ls ++ ⟨body, .crlf⟩ :: ms)

theorem Meet.cons {ls ms ks : List Line} (l : Line) (h : Meet ls ms ks) :
    Meet (l :: ls) ms (l :: ks) := by
  cases h with
  | whole => exact .whole (l :: ls) ms
  | divided ls body ms => exact .divided (l :: ls) body ms

/-- A text may be cut after a line end. -/
theorem meet_splitAfter (held a b : List Char) (hheld : a = [] → held = [])
    (ha : ∀ c ∈ a.getLast?, isBreak c) :
    Meet (splitAfter held a) (split b) (splitAfter held (a ++ b)) := by
  have htail : ∀ (c : Char) (s : List Char), (∀ d ∈ (c :: s).getLast?, isBreak d) →
      ∀ d ∈ s.getLast?, isBreak d := by
    intro c s hs d hd
    apply hs
    cases s with
    | nil => simp at hd
    | cons e s => simpa using hd
  -- along the first part; it ends with a line end, so nothing is held where it is used up
  fun_induction splitAfter held a with
  | case1 => exact .whole [] (split b)
  | case2 held hne => exact absurd (hheld rfl) hne
  | case3 held s ih =>
    exact (ih (fun _ => rfl) (htail _ _ (htail _ _ ha))).cons ⟨held.reverse, .crlf⟩
  | case4 held s hn ih =>
    by_cases hnl : ∃ r, s ++ b = '\n' :: r
    · -- The line feed belongs to the second part, since the first has none here.
      obtain ⟨r, hr⟩ := hnl
      obtain rfl : s = [] := by
        cases s with
        | nil => rfl
        | cons c s =>
          obtain ⟨rfl, -⟩ := List.cons.inj hr
          exact absurd rfl (hn s)
      obtain rfl : b = '\n' :: r := hr
      exact .divided [] held.reverse (split r)
    · have hstep : splitAfter held ('\r' :: s ++ b) =
          ⟨held.reverse, .cr⟩ :: splitAfter [] (s ++ b) := by
        rw [List.cons_append, splitAfter]
        exact fun r hr => hnl ⟨r, hr⟩
      rw [hstep]
      exact (ih (fun _ => rfl) (htail _ _ ha)).cons ⟨held.reverse, .cr⟩
  | case5 held s ih => exact (ih (fun _ => rfl) (htail _ _ ha)).cons ⟨held.reverse, .lf⟩
  | case6 held c s _ hcr hlf ih =>
    have hne : s = [] → c :: held = [] := by
      rintro rfl
      rcases isBreak_iff.1 (ha c (by simp)) with hc | hc
      · exact absurd hc hlf
      · exact absurd hc hcr
    have hstep : splitAfter held (c :: s ++ b) = splitAfter (c :: held) (s ++ b) := by
      rw [List.cons_append, splitAfter]
      · exact fun r hr _ => hcr hr
      · exact hcr
      · exact hlf
    rw [hstep]
    exact ih hne (htail _ _ ha)

/-- The lines of two texts meet as their texts do, if the first ends with a line end. -/
theorem meet_split (a b : List Char) (ha : ∀ c ∈ a.getLast?, isBreak c) :
    Meet (split a) (split b) (split (a ++ b)) :=
  meet_splitAfter [] a b (fun _ => rfl) ha

theorem join_of_meet {ls ms ks : List Line} (h : Meet ls ms ks) : join ks = join ls ++ join ms := by
  cases h with
  | whole => simp [join]
  | divided ls body ms => simp [join, chars, Ending.chars]

theorem rewriteEach_append (f : List Char → Option (List Char)) (ls ms : List Line) :
    rewriteEach f (ls ++ ms) =
      ((rewriteEach f ls).1 ++ (rewriteEach f ms).1,
        (rewriteEach f ls).2 + (rewriteEach f ms).2) := by
  simp [rewriteEach]

/-- A rewriting that leaves empty bodies alone rewrites two parts as it rewrites the whole. -/
theorem Meet.rewriteEach {f : List Char → Option (List Char)} (hf : f [] = none)
    {ls ms ks : List Line} (h : Meet ls ms ks) :
    Meet (rewriteEach f ls).1 (rewriteEach f ms).1 (rewriteEach f ks).1 ∧
      (Line.rewriteEach f ks).2 = (Line.rewriteEach f ls).2 + (Line.rewriteEach f ms).2 := by
  cases h with
  | whole =>
    rw [rewriteEach_append]
    exact ⟨.whole _ _, rfl⟩
  | divided ls body ms =>
    rw [rewriteEach_append, rewriteEach_append, rewriteEach_cons, rewriteEach_cons,
      rewriteEach_cons]
    simp only [hf, Option.getD_none]
    refine ⟨.divided _ _ _, ?_⟩
    simp only [Line.rewriteEach, List.countP_nil, Option.isSome_none, Bool.toNat_false]
    omega

end Line

namespace Fixer

variable {fx : Fixer} {ls ms ks : List Line}

/-- The passes of some rules, one after the other, from lines for which `n` was counted. -/
def pass (fx : Fixer) (rs : List Rule) (ls : List Line) (n : Replacements) :
    List Line × Replacements :=
  rs.foldl (fun (ls, n) r =>
    let (out, k) := fx.applyRule r ls
    (out, n.record r k)) (ls, n)

/-- The first rule rewrites each line, and the others go on with what it wrote. -/
theorem pass_cons (ha : fx.Accepted) (r : Rule) (rs : List Rule) (ls : List Line)
    (n : Replacements) :
    fx.pass (r :: rs) ls n =
      fx.pass rs (Line.rewriteEach (fx.passBody? r) ls).1
        (n.record r (Line.rewriteEach (fx.passBody? r) ls).2) := by
  rw [← applyRule_eq ha]
  rfl

/-- Passes over two parts make the parts of what they make of the whole, and count as much. -/
theorem meet_pass (ha : fx.Accepted) (rs : List Rule) (h : Line.Meet ls ms ks)
    (n m : Replacements) :
    Line.Meet (fx.pass rs ls n).1 (fx.pass rs ms m).1 (fx.pass rs ks (n + m)).1 ∧
      (fx.pass rs ks (n + m)).2 = (fx.pass rs ls n).2 + (fx.pass rs ms m).2 := by
  induction rs generalizing ls ms ks n m with
  | nil => exact ⟨h, rfl⟩
  | cons r rs ih =>
    -- No pass answers the empty line that a divided ending leaves behind.
    obtain ⟨hmeet, hcount⟩ := h.rewriteEach (keepsBodies ha r).nil
    rw [pass_cons ha, pass_cons ha, pass_cons ha, hcount, Replacements.add_record]
    exact ih hmeet _ _

/-- A text that is cut after a line end can be fixed in two parts. -/
theorem fixText_append (ha : fx.Accepted) {a b : String}
    (hcut : ∀ c ∈ a.toList.getLast?, Line.isBreak c) :
    fx.fixText (a ++ b) =
      ((fx.fixText a).1 ++ (fx.fixText b).1, (fx.fixText a).2 + (fx.fixText b).2) := by
  have hmeet := Line.meet_split a.toList b.toList hcut
  obtain ⟨hlines, hcounts⟩ := meet_pass ha fx.rules hmeet {} {}
  have htext := congrArg String.ofList (Line.join_of_meet hlines)
  rw [String.ofList_append] at htext
  rw [← String.toList_append] at htext hcounts
  exact Prod.ext htext hcounts

/-- Fixing a text in two parts, of which the first is empty or ends a line, is fixing it as a
whole, also where the cut divides a carriage return from its line feed. And all lines keep their
endings, so that none is joined with another, divided, added or dropped. -/
theorem fixText_local [Regex.Compiler] {d : Defaults} {only : Option (List Rule)}
    (h : ofDefaults d only = .ok fx) :
    (∀ a b : String, (a = "" ∨ ∃ s, a = s ++ "\n" ∨ a = s ++ "\r") →
        fx.fixText (a ++ b) =
          ((fx.fixText a).1 ++ (fx.fixText b).1,
            { fqcn := (fx.fixText a).2.fqcn + (fx.fixText b).2.fqcn
              truthy := (fx.fixText a).2.truthy + (fx.fixText b).2.truthy
              names := (fx.fixText a).2.names + (fx.fixText b).2.names })) ∧
      ∀ s : String, (Line.split (fx.fixText s).1.toList).map Line.ending =
        (Line.split s.toList).map Line.ending := by
  have ha := accepted_of_ofDefaults h
  refine ⟨?_, ?_⟩
  · intro a b hcut
    apply fixText_append ha
    rcases hcut with rfl | ⟨s, rfl | rfl⟩
    · simp
    · simp [Line.isBreak]
    · simp [Line.isBreak]
  · intro s
    rw [split_fixText ha, List.map_map]
    rfl

/-- A cut between a carriage return and its line feed. -/
theorem fixText_local_divided :
    let a := "  apt:\r\n  k: yes\r"
    let b := "\n- name: x\n"
    ofDefaults {} none = .ok builtin ∧ (a = "" ∨ ∃ s, a = s ++ "\n" ∨ a = s ++ "\r") ∧
      builtin.fixText (a ++ b) =
        ((builtin.fixText a).1 ++ (builtin.fixText b).1, { fqcn := 1, truthy := 1, names := 1 }) ∧
      (Line.split (builtin.fixText (a ++ b)).1.toList).map Line.ending = [.crlf, .crlf, .lf] := by
  intro a b
  have hcut : a = "" ∨ ∃ s, a = s ++ "\n" ∨ a = s ++ "\r" :=
    Or.inr ⟨"  apt:\r\n  k: yes", Or.inr (by decide)⟩
  have ha : (builtin.fixText a).2 = { fqcn := 1, truthy := 1 } := by cbv
  have hb : (builtin.fixText b).2 = { names := 1 } := by cbv
  have hlines : (Line.split (a ++ b).toList).map Line.ending = [.crlf, .crlf, .lf] := by decide
  obtain ⟨happend, hendings⟩ := fixText_local ofDefaults_builtin
  have hfix := happend a b hcut
  rw [ha, hb] at hfix
  exact ⟨ofDefaults_builtin, hcut, hfix, (hendings _).trans hlines⟩

end Fixer

end PlaybookTidy
