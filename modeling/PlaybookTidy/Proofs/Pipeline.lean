import Mathlib.Data.List.Induction
import PlaybookTidy.Proofs.Compiled
import PlaybookTidy.Proofs.Pass.Naming
import PlaybookTidy.Proofs.Pass.Qualify
import PlaybookTidy.Proofs.Pass.Truthy
import PlaybookTidy.Proofs.Rule

/-!
The passes of a fixer one after the other. No pass writes a line that an earlier pass or the pass
itself rewrites, so a text that was fixed stays as it is.
-/

namespace PlaybookTidy

namespace Fixer

/-- A fixer that settings may have: each rule at most once and in order, and a table in effect. -/
structure Accepted (fx : Fixer) : Prop where
  rules : fx.rules.Sublist Rule.all
  table : ModuleTable.Accepted (fx.table.map TableRow.toModuleName)

/-- A fixer for settings has rules in order and a table in effect. -/
theorem accepted_of_ofDefaults [Regex.Compiler] {d : Defaults} {only : Option (List Rule)}
    {fx : Fixer} (h : ofDefaults d only = .ok fx) : fx.Accepted := by
  obtain ⟨table, htable, -, rfl⟩ := ofDefaults_eq_ok_iff.1 h
  exact ⟨List.filter_sublist, ModuleTable.accepted_of_effective htable⟩

/-- What a rule makes of one line, if it rewrites it. -/
def passBody? (fx : Fixer) : Rule → List Char → Option (List Char)
  | .fqcn => Qualify.replaceBody? (fx.table.map TableRow.toModuleName)
  | .truthy => Truthy.rewriteBody?
  | .names => Naming.rewriteBody?

/-- With a table in effect each rule rewrites line by line. -/
theorem applyRule_eq {fx : Fixer} (ha : fx.Accepted) (r : Rule) (ls : List Line) :
    fx.applyRule r ls = Line.rewriteEach (fx.passBody? r) ls := by
  cases r with
  | fqcn => exact Qualify.rewrite_eq ha.table ls
  | truthy => rfl
  | names => rfl

theorem keepsBodies {fx : Fixer} (ha : fx.Accepted) (r : Rule) :
    Line.KeepsBodies (fx.passBody? r) := by
  cases r with
  | fqcn => exact Qualify.keepsBodies ha.table
  | truthy => exact Truthy.keepsBodies
  | names => exact Naming.keepsBodies

/-- The rule `r` rewrites no line that the rule `q` wrote. -/
def Settles (fx : Fixer) (r q : Rule) : Prop :=
  ∀ b b', fx.passBody? q b = some b' → fx.passBody? r b' = none

/-- No rule rewrites what it wrote itself. -/
theorem settles_self {fx : Fixer} (ha : fx.Accepted) (r : Rule) : fx.Settles r r := by
  intro b b' h
  cases r with
  | fqcn =>
    exact Qualify.replaceBody?_settles ha.table (List.Subset.refl _) (List.Subset.refl _) h
  | truthy => exact Truthy.rewriteBody?_settles h
  | names => exact Naming.rewriteBody?_settles h

theorem settles_fqcn_truthy {fx : Fixer} (ha : fx.Accepted) : fx.Settles .fqcn .truthy := by
  intro b b' h
  obtain ⟨indent, word, s, v, -, hi, -, hw, -, -, rfl⟩ := Truthy.exists_of_rewriteBody? h
  exact Qualify.replaceBody?_of_blank ha.table hi (Truthy.isIndent_head_keyed hw) (by simp)

/-- A line with a name or a reference is no key of a row: a blank follows the key. -/
theorem passBody?_fqcn_lead {fx : Fixer} (ha : fx.Accepted) {lead : List Char}
    (hl : Naming.IsLead lead) (s : List Char) : fx.passBody? .fqcn (lead ++ s) = none := by
  obtain ⟨indent, hi, rfl | ⟨-, rfl⟩⟩ := hl
  · rw [List.append_assoc]
    exact Qualify.replaceBody?_of_blank ha.table hi (by simp [Line.isIndent]) (by simp)
  · rw [List.append_assoc]
    exact Qualify.replaceBody?_of_blank ha.table hi (by simp [Line.isIndent]) (by simp)

/-- The hyphen before a name is no word. -/
theorem passBody?_truthy_name (fx : Fixer) {indent : List Char}
    (hi : ∀ c ∈ indent, Line.isIndent c) (s : List Char) :
    fx.passBody? .truthy (indent ++ "- name: ".toList ++ s) = none := by
  rw [List.append_assoc]
  exact Truthy.rewriteBody?_of_head hi (by decide) (by decide) (by decide) _

/-- A reference is a key like any other, so its value may be a truth value. -/
theorem passBody?_truthy_notify (fx : Fixer) {indent : List Char}
    (hi : ∀ c ∈ indent, Line.isIndent c) (hne : indent ≠ []) (s : List Char) :
    fx.passBody? .truthy (indent ++ "notify: ".toList ++ s) =
      (Truthy.value? (s.dropWhile Line.isIndent)).map fun v =>
        indent ++ "notify: ".toList ++ v := by
  have hw : ∀ d ∈ "notify".toList, Text.isWordChar d := by
    rw [← List.all_eq_true]
    decide
  have hform : indent ++ "notify: ".toList ++ s =
      indent ++ ("notify".toList ++ ':' :: ' ' :: s) := by
    simp
  have hdrop : (' ' :: s).dropWhile Line.isIndent = s.dropWhile Line.isIndent := by
    simp [Line.isIndent]
  rw [passBody?, hform, Truthy.rewriteBody?_keyed hi hw, hdrop]
  simp [hne, Line.isIndent]

theorem settles_fqcn_names {fx : Fixer} (ha : fx.Accepted) : fx.Settles .fqcn .names := by
  intro b b' h
  obtain ⟨lead, c, s, hl, -, -, rfl⟩ := Naming.rewriteBody?_eq_some_iff.1 h
  exact passBody?_fqcn_lead ha hl _

/-- A capital letter begins neither `yes` nor `no`. -/
theorem value?_toUpper {c : Char} (hc : c.isLower) (s : List Char) :
    Truthy.value? ((c.toUpper :: s).dropWhile Line.isIndent) = none := by
  have hb : Line.isIndent c.toUpper = false := by
    have hblank : c.toUpper ≠ ' ' := Naming.toUpper_ne hc (by decide)
    have htab : c.toUpper ≠ '\t' := Naming.toUpper_ne hc (by decide)
    simp [Line.isIndent, hblank, htab]
  have hy : c.toUpper ≠ 'y' := Naming.toUpper_ne hc (by decide)
  have hn : c.toUpper ≠ 'n' := Naming.toUpper_ne hc (by decide)
  rw [List.dropWhile_cons_of_neg (by simp [hb])]
  unfold Truthy.value?
  split
  · rename_i heq
    exact absurd (List.cons.inj heq).1 hy
  · rename_i heq
    exact absurd (List.cons.inj heq).1 hn
  · rfl

/-- What the rule for names wrote holds no plain `yes` or `no`. -/
theorem settles_truthy_names (fx : Fixer) : fx.Settles .truthy .names := by
  intro b b' h
  obtain ⟨lead, c, s, ⟨indent, hi, hlead⟩, hc, -, rfl⟩ := Naming.rewriteBody?_eq_some_iff.1 h
  rcases hlead with rfl | ⟨hne, rfl⟩
  · exact passBody?_truthy_name fx hi _
  · rw [passBody?_truthy_notify fx hi hne, value?_toUpper hc]
    rfl

/-- No rule rewrites what a later one wrote. -/
theorem pairwise_settles {fx : Fixer} (ha : fx.Accepted) : fx.rules.Pairwise fx.Settles := by
  refine List.Pairwise.sublist ha.rules ?_
  simp only [Rule.all, List.pairwise_cons, List.mem_cons, List.not_mem_nil, or_false,
    forall_eq_or_imp, forall_eq, false_implies, implies_true, List.Pairwise.nil, and_true]
  exact ⟨⟨settles_fqcn_truthy ha, settles_fqcn_names ha⟩, settles_truthy_names fx⟩

def fixBody (fx : Fixer) (rs : List Rule) (body : List Char) : List Char :=
  rs.foldl (fun b r => (fx.passBody? r b).getD b) body

/-- What a rule makes of a line, if it is one of the rules. -/
def stepBody (fx : Fixer) (r : Rule) (body : List Char) : List Char :=
  if r ∈ fx.rules then (fx.passBody? r body).getD body else body

/-- The rules of a fixer are the passes in their order, less those that are not among them. -/
theorem fixBody_eq {fx : Fixer} (ha : fx.Accepted) (body : List Char) :
    fx.fixBody fx.rules body = fx.stepBody .names (fx.stepBody .truthy (fx.stepBody .fqcn body)) := by
  have hrules : fx.rules = Rule.all.filter fun r => r ∈ fx.rules :=
    (Rule.normalize_of_sublist ha.rules).symm
  rw [fixBody, hrules, List.foldl_filter]
  simp [Rule.all, stepBody]

/-- After all passes no pass rewrites the line. -/
theorem passBody?_fixBody {fx : Fixer} (ha : fx.Accepted) {rs : List Rule}
    (hrs : rs.Pairwise fx.Settles) (body : List Char) :
    ∀ r ∈ rs, fx.passBody? r (fx.fixBody rs body) = none := by
  induction rs using List.reverseRecOn with
  | nil => exact nofun
  | append_singleton rs q ih =>
    obtain ⟨hinit, -, hlast⟩ := List.pairwise_append.1 hrs
    have hstep : fx.fixBody (rs ++ [q]) body =
        (fx.passBody? q (fx.fixBody rs body)).getD (fx.fixBody rs body) := by
      simp [fixBody]
    intro r hr
    rw [hstep]
    cases hq : fx.passBody? q (fx.fixBody rs body) with
    | none =>
      -- The last pass left the line as the earlier ones made it.
      rcases List.mem_append.1 hr with hr | hr
      · exact ih hinit r hr
      · obtain rfl : r = q := by simpa using hr
        exact hq
    | some b' =>
      -- What the last pass wrote no earlier pass rewrites.
      rcases List.mem_append.1 hr with hr | hr
      · exact hlast r hr q (by simp) _ _ hq
      · obtain rfl : r = q := by simpa using hr
        exact settles_self ha r _ _ hq

theorem record_zero (n : Replacements) (r : Rule) : n.record r 0 = n := by
  cases r <;> rfl

/-- The passes rewrite line by line, and what they make are the lines of a text again. -/
theorem fixLines_lines {fx : Fixer} (ha : fx.Accepted) (ls : List Line) :
    (fx.fixLines ls).1 = ls.map (fun l => { l with body := fx.fixBody fx.rules l.body }) ∧
      (Line.Regular ls → Line.Regular (fx.fixLines ls).1) := by
  unfold fixLines
  generalize ({} : Replacements) = n
  generalize fx.rules = rs
  induction rs generalizing ls n with
  | nil => exact ⟨by simp [fixBody], id⟩
  | cons r rs ih =>
    simp only [List.foldl_cons, applyRule_eq ha] at ih ⊢
    obtain ⟨hmap, hreg⟩ := ih (Line.rewriteEach (fx.passBody? r) ls).1
      (n.record r (Line.rewriteEach (fx.passBody? r) ls).2)
    refine ⟨?_, fun h => hreg (Line.regular_rewriteEach (keepsBodies ha r) h)⟩
    rw [hmap]
    simp [Line.rewriteEach, fixBody]

/-- Lines that no pass rewrites stay, and nothing is counted. -/
theorem fixLines_of_settled {fx : Fixer} (ha : fx.Accepted) {ls : List Line}
    (h : ∀ l ∈ ls, ∀ r ∈ fx.rules, fx.passBody? r l.body = none) : fx.fixLines ls = (ls, {}) := by
  unfold fixLines
  generalize ({} : Replacements) = n
  generalize hrs : fx.rules = rs at h
  clear hrs
  induction rs with
  | nil => rfl
  | cons r rs ih =>
    have hr : ∀ l ∈ ls, fx.passBody? r l.body = none := fun l hl => h l hl r List.mem_cons_self
    simp only [List.foldl_cons, applyRule_eq ha, Line.rewriteEach_of_settled hr,
      record_zero] at ih ⊢
    exact ih fun l hl q hq => h l hl q (List.mem_cons_of_mem r hq)

def builtin : Fixer := ⟨Rule.all, ModuleTable.merged Overrides.empty⟩

def truthyOnly : Fixer := ⟨[.truthy], ModuleTable.merged Overrides.empty⟩

theorem effective_empty :
    ModuleTable.effective Overrides.empty = .ok (ModuleTable.merged Overrides.empty) :=
  ModuleTable.effective_of_dotted (by decide) (by decide)

theorem compiles_empty : Compiles (ModuleTable.merged Overrides.empty) :=
  compiles_merged (List.forall_mem_nil _)

theorem ofDefaults_builtin : ofDefaults {} none = .ok builtin :=
  ofDefaults_eq_ok_iff.2 ⟨_, effective_empty, compiles_empty, rfl⟩

theorem ofDefaults_truthyOnly : ofDefaults {} (some [.truthy]) = .ok truthyOnly :=
  ofDefaults_eq_ok_iff.2 ⟨_, effective_empty, compiles_empty, rfl⟩

/-- The lines of a fixed text are the fixed lines of the text, with the endings they had. -/
theorem split_fixText {fx : Fixer} (ha : fx.Accepted) (s : String) :
    Line.split (fx.fixText s).1.toList =
      (Line.split s.toList).map fun l => { l with body := fx.fixBody fx.rules l.body } := by
  obtain ⟨hmap, hreg⟩ := fixLines_lines ha (Line.split s.toList)
  rw [← hmap]
  simp [fixText, Line.split_join (hreg (Line.regular_split _))]

/-- Fixing a text that was fixed changes nothing and counts nothing. -/
theorem fixText_fixText {fx : Fixer} (ha : fx.Accepted) (s : String) :
    fx.fixText (fx.fixText s).1 = ((fx.fixText s).1, {}) := by
  -- The lines that were made are those that the second fixing reads.
  have hlines : (fx.fixLines (Line.split s.toList)).1 = Line.split (fx.fixText s).1.toList := by
    rw [(fixLines_lines ha _).1, split_fixText ha]
  have hsettled : fx.fixLines (Line.split (fx.fixText s).1.toList) =
      (Line.split (fx.fixText s).1.toList, {}) := by
    apply fixLines_of_settled ha
    intro l hl r hr
    rw [split_fixText ha] at hl
    obtain ⟨k, -, rfl⟩ := List.mem_map.1 hl
    exact passBody?_fixBody ha (pairwise_settles ha) k.body r hr
  calc fx.fixText (fx.fixText s).1
      = (String.ofList (Line.join (Line.split (fx.fixText s).1.toList)), {}) := by
        rw [fixText, hsettled]
    _ = ((fx.fixText s).1, {}) := by rw [Line.join_split, String.ofList_toList]

/-- Whatever the settings and the selection of rules, fixing a second time is no change. -/
theorem fixText_idempotent [Regex.Compiler] {d : Defaults} {only : Option (List Rule)}
    {fx : Fixer} (h : ofDefaults d only = .ok fx) (s : String) :
    fx.fixText (fx.fixText s).1 = ((fx.fixText s).1, { fqcn := 0, truthy := 0, names := 0 }) :=
  fixText_fixText (accepted_of_ofDefaults h) s

/-- A row of its own, rules in disorder, and a value that two passes rewrite. -/
theorem fixText_idempotent_custom_row :
    let d : Defaults := { fqcn := Overrides.empty.insert "zzz" "acme.tools.zzz" }
    let fx : Fixer := ⟨[.fqcn, .truthy, .names], ModuleTable.merged d.fqcn⟩
    let s := "  zzz:\r\n  notify: yes\r"
    ofDefaults d (some [.names, .truthy, .names, .fqcn]) = .ok fx ∧
      fx.fixText (fx.fixText s).1 = ((fx.fixText s).1, { fqcn := 0, truthy := 0, names := 0 }) := by
  intro d fx s
  have hentries : d.fqcn.entries = [("zzz", "acme.tools.zzz")] := rfl
  have htable : ModuleTable.effective d.fqcn = .ok (ModuleTable.merged d.fqcn) := by
    refine ModuleTable.effective_of_dotted ?_ ?_
    · rw [hentries]
      decide
    · rw [hentries]
      decide
  have hcompiles : Compiles (ModuleTable.merged d.fqcn) := by
    apply compiles_merged
    rw [hentries]
    decide
  have h : ofDefaults d (some [.names, .truthy, .names, .fqcn]) = .ok fx :=
    ofDefaults_eq_ok_iff.2 ⟨_, htable, hcompiles, rfl⟩
  exact ⟨h, fixText_idempotent h s⟩

end Fixer

end PlaybookTidy
