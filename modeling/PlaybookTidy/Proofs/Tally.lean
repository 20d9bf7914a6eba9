import Mathlib.Algebra.Order.BigOperators.Group.List
import Mathlib.Algebra.Order.Group.Nat
import PlaybookTidy.Proofs.Pipeline
import PlaybookTidy.Proofs.Run.Frame

/-!
How the counts of replacements account for what changed. A line that changes is counted once. Only
a reference to a truth value is counted twice where two passes rewrite it.
-/

namespace PlaybookTidy

namespace Line

def differences (ls ms : List Line) : Nat := (ls.zip ms).countP fun p => p.1 ≠ p.2

theorem differences_cons (l m : Line) (ls ms : List Line) :
    differences (l :: ls) (m :: ms) = differences ls ms + if m = l then 0 else 1 := by
  unfold differences
  rw [List.zip_cons_cons, List.countP_cons]
  by_cases h : m = l
  · simp [h]
  · have hne : l ≠ m := Ne.symm h
    simp [h, hne]

end Line

namespace Truthy

/-- A line that refers to a handler by `yes` or `no`: indentation, the key `notify`, blanks, the
value, and blanks or none. -/
def IsReference (body : List Char) : Prop :=
  ∃ indent blanks word after : List Char, indent ≠ [] ∧ (∀ c ∈ indent, Line.isIndent c) ∧
    blanks ≠ [] ∧ (∀ c ∈ blanks, Line.isIndent c) ∧
    (word = "yes".toList ∨ word = "no".toList) ∧ (∀ c ∈ after, Line.isIndent c) ∧
    body = indent ++ "notify:".toList ++ blanks ++ word ++ after

/-- The key of an indented line, as the pass for truth values sees it. -/
theorem key_keyed {indent word : List Char} (hi : ∀ c ∈ indent, Line.isIndent c)
    (hw : ∀ c ∈ word, Text.isWordChar c) (s : List Char) :
    ((indent ++ (word ++ ':' :: s)).dropWhile Line.isIndent).takeWhile Text.isWordChar = word := by
  have hcolon : Text.isWordChar ':' = false := by decide
  rw [Line.dropWhile_isIndent hi (isIndent_head_keyed hw)]
  simp [List.takeWhile_append_of_pos hw, hcolon]

theorem isWordChar_notify : ∀ c ∈ "notify".toList, Text.isWordChar c := by
  rw [← List.all_eq_true]
  decide

/-- Before a truth value that is rewritten there is a blank. -/
theorem isSome_rewriteBody?_keyed {indent word : List Char} (hi : ∀ c ∈ indent, Line.isIndent c)
    (hw : ∀ c ∈ word, Text.isWordChar c) {s : List Char} :
    (rewriteBody? (indent ++ (word ++ ':' :: s))).isSome ↔
      indent ≠ [] ∧ word ≠ [] ∧ (∃ c r, s = c :: r ∧ Line.isIndent c) ∧ IsTruthValue s := by
  have hhead : s.head?.any Line.isIndent = true ↔ ∃ c r, s = c :: r ∧ Line.isIndent c := by
    cases s <;> simp
  rw [rewriteBody?_keyed hi hw, ← isSome_value?_iff, ← hhead]
  split
  · rename_i h
    simp only [Bool.or_eq_true, decide_eq_true_eq, Bool.not_eq_true'] at h
    grind
  · rename_i h
    simp only [Bool.or_eq_true, decide_eq_true_eq, Bool.not_eq_true', not_or] at h
    grind

/-- The lines that refer to a truth value are those with the key `notify` that are rewritten. -/
theorem isReference_iff {body : List Char} :
    IsReference body ↔ (rewriteBody? body).isSome ∧
      (body.dropWhile Line.isIndent).takeWhile Text.isWordChar = "notify".toList := by
  constructor
  · rintro ⟨indent, blanks, word, after, hne, hi, hblanks, hb, hword, hafter, rfl⟩
    have hform : indent ++ "notify:".toList ++ blanks ++ word ++ after =
        indent ++ ("notify".toList ++ ':' :: (blanks ++ (word ++ after))) := by
      simp
    obtain ⟨b, bs, rfl⟩ := List.exists_cons_of_ne_nil hblanks
    rw [hform, isSome_rewriteBody?_keyed hi isWordChar_notify]
    exact ⟨⟨hne, by simp, ⟨b, _, rfl, hb b List.mem_cons_self⟩,
      ⟨b :: bs, word, after, hb, hword, hafter, rfl⟩⟩, key_keyed hi isWordChar_notify _⟩
  · rintro ⟨hsome, hkey⟩
    obtain ⟨out, hout⟩ := Option.isSome_iff_exists.1 hsome
    obtain ⟨indent, word, s, v, -, hi, -, hw, rfl, -, -⟩ := exists_of_rewriteBody? hout
    rw [key_keyed hi hw] at hkey
    subst hkey
    obtain ⟨hne, -, ⟨c, r, hs, hc⟩, before, word, after, hbefore, hword, hafter, hvalue⟩ :=
      (isSome_rewriteBody?_keyed hi hw).1 hsome
    refine ⟨indent, before, word, after, hne, hi, ?_, hbefore, hword, hafter, ?_⟩
    · -- Without a blank before it the value would begin with one of its own letters.
      rintro rfl
      rw [hs] at hvalue
      rcases hword with rfl | rfl
      · obtain ⟨rfl, -⟩ := List.cons.inj hvalue
        exact absurd hc (by decide)
      · obtain ⟨rfl, -⟩ := List.cons.inj hvalue
        exact absurd hc (by decide)
    · rw [hvalue]
      simp

instance : DecidablePred IsReference := fun _ => decidable_of_iff _ isReference_iff.symm

end Truthy

namespace Fixer

variable {fx : Fixer} {body out : List Char}

/-- How many of some rules, one after the other, rewrite a line. -/
def rewrites (fx : Fixer) : List Rule → List Char → Nat
  | [], _ => 0
  | r :: rs, body =>
    (fx.passBody? r body).isSome.toNat + fx.rewrites rs ((fx.passBody? r body).getD body)

theorem total_record (n : Replacements) (r : Rule) (k : Nat) :
    (n.record r k).total = n.total + k := by
  cases r <;> simp only [Replacements.record, Replacements.total] <;> omega

/-- The passes count, line by line, how many of them rewrite it. -/
theorem total_fixLines (ha : fx.Accepted) (ls : List Line) :
    (fx.fixLines ls).2.total = (ls.map fun l => fx.rewrites fx.rules l.body).sum := by
  have hsum : (fx.fixLines ls).2.total =
      Replacements.total {} + (ls.map fun l => fx.rewrites fx.rules l.body).sum := by
    unfold fixLines
    generalize ({} : Replacements) = n
    generalize fx.rules = rs
    induction rs generalizing ls n with
    | nil => simp [rewrites]
    | cons r rs ih =>
      have hcount : (Line.rewriteEach (fx.passBody? r) ls).2 =
          (ls.map fun l => (fx.passBody? r l.body).isSome.toNat).sum := by
        induction ls with
        | nil => rfl
        | cons l ls ihl => rw [Line.rewriteEach_cons, ihl, List.map_cons, List.sum_cons, Nat.add_comm]
      simp only [List.foldl_cons, applyRule_eq ha] at ih ⊢
      rw [ih, total_record, hcount, Nat.add_assoc]
      simp only [Line.rewriteEach, List.map_map, rewrites, List.sum_map_add]
      rfl
  simpa [Replacements.total] using hsum

/-- A line stays as it is exactly if no rule rewrites it. -/
theorem rewrites_eq_zero_iff {rs : List Rule} :
    fx.rewrites rs body = 0 ↔ ∀ r ∈ rs, fx.passBody? r body = none := by
  induction rs generalizing body with
  | nil => simp [rewrites]
  | cons r rs ih =>
    cases h : fx.passBody? r body <;> simp [rewrites, h, ih]

/-- A line stays exactly if no rule rewrites it. -/
theorem fixBody_eq_self_iff (ha : fx.Accepted) :
    fx.fixBody fx.rules body = body ↔ fx.rewrites fx.rules body = 0 := by
  rw [rewrites_eq_zero_iff]
  constructor
  · intro h r hr
    have hsettled := passBody?_fixBody ha (pairwise_settles ha) body r hr
    rwa [h] at hsettled
  · intro h
    unfold fixBody
    generalize fx.rules = rs at h
    induction rs with
    | nil => rfl
    | cons r rs ih =>
      rw [List.foldl_cons, h r List.mem_cons_self]
      exact ih fun q hq => h q (List.mem_cons_of_mem r hq)

/-- What a rule makes of a line, if it is one of the rules and rewrites the line. -/
def stepBody? (fx : Fixer) (r : Rule) (body : List Char) : Option (List Char) :=
  if r ∈ fx.rules then fx.passBody? r body else none

theorem getD_stepBody? (r : Rule) (body : List Char) :
    (fx.stepBody? r body).getD body = fx.stepBody r body := by
  unfold stepBody? stepBody
  split <;> rfl

/-- How often a line is rewritten is counted pass by pass. -/
theorem rewrites_rules (ha : fx.Accepted) (body : List Char) :
    fx.rewrites fx.rules body = (fx.stepBody? .fqcn body).isSome.toNat +
      ((fx.stepBody? .truthy (fx.stepBody .fqcn body)).isSome.toNat +
        (fx.stepBody? .names (fx.stepBody .truthy (fx.stepBody .fqcn body))).isSome.toNat) := by
  -- A rule that is not selected does nothing and counts nothing.
  have hcons : ∀ (r : Rule) (rs : List Rule) (body : List Char),
      fx.rewrites ((r :: rs).filter fun r => r ∈ fx.rules) body =
        (fx.stepBody? r body).isSome.toNat +
          fx.rewrites (rs.filter fun r => r ∈ fx.rules) (fx.stepBody r body) := by
    intro r rs body
    by_cases hr : r ∈ fx.rules <;> simp [hr, rewrites, stepBody?, stepBody]
  have hrules : fx.rewrites fx.rules body =
      fx.rewrites (Rule.all.filter fun r => r ∈ fx.rules) body := by
    exact congrArg (fx.rewrites · body) (Rule.normalize_of_sublist ha.rules).symm
  rw [hrules, Rule.all, hcons, hcons, hcons]
  simp [rewrites]

/-- A key that stands alone on its line holds no blank after its indentation, so only the pass for
module names rewrites the line. -/
theorem passBody?_key {name : String} (hne : name.toList ≠ [])
    (hname : ∀ c ∈ name.toList, Text.isBlank c = false) {indent : List Char}
    (hi : ∀ c ∈ indent, Line.isIndent c) {r : Rule} (hr : r ≠ .fqcn) :
    fx.passBody? r (indent ++ (name.toList ++ [':'])) = none := by
  have hdrop : (indent ++ (name.toList ++ [':'])).dropWhile Line.isIndent = name.toList ++ [':'] :=
    Line.dropWhile_isIndent hi (Qualify.isIndent_head_key hne hname)
  -- The other passes look for a blank after the indentation, and a key has none.
  have hblank : ∀ c ∈ name.toList ++ [':'], Line.isIndent c = false := by
    intro c hc
    rcases List.mem_append.1 hc with hc | hc
    · exact Qualify.not_isIndent_of_not_isBlank (hname c hc)
    · obtain rfl : c = ':' := by simpa using hc
      rfl
  rw [Option.eq_none_iff_forall_ne_some]
  intro out h
  cases r with
  | fqcn => exact hr rfl
  | truthy =>
    obtain ⟨i, word, s, v, -, hi', -, hw, hbody, -, -⟩ := Truthy.exists_of_rewriteBody? h
    have hsome : (Truthy.rewriteBody? (i ++ (word ++ ':' :: s))).isSome := by
      rw [← hbody]
      exact Option.isSome_of_mem h
    obtain ⟨-, -, ⟨c, t, rfl, hc⟩, -⟩ := (Truthy.isSome_rewriteBody?_keyed hi' hw).1 hsome
    rw [hbody, Line.dropWhile_isIndent hi' (Truthy.isIndent_head_keyed hw)] at hdrop
    have hmem : c ∈ name.toList ++ [':'] := by
      rw [← hdrop]
      simp
    simp [hblank c hmem] at hc
  | names =>
    obtain ⟨lead, c, s, ⟨i, hi', hlead⟩, -, hbody, -⟩ := Naming.rewriteBody?_eq_some_iff.1 h
    have hmem : ' ' ∈ name.toList ++ [':'] := by
      rw [← hdrop, hbody]
      rcases hlead with rfl | ⟨-, rfl⟩
      · rw [List.append_assoc, Line.dropWhile_isIndent hi' (by simp [Line.isIndent])]
        simp
      · rw [List.append_assoc, Line.dropWhile_isIndent hi' (by simp [Line.isIndent])]
        simp
    exact absurd (hblank ' ' hmem) (by decide)

/-- A line with a module name is rewritten by no other pass, before and after. -/
theorem passBody?_of_fqcn (ha : fx.Accepted) (h : fx.passBody? .fqcn body = some out) {r : Rule}
    (hr : r ≠ .fqcn) : fx.passBody? r body = none ∧ fx.passBody? r out = none := by
  obtain ⟨m, hm, indent, -, hi, rfl, rfl⟩ := Qualify.exists_of_replaceBody? h
  obtain ⟨hne, hall⟩ := ModuleTable.isReplacement_iff.1 (ha.table.replacement m hm)
  obtain ⟨hne', hall'⟩ := ModuleTable.mem_short (ha.table.short m hm)
  refine ⟨passBody?_key hne' ?_ hi hr, passBody?_key hne hall hi hr⟩
  exact fun c hc => ModuleTable.not_isBlank_of_short (hall' c hc)

/-- Of the lines with a truth value that was replaced, the references are capitalized as well. -/
theorem isSome_names_of_truthy (h : fx.passBody? .truthy body = some out) :
    (fx.passBody? .names out).isSome ↔ Truthy.IsReference body := by
  obtain ⟨indent, word, s, v, hne, hi, -, hw, rfl, hv, rfl⟩ := Truthy.exists_of_rewriteBody? h
  have hkey := Truthy.key_keyed hi hw
  rw [Truthy.isReference_iff, hkey]
  constructor
  · intro hsome
    refine ⟨Option.isSome_of_mem h, ?_⟩
    obtain ⟨out', hout⟩ := Option.isSome_iff_exists.1 hsome
    obtain ⟨lead, c, t, ⟨i, hi', hlead⟩, -, hbody, -⟩ := Naming.rewriteBody?_eq_some_iff.1 hout
    rw [← hkey, hbody]
    rcases hlead with rfl | ⟨-, rfl⟩
    · -- A hyphen is no word, but the line has one for its key.
      have hdrop := Line.dropWhile_isIndent hi (Truthy.isIndent_head_keyed (s := ' ' :: v) hw)
      rw [hbody, List.append_assoc, Line.dropWhile_isIndent hi' (by simp [Line.isIndent])] at hdrop
      cases word with
      | nil => simp at hdrop
      | cons d word =>
        obtain ⟨rfl, -⟩ := List.cons.inj hdrop
        exact absurd (hw '-' List.mem_cons_self) (by decide)
    · have hform : i ++ "notify: ".toList ++ c :: t =
          i ++ ("notify".toList ++ ':' :: ' ' :: c :: t) := by
        simp
      rw [hform, Truthy.key_keyed hi' Truthy.isWordChar_notify]
  · rintro ⟨-, rfl⟩
    have hlead : Naming.IsLead (indent ++ "notify: ".toList) := ⟨indent, hi, Or.inr ⟨hne, rfl⟩⟩
    have hform : indent ++ ("notify".toList ++ ':' :: ' ' :: v) =
        indent ++ "notify: ".toList ++ v := by
      simp
    rw [hform, passBody?, Naming.rewriteBody?, Naming.afterKey?_lead hlead]
    rcases Truthy.value?_eq_some hv with rfl | rfl <;> rfl

theorem of_stepBody? {r : Rule} (h : fx.stepBody? r body = some out) :
    r ∈ fx.rules ∧ fx.passBody? r body = some out := by
  simpa [stepBody?] using h

theorem stepBody_eq_of_some {r : Rule} (h : fx.stepBody? r body = some out) :
    fx.stepBody r body = out := by
  rw [← getD_stepBody?, h, Option.getD_some]

theorem stepBody_eq_of_none {r : Rule} (h : fx.stepBody? r body = none) :
    fx.stepBody r body = body := by
  rw [← getD_stepBody?, h, Option.getD_none]

/-- A key of the table is rewritten once, and it is no reference. -/
theorem rewrites_of_fqcn (ha : fx.Accepted) (h : fx.stepBody? .fqcn body = some out) :
    fx.rewrites fx.rules body = 1 ∧ ¬ Truthy.IsReference body := by
  have hpass := (of_stepBody? h).2
  constructor
  · have hother : ∀ r, r ≠ .fqcn → fx.stepBody? r out = none := by
      intro r hr
      simp [stepBody?, (passBody?_of_fqcn ha hpass hr).2]
    rw [rewrites_rules ha, h, stepBody_eq_of_some h, stepBody_eq_of_none (hother .truthy nofun),
      hother .truthy nofun, hother .names nofun]
    rfl
  · intro href
    have hnone : Truthy.rewriteBody? body = none :=
      (passBody?_of_fqcn ha hpass (r := .truthy) nofun).1
    simpa [hnone] using (Truthy.isReference_iff.1 href).1

/-- A truth value is rewritten once, or twice if it is a reference that then gets a capital letter.
-/
theorem rewrites_of_truthy (ha : fx.Accepted) (hfqcn : fx.stepBody? .fqcn body = none)
    (h : fx.stepBody? .truthy body = some out) :
    fx.rewrites fx.rules body =
      1 + if .names ∈ fx.rules ∧ Truthy.IsReference body then 1 else 0 := by
  have hnames : (fx.stepBody? .names out).isSome ↔
      .names ∈ fx.rules ∧ Truthy.IsReference body := by
    rw [← isSome_names_of_truthy (of_stepBody? h).2, stepBody?]
    by_cases hn : .names ∈ fx.rules <;> simp [hn]
  rw [rewrites_rules ha, hfqcn, stepBody_eq_of_none hfqcn, h, stepBody_eq_of_some h]
  by_cases hboth : .names ∈ fx.rules ∧ Truthy.IsReference body
  · simp [hnames.2 hboth, hboth]
  · have hnone : (fx.stepBody? .names out).isSome = false := by
      rwa [← hnames, Bool.not_eq_true] at hboth
    simp [hnone, hboth]

/-- Where truth values are replaced, a line that was left alone is no reference to one. -/
theorem rewrites_of_none (ha : fx.Accepted) (hfqcn : fx.stepBody? .fqcn body = none)
    (h : fx.stepBody? .truthy body = none) :
    fx.rewrites fx.rules body ≤ 1 ∧ ¬(.truthy ∈ fx.rules ∧ Truthy.IsReference body) := by
  constructor
  · rw [rewrites_rules ha, hfqcn, stepBody_eq_of_none hfqcn, h, stepBody_eq_of_none h]
    cases fx.stepBody? .names body <;> simp
  · rintro ⟨hmem, href⟩
    have hnone : Truthy.rewriteBody? body = none := by
      rw [stepBody?, if_pos hmem] at h
      exact h
    simpa [hnone] using (Truthy.isReference_iff.1 href).1

/-- A line that changes is counted once, and a reference to a truth value once more if both passes
that rewrite it are applied. -/
theorem rewrites_eq (ha : fx.Accepted) (body : List Char) :
    fx.rewrites fx.rules body = (if fx.fixBody fx.rules body = body then 0 else 1) +
      if .truthy ∈ fx.rules ∧ .names ∈ fx.rules ∧ Truthy.IsReference body then 1 else 0 := by
  simp only [fixBody_eq_self_iff ha]
  cases hfqcn : fx.stepBody? .fqcn body with
  | some out =>
    obtain ⟨hone, href⟩ := rewrites_of_fqcn ha hfqcn
    simp [hone, href]
  | none =>
    cases htruthy : fx.stepBody? .truthy body with
    | some out =>
      have hmem : .truthy ∈ fx.rules := (of_stepBody? htruthy).1
      rw [rewrites_of_truthy ha hfqcn htruthy]
      simp [hmem]
    | none =>
      obtain ⟨hle, href⟩ := rewrites_of_none ha hfqcn htruthy
      have hnot : ¬(.truthy ∈ fx.rules ∧ .names ∈ fx.rules ∧ Truthy.IsReference body) :=
        fun h => href ⟨h.1, h.2.2⟩
      rw [if_neg hnot]
      split <;> omega

/-- Line by line, the places that differ and the references rewritten twice add up to the count. -/
theorem differences_add_references (ha : fx.Accepted) (ls : List Line) :
    Line.differences ls (ls.map fun l => { l with body := fx.fixBody fx.rules l.body }) +
        (if .truthy ∈ fx.rules ∧ .names ∈ fx.rules then
          ls.countP fun l => Truthy.IsReference l.body else 0) =
      (ls.map fun l => fx.rewrites fx.rules l.body).sum := by
  induction ls with
  | nil => simp [Line.differences]
  | cons l ls ih =>
    have hline : ({ l with body := fx.fixBody fx.rules l.body } : Line) = l ↔
        fx.fixBody fx.rules l.body = l.body :=
      ⟨congrArg Line.body, fun h => by rw [h]⟩
    rw [List.map_cons, List.map_cons, List.sum_cons, ← ih, Line.differences_cons,
      rewrites_eq ha, List.countP_cons]
    simp only [hline, decide_eq_true_eq, ← and_assoc]
    by_cases hboth : .truthy ∈ fx.rules ∧ .names ∈ fx.rules
    · simp only [hboth, and_self, true_and, if_true]
      omega
    · simp only [hboth, false_and, if_false]
      omega

/-- A text stays as it is exactly if no replacement is counted. -/
theorem fixText_eq_self_iff (ha : fx.Accepted) (s : String) :
    (fx.fixText s).1 = s ↔ (fx.fixText s).2.total = 0 := by
  have htotal : (fx.fixText s).2.total = 0 ↔
      ∀ l ∈ Line.split s.toList, fx.fixBody fx.rules l.body = l.body := by
    have hsum : (fx.fixText s).2.total =
        ((Line.split s.toList).map fun l => fx.rewrites fx.rules l.body).sum :=
      total_fixLines ha _
    rw [hsum, List.sum_eq_zero_iff, List.forall_mem_map]
    simp only [fixBody_eq_self_iff ha]
  rw [htotal]
  constructor
  · -- A text that stays has lines that stay, each in its place.
    intro h l hl
    have hlines := split_fixText ha s
    rw [h] at hlines
    have hid := List.map_eq_map_iff.1 ((List.map_id _).trans hlines) l hl
    exact (congrArg Line.body hid).symm
  · intro h
    have hlines : (fx.fixLines (Line.split s.toList)).1 = Line.split s.toList := by
      rw [(fixLines_lines ha _).1]
      conv_rhs => rw [← List.map_id (Line.split s.toList)]
      exact List.map_congr_left fun l hl => by rw [h l hl]; rfl
    simp [fixText, hlines, Line.join_split]

variable {root p : Path} {dryRun : Bool} {t t' : Tree} {r : FileReport}

/-- A report says of a file that it changes exactly if it counts a replacement. -/
theorem changed_of_rewriteFile (ha : fx.Accepted) {file former : String}
    (h : (fx.rewriteFile dryRun p file former t).1 = .ok r) :
    r.changed = true ↔ r.replacements.total ≠ 0 := by
  have hreport : r.replacements = (fx.fixText former).2 ∧
      (r.changed = true ↔ (fx.fixText former).1 ≠ former) := by
    unfold rewriteFile at h
    dsimp only at h
    split at h
    · rename_i hsame
      obtain rfl := Except.ok.inj h
      simp [hsame]
    · rename_i hne
      split at h
      · obtain rfl := Except.ok.inj h
        simp [hne]
      · split at h
        · exact absurd h nofun
        · obtain rfl := Except.ok.inj h
          simp [hne]
  rw [hreport.2, hreport.1, ne_eq, fixText_eq_self_iff ha]

/-- A visit reports a change exactly if it counted replacements. -/
theorem changed_of_visit (ha : fx.Accepted) {o : Outcome}
    (h : fx.visit root dryRun p t = (.ok o, t')) (hr : o.report? = some r) :
    r.changed = true ↔ r.replacements.total ≠ 0 := by
  unfold visit at h
  dsimp only at h
  cases hread : t.readText p with
  | error e =>
    simp only [hread, Prod.mk.injEq, Except.ok.injEq] at h
    obtain rfl := h.1
    exact absurd hr nofun
  | ok former =>
    simp only [hread, Prod.mk.injEq] at h
    cases hrewrite : (fx.rewriteFile dryRun p (p.relativeTo root) former t).1 with
    | error e => simp [hrewrite, Except.map] at h
    | ok r' =>
      obtain rfl : Outcome.report r' = o := by simpa [hrewrite, Except.map] using h.1
      obtain rfl : r' = r := by simpa [Outcome.report?] using hr
      exact changed_of_rewriteFile ha hrewrite

theorem changed_of_visitAll (ha : fx.Accepted) {ps : List Path} {os : List Outcome}
    (h : fx.visitAll root dryRun ps t = (.ok os, t')) :
    ∀ r ∈ os.filterMap Outcome.report?, r.changed = true ↔ r.replacements.total ≠ 0 := by
  induction ps generalizing t os with
  | nil =>
    obtain rfl : [] = os := by simpa [visitAll] using congrArg Prod.fst h
    simp
  | cons p ps ih =>
    obtain ⟨o, rest, t₁, hvisit, hrest, rfl⟩ := visitAll_cons_eq_ok h
    intro r hr
    obtain ⟨o', ho', hreport⟩ := List.mem_filterMap.1 hr
    rcases List.mem_cons.1 ho' with rfl | ho'
    · exact changed_of_visit ha hvisit hreport
    · exact ih hrest r (List.mem_filterMap.2 ⟨o', ho', hreport⟩)

/-- The replacements that are counted are the lines that differ, and once more the references to
truth values if both passes that rewrite them are applied. So a text stays as it is exactly if
nothing is counted, and so it is with every file that is reported. -/
theorem replacements_account [Regex.Compiler] {d : Defaults} {only : Option (List Rule)}
    (h : ofDefaults d only = .ok fx) :
    (∀ s : String,
      (Line.split (fx.fixText s).1.toList).length = (Line.split s.toList).length ∧
      Line.differences (Line.split s.toList) (Line.split (fx.fixText s).1.toList) +
          (if .truthy ∈ fx.rules ∧ .names ∈ fx.rules then
            (Line.split s.toList).countP fun l => Truthy.IsReference l.body else 0) =
        (fx.fixText s).2.total ∧
      ((fx.fixText s).1 = s ↔ (fx.fixText s).2.total = 0)) ∧
    (∀ root p dryRun t r t', fx.fixFile root dryRun p t = (.ok r, t') →
      (r.changed = true ↔ r.replacements ≠ { fqcn := 0, truthy := 0, names := 0 })) ∧
    ∀ root ps dryRun t res t', fx.runFiles root dryRun ps t = (.ok res, t') →
      ∀ r ∈ res.files,
        (r.changed = true ↔ r.replacements ≠ { fqcn := 0, truthy := 0, names := 0 }) := by
  have ha := accepted_of_ofDefaults h
  have hzero : ∀ n : Replacements, n.total ≠ 0 ↔ n ≠ { fqcn := 0, truthy := 0, names := 0 } := by
    rintro ⟨a, b, c⟩
    simp only [Replacements.total, ne_eq, Replacements.mk.injEq]
    omega
  refine ⟨fun s => ⟨?_, ?_, fixText_eq_self_iff ha s⟩, ?_, ?_⟩
  · rw [split_fixText ha, List.length_map]
  · rw [split_fixText ha, differences_add_references ha]
    exact (total_fixLines ha _).symm
  · intro root p dryRun t r t' hfix
    unfold fixFile at hfix
    dsimp only at hfix
    split at hfix
    · exact absurd hfix nofun
    · rw [← hzero]
      exact changed_of_rewriteFile ha (congrArg Prod.fst hfix)
  · intro root ps dryRun t res t' hrun r hr
    obtain ⟨os, hos, rfl⟩ := runFiles_eq_ok hrun
    rw [← hzero]
    exact changed_of_visitAll ha hos r hr

/-- Of the three lines that change, one is rewritten twice. Of two files one changes. -/
theorem replacements_account_reference :
    let fx : Fixer := ⟨[.truthy, .names], ModuleTable.merged Overrides.empty⟩
    let s := "  notify:\tyes \r\n- name: x\n  apt:\r  k: no"
    let ps : List Path := [⟨"playbooks/a.yml".toList⟩, ⟨"playbooks/.a.yml.tmp".toList⟩]
    let os : List Outcome := [.report ⟨"playbooks/a.yml", true, false, { truthy := 1 }⟩,
      .report ⟨"playbooks/.a.yml.tmp", false, false, {}⟩]
    ofDefaults {} (some [.names, .truthy]) = .ok fx ∧
      (Line.split s.toList).countP (fun l => Truthy.IsReference l.body) = 1 ∧
      Line.differences (Line.split s.toList) (Line.split (fx.fixText s).1.toList) = 3 ∧
      (fx.fixText s).2 = { fqcn := 0, truthy := 2, names := 2 } ∧
      fx.runFiles ⟨Path.dot⟩ true ps crowded = (.ok (fx.resultOf ⟨Path.dot⟩ true os), crowded) ∧
      ∀ r ∈ (fx.resultOf ⟨Path.dot⟩ true os).files,
        (r.changed = true ↔ r.replacements ≠ { fqcn := 0, truthy := 0, names := 0 }) := by
  intro fx s ps os
  have hfx : ofDefaults {} (some [.names, .truthy]) = .ok fx :=
    ofDefaults_eq_ok_iff.2 ⟨_, effective_empty, compiles_empty, rfl⟩
  have hcount : (fx.fixText s).2 = { fqcn := 0, truthy := 2, names := 2 } := by cbv
  have href : (Line.split s.toList).countP (fun l => Truthy.IsReference l.body) = 1 := by decide
  have hrun : fx.runFiles ⟨Path.dot⟩ true ps crowded =
      (.ok (fx.resultOf ⟨Path.dot⟩ true os), crowded) := by cbv
  obtain ⟨htext, -, hfiles⟩ := replacements_account hfx
  have hlines := (htext s).2.1
  rw [if_pos (by decide), href, hcount] at hlines
  exact ⟨hfx, href, Nat.succ.inj hlines, hcount, hrun, hfiles _ _ _ _ _ _ hrun⟩

end Fixer

end PlaybookTidy
