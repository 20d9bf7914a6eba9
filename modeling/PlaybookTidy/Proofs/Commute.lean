import PlaybookTidy.Proofs.Tally

/-!
Which passes may change places. The pass for module names has nothing to do with the two others.
Those two meet on the lines that refer to a handler by a truth value, and nowhere else.
-/

namespace PlaybookTidy

namespace Line

variable {f g : List Char → Option (List Char)}

/-- Two passes that may change places on a text: it becomes the same, and each counts the same. -/
structure Commuting (p q : List Line → List Line × Nat) (s : String) : Prop where
  text : (onText q (onText p s).1).1 = (onText p (onText q s).1).1
  first : (onText p (onText q s).1).2 = (onText p s).2
  second : (onText q (onText p s).1).2 = (onText q s).2

def applied (f : List Char → Option (List Char)) (b : List Char) : List Char := (f b).getD b

theorem applied_of_some {b b' : List Char} (h : f b = some b') : applied f b = b' := by
  rw [applied, h, Option.getD_some]

theorem applied_of_none {b : List Char} (h : f b = none) : applied f b = b := by
  rw [applied, h, Option.getD_none]

/-- No body is rewritten by both, and neither rewrites what the other wrote. -/
structure Apart (f g : List Char → Option (List Char)) : Prop where
  disjoint : ∀ b, f b = none ∨ g b = none
  left : ∀ b b', g b = some b' → f b' = none
  right : ∀ b b', f b = some b' → g b' = none

theorem Apart.symm (h : Apart f g) : Apart g f := ⟨fun b => (h.disjoint b).symm, h.right, h.left⟩

/-- The answer to a body does not depend on whether the other rewriting came first. -/
theorem Apart.answer (h : Apart f g) (b : List Char) : f (applied g b) = f b := by
  cases hg : g b with
  | none => rw [applied_of_none hg]
  | some b' =>
    have hf : f b = none := (h.disjoint b).resolve_right (by simp [hg])
    rw [applied_of_some hg, h.left b b' hg, hf]

/-- Rewritings that are apart may change places on a body. -/
theorem Apart.applied_comm (h : Apart f g) (b : List Char) :
    applied g (applied f b) = applied f (applied g b) := by
  rcases h.disjoint b with hf | hg
  · have hf' : f (applied g b) = none := (h.answer b).trans hf
    rw [applied_of_none hf, applied_of_none hf']
  · have hg' : g (applied f b) = none := (h.symm.answer b).trans hg
    rw [applied_of_none hg, applied_of_none hg']

/-- A rewriting that is apart from another finds as many lines after it as before it. -/
theorem Apart.count (h : Apart f g) (ls : List Line) :
    (rewriteEach f (rewriteEach g ls).1).2 = (rewriteEach f ls).2 := by
  have hline : ∀ l : Line, f ((g l.body).getD l.body) = f l.body := fun l => h.answer l.body
  simp only [rewriteEach, List.countP_map, Function.comp_def, hline]

/-- Two rewritings make the same of a text in both orders exactly if they do of each line. -/
theorem onText_comm_iff (hf : KeepsBodies f) (hg : KeepsBodies g) {s : String} :
    (onText (rewriteEach g) (onText (rewriteEach f) s).1).1 =
        (onText (rewriteEach f) (onText (rewriteEach g) s).1).1 ↔
      ∀ l ∈ split s.toList, applied g (applied f l.body) = applied f (applied g l.body) := by
  rw [← split_toList_inj, split_onText hg, split_onText hf, split_onText hf, split_onText hg]
  simp only [rewriteEach, List.map_map, List.map_inj_left, Function.comp_apply, mk.injEq, and_true]
  rfl

/-- Rewritings that are apart on bodies may change places on texts. -/
theorem Apart.commuting (h : Apart f g) (hf : KeepsBodies f) (hg : KeepsBodies g) (s : String) :
    Commuting (rewriteEach f) (rewriteEach g) s where
  text := (onText_comm_iff hf hg).2 fun l _ => h.applied_comm l.body
  first := by
    show (rewriteEach f (split (onText (rewriteEach g) s).1.toList)).2 = _
    rw [split_onText hg, h.count]
    rfl
  second := by
    show (rewriteEach g (split (onText (rewriteEach f) s).1.toList)).2 = _
    rw [split_onText hf, h.symm.count]
    rfl

end Line

namespace Fixer

open Line (Apart Commuting applied applied_of_some applied_of_none)

variable {fx : Fixer} {body out out' : List Char}

/-- The pass for module names and any other pass. -/
theorem apart_fqcn (ha : fx.Accepted) {r : Rule} (hr : r ≠ .fqcn) :
    Apart (fx.passBody? .fqcn) (fx.passBody? r) where
  disjoint b := by
    cases h : fx.passBody? .fqcn b with
    | none => exact Or.inl rfl
    | some b' => exact Or.inr (passBody?_of_fqcn ha h hr).1
  left := by
    cases r with
    | fqcn => exact absurd rfl hr
    | truthy => exact settles_fqcn_truthy ha
    | names => exact settles_fqcn_names ha
  right b b' h := (passBody?_of_fqcn ha h hr).2

/-- Only a reference has both a truth value and a name that can be capitalized. -/
theorem isReference_of_both (ht : fx.passBody? .truthy body = some out)
    (hn : fx.passBody? .names body = some out') : Truthy.IsReference body := by
  obtain ⟨lead, c, s, ⟨indent, hi, hlead⟩, -, hbody, -⟩ := Naming.rewriteBody?_eq_some_iff.1 hn
  rcases hlead with rfl | ⟨-, rfl⟩
  · rw [hbody, passBody?_truthy_name fx hi] at ht
    exact absurd ht nofun
  · have hform : indent ++ "notify: ".toList ++ c :: s =
        indent ++ ("notify".toList ++ ':' :: ' ' :: c :: s) := by
      simp
    rw [Truthy.isReference_iff]
    refine ⟨Option.isSome_of_mem ht, ?_⟩
    rw [hbody, hform, Truthy.key_keyed hi Truthy.isWordChar_notify]

/-- On a reference the order decides: after the truth value the name is capitalized, and before it
there is none or it is no truth value any more. -/
theorem applied_ne_of_isReference (fx : Fixer) (h : Truthy.IsReference body) :
    applied (fx.passBody? .names) (applied (fx.passBody? .truthy) body) ≠
      applied (fx.passBody? .truthy) (applied (fx.passBody? .names) body) := by
  obtain ⟨out, ht⟩ : ∃ out, fx.passBody? .truthy body = some out :=
    Option.isSome_iff_exists.1 (Truthy.isReference_iff.1 h).1
  obtain ⟨last, hlast⟩ := Option.isSome_iff_exists.1 ((isSome_names_of_truthy ht).2 h)
  rw [applied_of_some ht, applied_of_some hlast]
  cases hn : fx.passBody? .names body with
  | none =>
    rw [applied_of_none hn, applied_of_some ht]
    rintro rfl
    have hnone : fx.passBody? .names last = none := Naming.rewriteBody?_settles hlast
    simp [hnone] at hlast
  | some out' =>
    rw [applied_of_some hn, applied_of_none (settles_truthy_names fx _ _ hn)]
    rintro rfl
    -- Both lines would be capitalized to one, so the truth value would be one that was written.
    obtain rfl : body = out := Naming.rewriteBody?_inj hn hlast
    have hnone : fx.passBody? .truthy body = none := Truthy.rewriteBody?_settles ht
    simp [hnone] at ht

/-- Only on a reference to `yes` or `no` does the order of the last two passes matter. -/
theorem applied_eq_of_not_isReference (fx : Fixer) (h : ¬ Truthy.IsReference body) :
    applied (fx.passBody? .names) (applied (fx.passBody? .truthy) body) =
      applied (fx.passBody? .truthy) (applied (fx.passBody? .names) body) := by
  cases ht : fx.passBody? .truthy body with
  | none =>
    rw [applied_of_none ht]
    cases hn : fx.passBody? .names body with
    | none => rw [applied_of_none hn, applied_of_none ht]
    | some out =>
      rw [applied_of_some hn, applied_of_none (settles_truthy_names fx _ _ hn)]
  | some out =>
    have hn : fx.passBody? .names body = none := by
      rw [Option.eq_none_iff_forall_ne_some]
      exact fun _ hn => h (isReference_of_both ht hn)
    have hout : fx.passBody? .names out = none := by
      rw [← Option.not_isSome_iff_eq_none, isSome_names_of_truthy ht]
      exact h
    rw [applied_of_some ht, applied_of_none hout, applied_of_none hn, applied_of_some ht]

/-- The pass for module names changes places with each of the others. These two make the same of a
text in both orders exactly if none of its lines is a reference to a truth value. -/
theorem passes_commute {o : Overrides} {rows : List TableRow}
    (h : ModuleTable.effective o = .ok rows) (s : String) :
    let qualify := Qualify.rewrite (rows.map TableRow.toModuleName)
    Commuting qualify Truthy.rewrite s ∧ Commuting qualify Naming.rewrite s ∧
      ((Line.onText Naming.rewrite (Line.onText Truthy.rewrite s).1).1 =
          (Line.onText Truthy.rewrite (Line.onText Naming.rewrite s).1).1 ↔
        ∀ l ∈ Line.split s.toList, ¬ Truthy.IsReference l.body) := by
  intro qualify
  let fx : Fixer := ⟨Rule.all, rows⟩
  have ha : fx.Accepted := ⟨List.Sublist.refl _, ModuleTable.accepted_of_effective h⟩
  have hqualify : qualify = Line.rewriteEach (fx.passBody? .fqcn) :=
    funext (Qualify.rewrite_eq ha.table)
  refine ⟨?_, ?_, ?_⟩
  · rw [hqualify]
    exact (apart_fqcn ha (r := .truthy) nofun).commuting (keepsBodies ha _) Truthy.keepsBodies s
  · rw [hqualify]
    exact (apart_fqcn ha (r := .names) nofun).commuting (keepsBodies ha _) Naming.keepsBodies s
  · refine (Line.onText_comm_iff Truthy.keepsBodies Naming.keepsBodies).trans ?_
    refine forall₂_congr fun l _ => ⟨fun heq href => ?_, fun href => ?_⟩
    · exact applied_ne_of_isReference fx href heq
    · exact applied_eq_of_not_isReference fx href

/-- A key of the table, and a reference behind a tab, which a name never is. -/
theorem passes_commute_reference :
    let rows := ModuleTable.merged Overrides.empty
    let qualify := Qualify.rewrite (rows.map TableRow.toModuleName)
    let s := "  apt:\r\n  notify:\tyes \n- name: x"
    ModuleTable.effective Overrides.empty = .ok rows ∧
      Commuting qualify Truthy.rewrite s ∧ Commuting qualify Naming.rewrite s ∧
      (Line.onText Naming.rewrite (Line.onText Truthy.rewrite s).1).1 ≠
        (Line.onText Truthy.rewrite (Line.onText Naming.rewrite s).1).1 := by
  intro rows qualify s
  obtain ⟨htruthy, hnames, htext⟩ := passes_commute effective_empty s
  have href : ¬ ∀ l ∈ Line.split s.toList, ¬ Truthy.IsReference l.body := by decide
  exact ⟨effective_empty, htruthy, hnames, mt htext.1 href⟩

end Fixer

end PlaybookTidy
