import PlaybookTidy.Proofs.Pipeline

/-!
A handler is found by its name. After the passes a name and a reference to it still agree, unless
the reference was taken for a truth value.
-/

namespace PlaybookTidy

namespace Truthy

/-- A truth value begins with a blank, or with a letter that a capital `True` or `False` lacks. -/
theorem capitalize_ne_of_isTruthValue {x v : List Char} (hx : IsTruthValue x)
    (hv : v = "true".toList ∨ v = "false".toList) :
    Naming.capitalize x ≠ Naming.capitalize v := by
  have hhead : (Naming.capitalize v).head? = some 'T' ∨ (Naming.capitalize v).head? = some 'F' := by
    rcases hv with rfl | rfl
    · exact Or.inl rfl
    · exact Or.inr rfl
  obtain ⟨before, word, after, hbefore, hword, -, rfl⟩ := hx
  intro h
  rw [← h] at hhead
  cases before with
  | nil =>
    have hy : (Naming.capitalize ("yes".toList ++ after)).head? = some 'Y' := rfl
    have hn : (Naming.capitalize ("no".toList ++ after)).head? = some 'N' := rfl
    rcases hword with rfl | rfl
    · rw [List.nil_append, hy] at hhead
      simp at hhead
    · rw [List.nil_append, hn] at hhead
      simp at hhead
  | cons b before =>
    -- A blank is no letter, so it stays in front.
    rcases Line.isIndent_iff.1 (hbefore b List.mem_cons_self) with rfl | rfl
    · simp [Naming.capitalize] at hhead
    · simp [Naming.capitalize] at hhead

end Truthy

namespace Fixer

variable {fx : Fixer} {indent x : List Char}

theorem stepBody_of_none {r : Rule} {body : List Char} (h : fx.passBody? r body = none) :
    fx.stepBody r body = body := by
  simp [stepBody, h]

/-- Behind a lead the rule for names raises the first letter. -/
theorem stepBody_names (hn : .names ∈ fx.rules) {lead : List Char} (hl : Naming.IsLead lead)
    (s : List Char) : fx.stepBody .names (lead ++ s) = lead ++ Naming.capitalize s := by
  rw [stepBody, if_pos hn]
  exact Naming.getD_rewriteBody?_lead hl s

/-- Only the pass for names rewrites a line with a name. -/
theorem fixBody_name (ha : fx.Accepted) (hn : .names ∈ fx.rules)
    (hi : ∀ c ∈ indent, Line.isIndent c) (x : List Char) :
    fx.fixBody fx.rules (indent ++ "- name: ".toList ++ x) =
      indent ++ "- name: ".toList ++ Naming.capitalize x := by
  have hl : Naming.IsLead (indent ++ "- name: ".toList) := ⟨indent, hi, Or.inl rfl⟩
  rw [fixBody_eq ha, stepBody_of_none (passBody?_fqcn_lead ha hl x),
    stepBody_of_none (passBody?_truthy_name fx hi x), stepBody_names hn hl]

/-- What a reference refers to after the pass for truth values, if that is applied. -/
def referent (fx : Fixer) (x : List Char) : List Char :=
  if .truthy ∈ fx.rules then (Truthy.value? (x.dropWhile Line.isIndent)).getD x else x

/-- The pass for truth values comes before the one for names. -/
theorem fixBody_notify (ha : fx.Accepted) (hn : .names ∈ fx.rules)
    (hi : ∀ c ∈ indent, Line.isIndent c) (hne : indent ≠ []) (x : List Char) :
    fx.fixBody fx.rules (indent ++ "notify: ".toList ++ x) =
      indent ++ "notify: ".toList ++ Naming.capitalize (fx.referent x) := by
  have hl : Naming.IsLead (indent ++ "notify: ".toList) := ⟨indent, hi, Or.inr ⟨hne, rfl⟩⟩
  have htruthy : fx.stepBody .truthy (indent ++ "notify: ".toList ++ x) =
      indent ++ "notify: ".toList ++ fx.referent x := by
    unfold stepBody referent
    rw [passBody?_truthy_notify fx hi hne]
    split
    · cases Truthy.value? (x.dropWhile Line.isIndent) <;> rfl
    · rfl
  rw [fixBody_eq ha, stepBody_of_none (passBody?_fqcn_lead ha hl x), htruthy, stepBody_names hn hl]

/-- The pass for truth values makes another name of a reference exactly if it rewrites it. -/
theorem capitalize_referent_eq_iff :
    Naming.capitalize x = Naming.capitalize (fx.referent x) ↔
      ¬(.truthy ∈ fx.rules ∧ Truthy.IsTruthValue x) := by
  rw [← Truthy.isSome_value?_iff]
  unfold referent
  by_cases ht : .truthy ∈ fx.rules
  · rw [if_pos ht]
    cases hv : Truthy.value? (x.dropWhile Line.isIndent) with
    | none => simp
    | some v =>
      have hx : Truthy.IsTruthValue x := Truthy.isSome_value?_iff.1 (by simp [hv])
      simpa [ht] using Truthy.capitalize_ne_of_isTruthValue hx (Truthy.value?_eq_some hv)
  · simp [ht]

/-- Fixing rewrites each line by itself. -/
theorem getElem?_split_fixText (ha : fx.Accepted) {s : String} {i : Nat} {l : Line}
    (h : (Line.split s.toList)[i]? = some l) :
    (Line.split (fx.fixText s).1.toList)[i]? =
      some { l with body := fx.fixBody fx.rules l.body } := by
  rw [split_fixText ha, List.getElem?_map, h]
  rfl

/-- A name and a reference to it, in one text or in two, are still the same text after the passes
exactly if it is not the case that truth values are replaced and the name is one. -/
theorem reference_agrees_iff [Regex.Compiler] {d : Defaults} {only : Option (List Rule)}
    (hfx : ofDefaults d only = .ok fx) (hn : .names ∈ fx.rules) {named notifying : String}
    {i j : Nat} {indent₁ indent₂ : List Char} {e₁ e₂ : Ending}
    (hi₁ : ∀ c ∈ indent₁, Line.isIndent c) (hi₂ : ∀ c ∈ indent₂, Line.isIndent c)
    (hne : indent₂ ≠ [])
    (hname : (Line.split named.toList)[i]? = some ⟨indent₁ ++ "- name: ".toList ++ x, e₁⟩)
    (hnotify : (Line.split notifying.toList)[j]? =
      some ⟨indent₂ ++ "notify: ".toList ++ x, e₂⟩) :
    ∃ name reference : List Char,
      (Line.split (fx.fixText named).1.toList)[i]? =
        some ⟨indent₁ ++ "- name: ".toList ++ name, e₁⟩ ∧
      (Line.split (fx.fixText notifying).1.toList)[j]? =
        some ⟨indent₂ ++ "notify: ".toList ++ reference, e₂⟩ ∧
      (name = reference ↔ ¬(.truthy ∈ fx.rules ∧ Truthy.IsTruthValue x)) := by
  have ha := accepted_of_ofDefaults hfx
  refine ⟨Naming.capitalize x, Naming.capitalize (fx.referent x), ?_, ?_,
    capitalize_referent_eq_iff⟩
  · rw [getElem?_split_fixText ha hname, fixBody_name ha hn hi₁]
  · rw [getElem?_split_fixText ha hnotify, fixBody_notify ha hn hi₂ hne]

/-- A handler and a reference to it in one text, with every rule. -/
theorem reference_agrees_iff_builtin :
    ofDefaults {} none = .ok builtin ∧ .names ∈ builtin.rules ∧
      ∃ name reference : List Char,
        (Line.split (builtin.fixText "- name: reload\r\n  notify: reload\n").1.toList)[0]? =
          some ⟨"- name: ".toList ++ name, .crlf⟩ ∧
        (Line.split (builtin.fixText "- name: reload\r\n  notify: reload\n").1.toList)[1]? =
          some ⟨"  notify: ".toList ++ reference, .lf⟩ ∧
        (name = reference ↔
          ¬(.truthy ∈ builtin.rules ∧ Truthy.IsTruthValue "reload".toList)) := by
  have hn : Rule.names ∈ builtin.rules := by decide
  have hname : (Line.split "- name: reload\r\n  notify: reload\n".toList)[0]? =
      some ⟨[] ++ "- name: ".toList ++ "reload".toList, .crlf⟩ := by decide
  have hnotify : (Line.split "- name: reload\r\n  notify: reload\n".toList)[1]? =
      some ⟨[' ', ' '] ++ "notify: ".toList ++ "reload".toList, .lf⟩ := by decide
  exact ⟨ofDefaults_builtin, hn, reference_agrees_iff ofDefaults_builtin hn (by simp)
    (by simp [Line.isIndent]) (by simp) hname hnotify⟩

/-- A handler with the name `yes` is no longer found by the references to it. -/
theorem reference_not_in_sync :
    ¬ ∀ (d : Defaults) (only : Option (List Rule)) (fx : Fixer) (named notifying : String)
      (i j : Nat) (indent₁ indent₂ x : List Char) (e₁ e₂ : Ending),
      ofDefaults d only = .ok fx → .names ∈ fx.rules →
      (∀ c ∈ indent₁, Line.isIndent c) → (∀ c ∈ indent₂, Line.isIndent c) → indent₂ ≠ [] →
      (Line.split named.toList)[i]? = some ⟨indent₁ ++ "- name: ".toList ++ x, e₁⟩ →
      (Line.split notifying.toList)[j]? = some ⟨indent₂ ++ "notify: ".toList ++ x, e₂⟩ →
      ∃ y : List Char,
        (Line.split (fx.fixText named).1.toList)[i]? =
          some ⟨indent₁ ++ "- name: ".toList ++ y, e₁⟩ ∧
        (Line.split (fx.fixText notifying).1.toList)[j]? =
          some ⟨indent₂ ++ "notify: ".toList ++ y, e₂⟩ := by
  intro h
  have ha := accepted_of_ofDefaults ofDefaults_builtin
  have hn : Rule.names ∈ builtin.rules := by decide
  have hi : ∀ c ∈ [' ', ' '], Line.isIndent c := by simp [Line.isIndent]
  have hfirst : (Line.split "- name: yes\n  notify: yes\n".toList)[0]? =
      some ⟨[] ++ "- name: ".toList ++ "yes".toList, .lf⟩ := by decide
  have hsecond : (Line.split "- name: yes\n  notify: yes\n".toList)[1]? =
      some ⟨[' ', ' '] ++ "notify: ".toList ++ "yes".toList, .lf⟩ := by decide
  obtain ⟨y, hname, hnotify⟩ := h {} none builtin _ _ 0 1 [] [' ', ' '] "yes".toList .lf .lf
    ofDefaults_builtin hn (by simp) hi (by simp) hfirst hsecond
  rw [getElem?_split_fixText ha hfirst, fixBody_name ha hn (by simp)] at hname
  rw [getElem?_split_fixText ha hsecond, fixBody_notify ha hn hi (by simp)] at hnotify
  -- The handler is now called `Yes`, and the reference is to `True`.
  have hyes : "Yes".toList = y := List.append_cancel_left (Line.mk.inj (Option.some.inj hname)).1
  have htrue : "True".toList = y :=
    List.append_cancel_left (Line.mk.inj (Option.some.inj hnotify)).1
  exact absurd (hyes.trans htrue.symm) (by decide)

end Fixer

end PlaybookTidy
