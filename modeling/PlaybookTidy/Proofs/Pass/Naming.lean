import Mathlib.Data.List.Basic
import Mathlib.Data.List.TakeWhile
import PlaybookTidy.Pass.Naming
import PlaybookTidy.Proofs.Lines

/-!
What the pass for names does to one line: exactly the lines that begin with a lead and an ASCII
lower-case letter change, and only in that letter.
-/

namespace PlaybookTidy.Naming

/-- What stands before a name: any indentation and the key of a name, or indentation that is there
and the key of a reference. -/
def IsLead (lead : List Char) : Prop :=
  ∃ indent : List Char, (∀ c ∈ indent, Line.isIndent c) ∧
    (lead = indent ++ "- name: ".toList ∨ indent ≠ [] ∧ lead = indent ++ "notify: ".toList)

theorem afterKey?_lead {lead : List Char} (h : IsLead lead) (s : List Char) :
    afterKey? (lead ++ s) = some (lead, s) := by
  obtain ⟨indent, hi, rfl | ⟨hne, rfl⟩⟩ := h
  · have hr : ∀ c, ("- name: ".toList ++ s).head? = some c → Line.isIndent c = false := by
      simp [Line.isIndent]
    have hp : "- name: ".toList.isPrefixOf? ("- name: ".toList ++ s) = some s :=
      List.isPrefixOf?_eq_some_iff_append_eq.2 rfl
    rw [List.append_assoc]
    simp only [afterKey?, Line.takeWhile_isIndent hi hr, Line.dropWhile_isIndent hi hr, hp]
  · have hr : ∀ c, ("notify: ".toList ++ s).head? = some c → Line.isIndent c = false := by
      simp [Line.isIndent]
    have hp : "- name: ".toList.isPrefixOf? ("notify: ".toList ++ s) = none := rfl
    have hq : "notify: ".toList.isPrefixOf? ("notify: ".toList ++ s) = some s :=
      List.isPrefixOf?_eq_some_iff_append_eq.2 rfl
    rw [List.append_assoc]
    simp only [afterKey?, Line.takeWhile_isIndent hi hr, Line.dropWhile_isIndent hi hr, hp, hq,
      if_neg hne, Option.map_some]

/-- What is cut off a line before a name is a lead. -/
theorem isLead_of_afterKey? {body lead s : List Char} (h : afterKey? body = some (lead, s)) :
    IsLead lead ∧ body = lead ++ s := by
  have hi : ∀ c ∈ body.takeWhile Line.isIndent, Line.isIndent c :=
    fun _ => List.mem_takeWhile_imp
  have hbody : body = body.takeWhile Line.isIndent ++ body.dropWhile Line.isIndent :=
    List.takeWhile_append_dropWhile.symm
  unfold afterKey? at h
  dsimp only at h
  split at h
  · rename_i r hr
    obtain ⟨rfl, rfl⟩ := Prod.mk.inj (Option.some.inj h)
    refine ⟨⟨_, hi, Or.inl rfl⟩, ?_⟩
    rw [List.append_assoc, List.isPrefixOf?_eq_some_iff_append_eq.1 hr]
    exact hbody
  · split at h
    · exact absurd h nofun
    · rename_i hne
      obtain ⟨r, hr, hlead⟩ := Option.map_eq_some_iff.1 h
      obtain ⟨rfl, rfl⟩ := Prod.mk.inj hlead
      refine ⟨⟨_, hi, Or.inr ⟨hne, rfl⟩⟩, ?_⟩
      rw [List.append_assoc, List.isPrefixOf?_eq_some_iff_append_eq.1 hr]
      exact hbody

/-- The lines that change, and what they become. -/
theorem rewriteBody?_eq_some_iff {body out : List Char} :
    rewriteBody? body = some out ↔
      ∃ lead c s, IsLead lead ∧ c.isLower ∧ body = lead ++ c :: s ∧
        out = lead ++ c.toUpper :: s := by
  constructor
  · intro h
    unfold rewriteBody? at h
    split at h
    · rename_i lead c s hk
      split at h
      · rename_i hc
        obtain ⟨hl, hb⟩ := isLead_of_afterKey? hk
        exact ⟨lead, c, s, hl, hc, hb, (Option.some.inj h).symm⟩
      · exact absurd h nofun
    · exact absurd h nofun
  · rintro ⟨lead, c, s, hl, hc, rfl, rfl⟩
    simp only [rewriteBody?, afterKey?_lead hl, hc, ↓reduceIte]

/-- A text whose first letter, if it is an ASCII lower-case one, is the upper-case one. -/
def capitalize : List Char → List Char
  | [] => []
  | c :: s => if c.isLower then c.toUpper :: s else c :: s

/-- Whatever key stands before it, what follows the key is capitalized. -/
theorem getD_rewriteBody?_lead {lead : List Char} (h : IsLead lead) (s : List Char) :
    (rewriteBody? (lead ++ s)).getD (lead ++ s) = lead ++ capitalize s := by
  rw [rewriteBody?, afterKey?_lead h]
  cases s with
  | nil => rfl
  | cons c s => by_cases hc : c.isLower <;> simp [capitalize, hc]

theorem isLower_iff {c : Char} : c.isLower ↔ 97 ≤ c.toNat ∧ c.toNat ≤ 122 := by
  unfold Char.isLower
  simp [UInt32.le_iff_toNat_le, ← Char.toNat_val]

theorem toNat_toUpper {c : Char} (h : c.isLower) : c.toUpper.toNat + 32 = c.toNat := by
  have hc := isLower_iff.1 h
  have hv : 'a'.val ≤ c.val ∧ c.val ≤ 'z'.val := by
    unfold Char.isLower at h
    simpa using h
  unfold Char.toUpper
  rw [dif_pos hv, ← Char.toNat_val, ← Char.toNat_val, UInt32.toNat_add]
  have hd : ('A'.val - 'a'.val).toNat = 4294967264 := by decide
  have hval : c.val.toNat = c.toNat := rfl
  rw [hd]
  omega

/-- A raised letter is none of the characters outside `A` to `Z`. -/
theorem toUpper_ne {c d : Char} (h : c.isLower) (hd : d.toNat < 65 ∨ 90 < d.toNat) :
    c.toUpper ≠ d := by
  intro he
  have hc := isLower_iff.1 h
  have hu := toNat_toUpper h
  rw [he] at hu
  omega

theorem isLower_toUpper {c : Char} (h : c.isLower) : c.toUpper.isLower = false := by
  have hc := isLower_iff.1 h
  have hu := toNat_toUpper h
  rw [Bool.eq_false_iff, ne_eq, isLower_iff]
  omega

theorem toUpper_inj {c d : Char} (hc : c.isLower) (hd : d.isLower) (h : c.toUpper = d.toUpper) :
    c = d := by
  have hu := toNat_toUpper hc
  rw [h, toNat_toUpper hd] at hu
  exact Char.toNat_inj.1 hu.symm

/-- No two lines that change become one. -/
theorem rewriteBody?_inj {body body' out : List Char} (h : rewriteBody? body = some out)
    (h' : rewriteBody? body' = some out) : body = body' := by
  obtain ⟨lead, c, s, hl, hc, rfl, rfl⟩ := rewriteBody?_eq_some_iff.1 h
  obtain ⟨lead', c', s', hl', hc', rfl, hout⟩ := rewriteBody?_eq_some_iff.1 h'
  have hkey : some (lead, c.toUpper :: s) = some (lead', c'.toUpper :: s') := by
    rw [← afterKey?_lead hl, hout, afterKey?_lead hl']
  obtain ⟨rfl, hletter, rfl⟩ : lead = lead' ∧ c.toUpper = c'.toUpper ∧ s = s' := by
    simpa using hkey
  rw [toUpper_inj hc hc' hletter]

/-- A name that was capitalized is not capitalized again. -/
theorem rewriteBody?_settles {body out : List Char} (h : rewriteBody? body = some out) :
    rewriteBody? out = none := by
  obtain ⟨lead, c, s, hl, hc, -, rfl⟩ := rewriteBody?_eq_some_iff.1 h
  simp [rewriteBody?, afterKey?_lead hl, isLower_toUpper hc]

/-- Raising a letter puts no line end into a line. -/
theorem keepsBodies : Line.KeepsBodies rewriteBody? := by
  refine ⟨rfl, ?_, ?_⟩
  · intro b b' h
    obtain ⟨lead, c, s, -, -, -, rfl⟩ := rewriteBody?_eq_some_iff.1 h
    simp
  · intro b b' h hb d hd
    obtain ⟨lead, c, s, -, hc, rfl, rfl⟩ := rewriteBody?_eq_some_iff.1 h
    rcases List.mem_append.1 hd with hd | hd
    · exact hb d (List.mem_append_left _ hd)
    · rcases List.mem_cons.1 hd with rfl | hd
      · -- The raised letter is a capital letter.
        have hlf : c.toUpper ≠ '\n' := toUpper_ne hc (by decide)
        have hcr : c.toUpper ≠ '\r' := toUpper_ne hc (by decide)
        simp [Line.isBreak, hlf, hcr]
      · exact hb d (List.mem_append_right _ (List.mem_cons_of_mem c hd))

end PlaybookTidy.Naming
