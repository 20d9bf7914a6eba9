import PlaybookTidy.Fixer
import PlaybookTidy.Proofs.Table

/-!
Which patterns are compiled. The library decides that by their size, and the size of a pattern goes
with the length of the short name that it is for, so a table in effect may have a row that no fixer
can be made for.
-/

namespace PlaybookTidy

namespace Regex

theorem isSpecial_of_short {c : Char} (h : c.isAlphanum ∨ c = '_') : isSpecial c = false := by
  -- The few characters are run through as a list, since a quantifier over them may be decided by
  -- way of all characters.
  have hspecial : "\\.+*?()|[]\x7b\x7d^$#&-~".toList.all
      (fun c => !c.isAlphanum && c != '_') = true := by
    decide
  rw [isSpecial, decide_eq_false_iff_not]
  intro hc
  have hplain := List.all_eq_true.1 hspecial c hc
  simp only [Bool.and_eq_true, Bool.not_eq_true', bne_iff_ne] at hplain
  rcases h with h | h
  · simp [hplain.1] at h
  · exact hplain.2 h

/-- Nothing in a short name has to be escaped. -/
theorem escape_of_short {name : String} (h : ModuleTable.isShortName name) :
    escape name = name := by
  have hplain : ∀ c ∈ name.toList, isSpecial c = false := fun c hc =>
    isSpecial_of_short ((ModuleTable.mem_short h).2 c hc)
  have hflat : ∀ s : List Char, (∀ c ∈ s, isSpecial c = false) →
      (s.flatMap fun c => if isSpecial c then ['\\', c] else [c]) = s := by
    intro s hs
    induction s with
    | nil => rfl
    | cons c s ih =>
      rw [List.forall_mem_cons] at hs
      simp [hs.1, ih hs.2]
  rw [escape, hflat _ hplain, String.ofList_toList]

/-- A short name needs no escapes, so its pattern grows with its length. -/
theorem length_pattern {name : String} (h : ModuleTable.isShortName name) :
    (Qualify.pattern name).length = name.length + 16 := by
  have hlead : "(?mR)^([ \\t]+)".length = 14 := rfl
  have hend : ":$".length = 2 := rfl
  rw [Qualify.pattern, escape_of_short h, String.length_append, String.length_append, hlead, hend]
  omega

theorem size_eq (pattern : String) : Compiler.size pattern = 32 * pattern.length := rfl

theorem sizeLimit_eq : Compiler.sizeLimit = 10485760 := rfl

section

variable [Compiler] {pattern : String}

theorem refusal?_eq_none_iff :
    refusal? pattern = none ↔ Compiler.size pattern ≤ Compiler.sizeLimit := by
  simp [refusal?]

theorem fault?_eq_none_iff :
    fault? pattern = none ↔ Compiler.size pattern ≤ Compiler.sizeLimit := by
  rw [fault?, Option.map_eq_none_iff, refusal?_eq_none_iff]

/-- A pattern that is not compiled is no fault of the caller. -/
theorem code_of_fault? {e : Failure} (h : fault? pattern = some e) :
    e.cause.code = "internal.unexpected" ∧ e.cause.exitCode = 1 := by
  obtain ⟨error, -, rfl⟩ := Option.map_eq_some_iff.1 h
  exact ⟨rfl, rfl⟩

end

/-- The library takes at least one byte for each letter of a short name. -/
def Grows [Compiler] : Prop :=
  ∀ name, ModuleTable.isShortName name → name.length ≤ Compiler.size (Qualify.pattern name)

/-- The default compiler takes 32 bytes for each character, those of the name among them. -/
theorem grows_default : Grows := by
  intro name hname
  rw [size_eq, length_pattern hname]
  omega

end Regex

namespace Fixer

/-- The library compiles all that a table needs. -/
def Compiles [Regex.Compiler] (table : List TableRow) : Prop :=
  ∀ p ∈ patterns table, Regex.Compiler.size p ≤ Regex.Compiler.sizeLimit

section

variable [Regex.Compiler] {d : Defaults} {only : Option (List Rule)} {fx : Fixer} {e : Failure}
  {table : List TableRow}

/-- No pattern is at fault if the library compiles all of them. -/
theorem findSome?_fault?_eq_none_iff :
    (patterns table).findSome? Regex.fault? = none ↔ Compiles table := by
  simp only [List.findSome?_eq_none_iff, Regex.fault?_eq_none_iff, Compiles]

/-- There is a fixer exactly if there is a table in effect whose patterns are compiled. -/
theorem ofDefaults_eq_ok_iff :
    ofDefaults d only = .ok fx ↔ ∃ table, ModuleTable.effective d.fqcn = .ok table ∧
      Compiles table ∧ fx = ⟨Rule.normalize (only.getD d.rules), table⟩ := by
  unfold ofDefaults
  cases ModuleTable.effective d.fqcn with
  | error e => simp
  | ok table =>
    have hcompiles : (patterns table).findSome? Regex.fault? = none ↔ Compiles table :=
      findSome?_fault?_eq_none_iff
    cases hfault : (patterns table).findSome? Regex.fault? with
    | some e => simp [← hcompiles, hfault]
    | none => simp [hcompiles.1 hfault, hfault, eq_comm]

/-- The table is looked at first, then the patterns in their order. -/
theorem ofDefaults_eq_error_iff :
    ofDefaults d only = .error e ↔ ModuleTable.effective d.fqcn = .error e ∨
      ∃ table, ModuleTable.effective d.fqcn = .ok table ∧
        (patterns table).findSome? Regex.fault? = some e := by
  unfold ofDefaults
  cases ModuleTable.effective d.fqcn with
  | error e' => simp
  | ok table => cases hfault : (patterns table).findSome? Regex.fault? <;> simp [hfault]

end

/-- The library in use compiles a table without overlong short names. -/
theorem compiles_merged {o : Overrides}
    (ho : ∀ e ∈ o.entries, ModuleTable.isShortName e.1 ∧ e.1.length ≤ 327664) :
    Compiles (ModuleTable.merged o) := by
  have hbuiltin : ∀ m ∈ ModuleTable.builtin, m.short.length ≤ 327664 := by decide
  have hfixed : ∀ p ∈ Truthy.patterns ++ Naming.patterns, p.length ≤ 40 := by decide
  rw [Compiles, patterns, List.append_assoc, List.forall_mem_append]
  constructor
  · intro p hp
    obtain ⟨r, hr, rfl⟩ := List.mem_map.1 hp
    have hname := ModuleTable.short_of_mem_merged (fun e he => (ho e he).1) hr
    have hlength : r.short.length ≤ 327664 := by
      rcases ModuleTable.mem_merged hr with hm | ⟨-, ⟨m, hm, hs⟩ | ⟨e, he, hs⟩⟩
      · exact hbuiltin _ hm
      · exact hs ▸ hbuiltin m hm
      · exact hs ▸ (ho e he).2
    rw [Regex.size_eq, Regex.sizeLimit_eq, Regex.length_pattern hname]
    omega
  · intro p hp
    have hshort := hfixed p hp
    rw [Regex.size_eq, Regex.sizeLimit_eq]
    omega

end Fixer

end PlaybookTidy
