import Mathlib.Data.List.Sort
import PlaybookTidy.Proofs.Bytes
import PlaybookTidy.Proofs.Sorted
import PlaybookTidy.Proofs.Table

/-!
What overrides make of the built-in table, told row by row, and which fault is reported where they
make no table. The first fault in the order of the short names comes before any chain of rows.
-/

namespace PlaybookTidy.ModuleTable

variable {o : Overrides} {rows rows' : List TableRow} {r r' : TableRow} {short fqcn : String}
  {x : Failure}

def IsLetter (c : Char) : Prop := 'a' ≤ c ∧ c ≤ 'z' ∨ 'A' ≤ c ∧ c ≤ 'Z' ∨ c = '_'

/-- `[A-Za-z_][A-Za-z0-9_]*` -/
def IsWord (s : String) : Prop :=
  ∃ c cs, s.toList = c :: cs ∧ IsLetter c ∧ ∀ d ∈ cs, IsLetter d ∨ '0' ≤ d ∧ d ≤ '9'

theorem isLetter_iff {c : Char} : IsLetter c ↔ c.isAlpha ∨ c = '_' := by
  unfold IsLetter Char.isAlpha Char.isUpper Char.isLower
  simp only [Char.le_def, Bool.or_eq_true, Bool.and_eq_true, decide_eq_true_eq, ge_iff_le]
  tauto

/-- The check of short names is the regular expression for words. -/
theorem isShortName_iff {s : String} : isShortName s ↔ IsWord s := by
  have hdigit : ∀ d : Char, (d.isAlphanum ∨ d = '_') ↔ IsLetter d ∨ '0' ≤ d ∧ d ≤ '9' := by
    intro d
    unfold Char.isAlphanum Char.isDigit
    simp only [isLetter_iff, Char.le_def, Bool.or_eq_true, Bool.and_eq_true, decide_eq_true_eq,
      ge_iff_le]
    tauto
  unfold isShortName IsWord
  cases s.toList with
  | nil => simp
  | cons c cs => simp [isLetter_iff, hdigit]

/-- What is wrong with an entry: the part that is reported, and how. The short name comes first. -/
inductive Fault (short fqcn : String) : String → String → Prop
  | name : ¬ IsWord short →
      Fault short fqcn short "Module name must match [A-Za-z_][A-Za-z0-9_]*"
  | replacement : IsWord short → (fqcn = "" ∨ ∃ c ∈ fqcn.toList, Text.isBlank c) →
      Fault short fqcn fqcn "Replacement must be a non-empty name without whitespace"

def IsFaulty (short fqcn : String) : Prop := ∃ value problem, Fault short fqcn value problem

theorem isReplacement_eq_false_iff :
    isReplacement fqcn = false ↔ fqcn = "" ∨ ∃ c ∈ fqcn.toList, Text.isBlank c := by
  simp only [isReplacement, Bool.and_eq_false_iff, decide_eq_false_iff_not, ne_eq, not_not,
    Bool.not_eq_false', List.any_eq_true]

/-- The fault that is found of an entry is the one that the entry has, with its place and value. -/
theorem fault?_eq_some_iff : fault? short fqcn = some x ↔
    ∃ value problem, Fault short fqcn value problem ∧
      x = { cause := .invalidValue ("defaults.fqcn." ++ short) (some value) problem } := by
  unfold fault?
  constructor
  · intro h
    split at h
    · rename_i hs
      have hword : ¬ IsWord short := by simpa [← isShortName_iff] using hs
      exact ⟨_, _, .name hword, (Option.some.inj h).symm⟩
    · rename_i hs
      have hword : IsWord short := by simpa [← isShortName_iff] using hs
      split at h
      · rename_i hr
        have hr : isReplacement fqcn = false := by simpa using hr
        exact ⟨_, _, .replacement hword (isReplacement_eq_false_iff.1 hr), (Option.some.inj h).symm⟩
      · cases h
  · rintro ⟨_, _, ⟨hs⟩ | ⟨hs, hr⟩, rfl⟩
    · rw [← isShortName_iff] at hs
      simp [hs, invalidRow]
    · rw [← isShortName_iff] at hs
      simp [hs, isReplacement_eq_false_iff.2 hr, invalidRow]

theorem fault?_eq_none_iff_not_faulty : fault? short fqcn = none ↔ ¬ IsFaulty short fqcn := by
  rw [Option.eq_none_iff_forall_ne_some]
  constructor
  · rintro h ⟨value, problem, hf⟩
    exact h _ (fault?_eq_some_iff.2 ⟨value, problem, hf, rfl⟩)
  · intro h x hx
    obtain ⟨value, problem, hf, -⟩ := fault?_eq_some_iff.1 hx
    exact h ⟨value, problem, hf⟩

/-- The fault that is reported of several is that of the least short name. -/
def IsFirstFault (o : Overrides) (x : Failure) : Prop :=
  ∃ short fqcn value problem, (short, fqcn) ∈ o.entries ∧ Fault short fqcn value problem ∧
    (∀ e ∈ o.entries, IsFaulty e.1 e.2 → Text.bytes short ≤ Text.bytes e.1) ∧
    x = { cause := .invalidValue ("defaults.fqcn." ++ short) (some value) problem }

/-- Entries are checked in the order of their names, so the first fault is that of the least one. -/
theorem findSome?_fault?_eq_some_iff :
    (o.entries.findSome? fun e => fault? e.1 e.2) = some x ↔ IsFirstFault o x := by
  rw [List.findSome?_eq_some_iff]
  constructor
  · rintro ⟨before, e, after, hcut, hx, hbefore⟩
    obtain ⟨value, problem, hf, rfl⟩ := fault?_eq_some_iff.1 hx
    refine ⟨e.1, e.2, value, problem, by simp [hcut], hf, ?_, rfl⟩
    intro e' he' hfaulty
    have hinc := o.increasing
    rw [hcut] at he' hinc
    rcases List.mem_append.1 he' with he' | he'
    · exact absurd hfaulty (fault?_eq_none_iff_not_faulty.1 (hbefore e' he'))
    · rcases List.mem_cons.1 he' with rfl | he'
      · exact List.le_refl _
      · have hlt : e.1 < e'.1 :=
          (List.pairwise_cons.1 (List.pairwise_append.1 hinc).2.1).1 e' he'
        exact List.le_of_lt (Text.bytes_lt_bytes_iff.2 hlt)
  · rintro ⟨short, fqcn, value, problem, hmem, hf, hleast, rfl⟩
    obtain ⟨before, after, hcut⟩ := List.append_of_mem hmem
    refine ⟨before, (short, fqcn), after, hcut, fault?_eq_some_iff.2 ⟨_, _, hf, rfl⟩, ?_⟩
    intro e he
    rw [fault?_eq_none_iff_not_faulty]
    intro hfaulty
    -- An entry in front of the reported one has a lesser name.
    have hinc := o.increasing
    rw [hcut] at hinc
    have hlt : e.1 < short :=
      (List.pairwise_append.1 hinc).2.2 e he (short, fqcn) List.mem_cons_self
    exact hleast e (hcut ▸ List.mem_append_left _ he) hfaulty (Text.bytes_lt_bytes_iff.2 hlt)

/-- What a row of the merged table says: a built-in entry without an override, or an entry of the
overrides, whether or not its short name is a built-in one. -/
inductive IsRow (o : Overrides) : TableRow → Prop
  | builtin {m : ModuleName} : m ∈ builtin → (∀ f, (m.short, f) ∉ o.entries) →
      IsRow o ⟨m, .builtin⟩
  | given {k f : String} : (k, f) ∈ o.entries →
      IsRow o ⟨⟨k, f⟩, if k ∈ builtin.map ModuleName.short then .override else .custom⟩

/-- The built-in names in their order, then the further names in increasing order, each once. -/
structure IsMerged (o : Overrides) (rows : List TableRow) : Prop where
  row : ∀ r ∈ rows, IsRow o r
  distinct : (rows.map fun r => r.short).Nodup
  inOrder : ∃ further : List String,
    rows.map (fun r => r.short) = builtin.map ModuleName.short ++ further ∧
      further.Pairwise (fun a b => Text.bytes a < Text.bytes b) ∧
      ∀ k, k ∈ further ↔ k ∈ o.entries.map Prod.fst ∧ k ∉ builtin.map ModuleName.short

theorem nodup_builtin : (builtin.map ModuleName.short).Nodup := by decide +kernel

theorem eq_of_mem_builtin {m n : ModuleName} (hm : m ∈ builtin) (hn : n ∈ builtin)
    (h : m.short = n.short) : m = n :=
  List.inj_on_of_nodup_map nodup_builtin hm hn h

theorem eq_of_mem_entries {k f g : String} (hf : (k, f) ∈ o.entries) (hg : (k, g) ∈ o.entries) :
    f = g := by
  rw [o.increasing.mem_iff_lookup] at hf hg
  exact Option.some.inj (hf.symm.trans hg)

/-- A row is known by its short name. -/
theorem IsRow.unique (h : IsRow o r) (h' : IsRow o r') (hs : r.short = r'.short) : r = r' := by
  cases h with
  | builtin hm hnone =>
    cases h' with
    | builtin hn _ => rw [eq_of_mem_builtin hm hn hs]
    | given hg =>
      obtain rfl : _ = _ := hs
      exact absurd hg (hnone _)
  | given hf =>
    cases h' with
    | builtin hn hnone =>
      obtain rfl : _ = _ := hs
      exact absurd hf (hnone _)
    | given hg =>
      obtain rfl : _ = _ := hs
      rw [eq_of_mem_entries hf hg]

/-- Two tables for the same overrides are one. -/
theorem IsMerged.unique (h : IsMerged o rows) (h' : IsMerged o rows') : rows = rows' := by
  obtain ⟨further, hnames, hinc, hmem⟩ := h.inOrder
  obtain ⟨further', hnames', hinc', hmem'⟩ := h'.inOrder
  have hfurther : further = further' := by
    have hlt : further.Pairwise (· < ·) := hinc.imp Text.bytes_lt_bytes_iff.1
    have hlt' : further'.Pairwise (· < ·) := hinc'.imp Text.bytes_lt_bytes_iff.1
    exact hlt.eq_of_mem_iff hlt' fun k => (hmem k).trans (hmem' k).symm
  have hshorts : rows.map (fun r => r.short) = rows'.map fun r => r.short := by
    rw [hnames, hnames', hfurther]
  apply List.ext_getElem
  · simpa using congrArg List.length hshorts
  · intro i hi hi'
    refine (h.row _ (List.getElem_mem hi)).unique (h'.row _ (List.getElem_mem hi')) ?_
    have hget := List.getElem_of_eq hshorts (by rwa [List.length_map])
    rwa [List.getElem_map, List.getElem_map] at hget

theorem any_builtin_iff {k : String} :
    (builtin.any fun m => m.short = k) = true ↔ k ∈ builtin.map ModuleName.short := by
  simp [List.any_eq_true]

/-- Each row comes from the built-in table or from an override. -/
theorem isRow_of_mem_merged (h : r ∈ merged o) : IsRow o r := by
  rcases List.mem_append.1 h with h | h
  · obtain ⟨m, hm, rfl⟩ := List.mem_map.1 h
    cases hget : o.get? m.short with
    | none =>
      refine .builtin hm fun f hf => ?_
      rw [o.increasing.mem_iff_lookup] at hf
      exact absurd (hget.symm.trans hf) nofun
    | some f =>
      have hrow := IsRow.given (o := o) (o.increasing.mem_iff_lookup.2 hget)
      rwa [if_pos (List.mem_map_of_mem hm)] at hrow
  · obtain ⟨⟨k, f⟩, he, rfl⟩ := List.mem_map.1 h
    obtain ⟨hmem, hk⟩ := List.mem_filter.1 he
    have hrow := IsRow.given hmem
    rwa [if_neg] at hrow
    rw [← any_builtin_iff]
    simpa using hk

/-- The names of the merged table, in its order. -/
theorem map_short_merged (o : Overrides) : (merged o).map (fun r => r.short) =
    builtin.map ModuleName.short ++
      (o.entries.filter fun e => !builtin.any fun m => m.short = e.1).map Prod.fst := by
  rw [merged, List.map_append, List.map_map, List.map_map]
  congr 1
  refine List.map_congr_left fun m _ => ?_
  rw [Function.comp_apply]
  cases o.get? m.short <;> rfl

/-- Each override has its row, in the place of a built-in one or after them. -/
theorem mem_map_short_merged {o : Overrides} {e : String × String} (he : e ∈ o.entries) :
    e.1 ∈ (merged o).map fun r => r.short := by
  rw [map_short_merged, List.mem_append]
  by_cases hb : (builtin.any fun m => m.short = e.1) = true
  · exact Or.inl (any_builtin_iff.1 hb)
  · exact Or.inr (List.mem_map_of_mem (List.mem_filter.2 ⟨he, by simpa using hb⟩))

/-- The built-in rows keep their places, and what else is configured comes after them in order. -/
theorem isMerged_merged (o : Overrides) : IsMerged o (merged o) := by
  have hinc : Increasing (o.entries.filter fun e => !builtin.any fun m => m.short = e.1) :=
    o.increasing.filter _
  have hfurther : ∀ k, k ∈ (o.entries.filter fun e => !builtin.any fun m => m.short = e.1).map
      Prod.fst ↔ k ∈ o.entries.map Prod.fst ∧ k ∉ builtin.map ModuleName.short := by
    intro k
    simp only [List.mem_map, List.mem_filter, Bool.not_eq_true', ← Bool.not_eq_true,
      any_builtin_iff]
    grind
  refine ⟨fun r hr => isRow_of_mem_merged hr, ?_, _, map_short_merged o, ?_, hfurther⟩
  · rw [map_short_merged, List.nodup_append]
    refine ⟨nodup_builtin, hinc.nodup, ?_⟩
    rintro k hk _ hk' rfl
    exact ((hfurther k).1 hk').2 hk
  · rw [List.pairwise_map]
    exact hinc.imp Text.bytes_lt_bytes_iff.2

/-- Only the merged table has its rows in this order, each once. -/
theorem isMerged_iff : IsMerged o rows ↔ rows = merged o := by
  constructor
  · exact fun h => h.unique (isMerged_merged o)
  · rintro rfl
    exact isMerged_merged o

/-- The rows that are not built in are the overrides, each of them once. -/
theorem IsMerged.perm_entries (h : IsMerged o rows) :
    ((rows.filter fun r => r.source ≠ .builtin).map fun r => (r.short, r.fqcn)).Perm o.entries := by
  have hkeys : (((rows.filter fun r => r.source ≠ .builtin).map fun r =>
      (r.short, r.fqcn)).map Prod.fst).Nodup := by
    rw [List.map_map]
    exact h.distinct.sublist (List.filter_sublist.map _)
  -- Neither list has a name twice, so they need only have the same members.
  rw [List.perm_ext_iff_of_nodup (.of_map _ hkeys) (.of_map _ o.increasing.nodup)]
  rintro ⟨k, f⟩
  simp only [List.mem_map, List.mem_filter, decide_eq_true_eq]
  constructor
  · rintro ⟨r, ⟨hr, hsource⟩, heq⟩
    cases h.row r hr with
    | builtin => exact absurd rfl hsource
    | given hf =>
      rw [← heq]
      exact hf
  · intro hf
    have hk : k ∈ rows.map fun r => r.short := by
      obtain ⟨further, hnames, -, hfurther⟩ := h.inOrder
      rw [hnames, List.mem_append, hfurther]
      have hkey : k ∈ o.entries.map Prod.fst := List.mem_map_of_mem hf
      tauto
    obtain ⟨r, hr, rfl⟩ := List.mem_map.1 hk
    refine ⟨r, ⟨hr, ?_⟩, ?_⟩
    · cases h.row r hr with
      | builtin _ hnone => exact absurd hf (hnone f)
      | given => dsimp only; split <;> nofun
    · cases h.row r hr with
      | builtin _ hnone => exact absurd hf (hnone f)
      | given hg => rw [eq_of_mem_entries hf hg]

def IsFirstChained (rows : List TableRow) (r : TableRow) : Prop :=
  ∃ before after, rows = before ++ r :: after ∧ (∃ q ∈ rows, q.short = r.fqcn) ∧
    ∀ p ∈ before, ∀ q ∈ rows, q.short ≠ p.fqcn

theorem chained?_eq_some_iff : chained? rows = some r ↔ IsFirstChained rows r := by
  rw [chained?, List.find?_eq_some_iff_append]
  simp only [IsFirstChained, List.any_eq_true, Bool.not_eq_true', List.any_eq_false,
    decide_eq_true_eq]
  grind

inductive Yields (o : Overrides) : Except Failure (List TableRow) → Prop
  | faulty {x : Failure} : IsFirstFault o x → Yields o (.error x)
  | chained {rows : List TableRow} {r : TableRow} : (∀ e ∈ o.entries, ¬ IsFaulty e.1 e.2) →
      IsMerged o rows → IsFirstChained rows r →
      Yields o (.error
        { cause := .invalidValue ("defaults.fqcn." ++ r.short) (some r.fqcn)
            ("Replacement '" ++ r.fqcn ++ "' is itself a module name in the FQCN table")
          hints := ["Use a fully-qualified name such as 'namespace.collection.module'"] })
  | table {rows : List TableRow} : (∀ e ∈ o.entries, ¬ IsFaulty e.1 e.2) → IsMerged o rows →
      (∀ r ∈ rows, ∀ q ∈ rows, q.short ≠ r.fqcn) → Yields o (.ok rows)

/-- The result for overrides is the one that their faults and rows yield. -/
theorem effective_eq_iff {x : Except Failure (List TableRow)} :
    effective o = x ↔ Yields o x := by
  have hnone : (o.entries.findSome? fun e => fault? e.1 e.2) = none ↔
      ∀ e ∈ o.entries, ¬ IsFaulty e.1 e.2 := by
    simp only [List.findSome?_eq_none_iff, fault?_eq_none_iff_not_faulty]
  -- The rows are looked at only if no override is faulty.
  constructor
  · rintro rfl
    unfold effective
    split
    · rename_i x hx
      exact .faulty (findSome?_fault?_eq_some_iff.1 hx)
    · rename_i hfault
      split
      · rename_i r hr
        exact .chained (hnone.1 hfault) (isMerged_merged o) (chained?_eq_some_iff.1 hr)
      · rename_i hchain
        exact .table (hnone.1 hfault) (isMerged_merged o) (chained?_eq_none_iff.1 hchain)
  · rintro (hx | ⟨hfault, hrows, hr⟩ | ⟨hfault, hrows, hchain⟩)
    · simp only [effective, findSome?_fault?_eq_some_iff.2 hx]
    · obtain rfl := isMerged_iff.1 hrows
      simp only [effective, hnone.2 hfault, chained?_eq_some_iff.2 hr]
      rfl
    · obtain rfl := isMerged_iff.1 hrows
      simp only [effective, hnone.2 hfault, chained?_eq_none_iff.2 hchain]

/-- No short name has two rows. -/
theorem nodup_of_effective (h : effective o = .ok rows) :
    ((rows.map TableRow.toModuleName).map ModuleName.short).Nodup := by
  obtain ⟨-, -, rfl⟩ := effective_eq_ok_iff.1 h
  rw [List.map_map]
  exact (isMerged_merged o).distinct

/-- Overrides yield one thing, which is the table in effect or the failure. A failure is one of the
configured values. A table has every override, each once. -/
theorem effective_exact (o : Overrides) :
    (∀ x, effective o = x ↔ Yields o x) ∧
    (∀ x, effective o = .error x → x.cause.code = "config.invalid_value") ∧
    ∀ rows, effective o = .ok rows →
      ((rows.filter fun r => r.source ≠ .builtin).map fun r => (r.short, r.fqcn)).Perm
        o.entries := by
  refine ⟨fun x => effective_eq_iff, fun x h => ?_, fun rows h => ?_⟩
  · cases effective_eq_iff.1 h with
    | faulty hx =>
      obtain ⟨short, fqcn, value, problem, -, -, -, rfl⟩ := hx
      rfl
    | chained => rfl
  · cases effective_eq_iff.1 h with
    | table _ hrows _ => exact hrows.perm_entries

end PlaybookTidy.ModuleTable
