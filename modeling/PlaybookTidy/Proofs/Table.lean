import PlaybookTidy.ModuleTable
import PlaybookTidy.Proofs.Lines

/-!
What a table in effect promises: its names have the form of names, and no row writes what a row
looks for.
-/

namespace PlaybookTidy.ModuleTable

structure Accepted (rows : List ModuleName) : Prop where
  short : ∀ m ∈ rows, isShortName m.short
  replacement : ∀ m ∈ rows, isReplacement m.fqcn
  unchained : ∀ m ∈ rows, ∀ n ∈ rows, n.short ≠ m.fqcn

/-- Acceptance does not ask for an order. -/
theorem Accepted.perm {ms rows : List ModuleName} (h : Accepted rows) (hp : ms.Perm rows) :
    Accepted ms := by
  have hmem : ∀ m ∈ ms, m ∈ rows := fun m hm => hp.mem_iff.1 hm
  exact ⟨fun m hm => h.short m (hmem m hm), fun m hm => h.replacement m (hmem m hm),
    fun m hm n hn => h.unchained m (hmem m hm) n (hmem n hn)⟩

/-- The characters of a short name. -/
theorem mem_short {s : String} (h : isShortName s) :
    s.toList ≠ [] ∧ ∀ c ∈ s.toList, c.isAlphanum ∨ c = '_' := by
  unfold isShortName at h
  split at h
  · exact absurd h (by decide)
  · rename_i c cs hs
    simp only [Bool.and_eq_true, Bool.or_eq_true, decide_eq_true_eq, List.all_eq_true] at h
    rw [hs]
    refine ⟨List.cons_ne_nil c cs, ?_⟩
    intro d hd
    rcases List.mem_cons.1 hd with rfl | hd
    · apply h.1.imp_left
      intro ha
      simp [Char.isAlphanum, ha]
    · exact h.2 d hd

/-- A character that is no ASCII letter, no digit and no underscore is in no short name. -/
theorem not_mem_short {s : String} (h : isShortName s) {c : Char} (hc : c.isAlphanum = false)
    (hu : c ≠ '_') : c ∉ s.toList := by
  intro hm
  rcases (mem_short h).2 c hm with ha | ha
  · exact absurd ha (by simp [hc])
  · exact hu ha

theorem isReplacement_iff {s : String} :
    isReplacement s ↔ s.toList ≠ [] ∧ ∀ c ∈ s.toList, Text.isBlank c = false := by
  simp [isReplacement]

theorem not_isBlank_of_short {c : Char} (h : c.isAlphanum ∨ c = '_') : Text.isBlank c = false := by
  rcases h with h | rfl
  · have hn : 48 ≤ c.toNat ∧ c.toNat ≤ 122 := by
      unfold Char.isAlphanum Char.isAlpha Char.isUpper Char.isLower Char.isDigit at h
      simp only [Bool.or_eq_true, Bool.and_eq_true, decide_eq_true_eq, UInt32.le_iff_toNat_le,
        ge_iff_le] at h
      change ((65 ≤ c.toNat ∧ c.toNat ≤ 90) ∨ 97 ≤ c.toNat ∧ c.toNat ≤ 122) ∨
        48 ≤ c.toNat ∧ c.toNat ≤ 57 at h
      omega
    simp only [Text.isBlank, Bool.or_eq_false_iff, Bool.and_eq_false_iff, decide_eq_false_iff_not]
    omega
  · decide

/-- A short name after a collection is a replacement. -/
theorem valid_inCollection {collection : String} {shorts : List String}
    (hc : isReplacement collection) (hs : ∀ s ∈ shorts, isShortName s) :
    ∀ m ∈ inCollection collection shorts, isShortName m.short ∧ isReplacement m.fqcn := by
  intro m hm
  obtain ⟨s, hs', rfl⟩ := List.mem_map.1 hm
  refine ⟨hs s hs', isReplacement_iff.2 ⟨?_, ?_⟩⟩
  · simp
  · intro c hc'
    simp only [String.toList_append, List.append_assoc, List.mem_append] at hc'
    rcases hc' with hc' | hc' | hc'
    · exact (isReplacement_iff.1 hc).2 c hc'
    · obtain rfl : c = '.' := by simpa using hc'
      decide
    · exact not_isBlank_of_short ((mem_short (hs s hs')).2 c hc')

theorem valid_builtin : ∀ m ∈ builtin, isShortName m.short ∧ isReplacement m.fqcn := by
  intro m hm
  simp only [builtin, List.mem_append] at hm
  rcases hm with ((((hm | hm) | hm) | hm) | hm) | hm <;>
    exact valid_inCollection (by decide) (by decide) m hm

theorem dot_mem_builtin : ∀ m ∈ builtin, '.' ∈ m.fqcn.toList := by
  have hdot : ∀ collection shorts, ∀ m ∈ inCollection collection shorts, '.' ∈ m.fqcn.toList := by
    intro collection shorts m hm
    obtain ⟨s, -, rfl⟩ := List.mem_map.1 hm
    simp
  intro m hm
  simp only [builtin, List.mem_append] at hm
  rcases hm with ((((hm | hm) | hm) | hm) | hm) | hm <;> exact hdot _ _ m hm

/-- A row of the merged table is built in, or it has the names of an entry, or the short name of a
built-in row and the replacement of an entry. -/
theorem mem_merged {o : Overrides} {r : TableRow} (h : r ∈ merged o) :
    r.toModuleName ∈ builtin ∨ (∃ e ∈ o.entries, r.fqcn = e.2) ∧
      ((∃ m ∈ builtin, r.short = m.short) ∨ ∃ e ∈ o.entries, r.short = e.1) := by
  rcases List.mem_append.1 h with h | h
  · obtain ⟨m, hm, rfl⟩ := List.mem_map.1 h
    cases hg : o.get? m.short with
    | none => exact Or.inl hm
    | some f =>
      obtain ⟨a, b, he, -⟩ := List.lookup_eq_some_iff.1 hg
      have he : (m.short, f) ∈ o.entries := by simp [he]
      exact Or.inr ⟨⟨_, he, rfl⟩, Or.inl ⟨m, hm, rfl⟩⟩
  · obtain ⟨e, he, rfl⟩ := List.mem_map.1 h
    have he := (List.mem_filter.1 he).1
    exact Or.inr ⟨⟨e, he, rfl⟩, Or.inr ⟨e, he, rfl⟩⟩

/-- An entry is without fault exactly if both its parts have their form. -/
theorem fault?_eq_none_iff {short fqcn : String} :
    fault? short fqcn = none ↔ isShortName short ∧ isReplacement fqcn := by
  unfold fault?
  cases isShortName short <;> cases isReplacement fqcn <;> simp

/-- No chain is found if no row writes what a row looks for. -/
theorem chained?_eq_none_iff {rows : List TableRow} :
    chained? rows = none ↔ ∀ r ∈ rows, ∀ q ∈ rows, q.short ≠ r.fqcn := by
  simp [chained?]

/-- A table in effect is the merged one. There is one exactly if no entry has a fault and no row
writes what a row looks for. -/
theorem effective_eq_ok_iff {o : Overrides} {rows : List TableRow} :
    effective o = .ok rows ↔ (∀ e ∈ o.entries, fault? e.1 e.2 = none) ∧
      (∀ r ∈ merged o, ∀ q ∈ merged o, q.short ≠ r.fqcn) ∧ rows = merged o := by
  have hfault : (o.entries.findSome? fun e => fault? e.1 e.2) = none ↔
      ∀ e ∈ o.entries, fault? e.1 e.2 = none := List.findSome?_eq_none_iff
  rw [← hfault, ← chained?_eq_none_iff, effective]
  cases o.entries.findSome? fun e => fault? e.1 e.2 with
  | some x => simp
  | none =>
    cases chained? (merged o) with
    | some r => simp
    | none => simp [eq_comm]

/-- An override keeps the short name of its row or brings one of its own. -/
theorem short_of_mem_merged {o : Overrides} (ho : ∀ e ∈ o.entries, isShortName e.1)
    {r : TableRow} (h : r ∈ merged o) : isShortName r.short := by
  rcases mem_merged h with hb | ⟨-, ⟨b, hb, hs⟩ | ⟨e, he, hs⟩⟩
  · exact (valid_builtin _ hb).1
  · exact hs ▸ (valid_builtin _ hb).1
  · exact hs ▸ ho e he

/-- Overrides without faults leave a table of well-formed names. -/
theorem valid_of_mem_merged {o : Overrides} (ho : ∀ e ∈ o.entries, fault? e.1 e.2 = none)
    {r : TableRow} (h : r ∈ merged o) : isShortName r.short ∧ isReplacement r.fqcn := by
  have hentry : ∀ e ∈ o.entries, isShortName e.1 ∧ isReplacement e.2 := fun e he =>
    fault?_eq_none_iff.1 (ho e he)
  refine ⟨short_of_mem_merged (fun e he => (hentry e he).1) h, ?_⟩
  rcases mem_merged h with hb | ⟨⟨e, he, hs⟩, -⟩
  · exact (valid_builtin _ hb).2
  · exact hs ▸ (hentry e he).2

/-- The rows of a table in effect have well-formed names, and none writes what one looks for. -/
theorem accepted_of_effective {o : Overrides} {rows : List TableRow} (h : effective o = .ok rows) :
    Accepted (rows.map TableRow.toModuleName) := by
  obtain ⟨hfault, hchain, rfl⟩ := effective_eq_ok_iff.1 h
  have hvalid : ∀ r ∈ merged o, isShortName r.short ∧ isReplacement r.fqcn := fun r hr =>
    valid_of_mem_merged hfault hr
  refine ⟨?_, ?_, ?_⟩
  · intro m hm
    obtain ⟨r, hr, rfl⟩ := List.mem_map.1 hm
    exact (hvalid r hr).1
  · intro m hm
    obtain ⟨r, hr, rfl⟩ := List.mem_map.1 hm
    exact (hvalid r hr).2
  · intro m hm n hn
    obtain ⟨r, hr, rfl⟩ := List.mem_map.1 hm
    obtain ⟨q, hq, rfl⟩ := List.mem_map.1 hn
    exact hchain r hr q hq

/-- Replacements with a point in them are short names of no row: with such entries, each of them
well-formed, the merged table is the one in effect. -/
theorem effective_of_dotted {o : Overrides} (hf : ∀ e ∈ o.entries, fault? e.1 e.2 = none)
    (hd : ∀ e ∈ o.entries, '.' ∈ e.2.toList) : effective o = .ok (merged o) := by
  have hshort : ∀ r ∈ merged o, isShortName r.short := fun r hr => (valid_of_mem_merged hf hr).1
  have hdot : ∀ r ∈ merged o, '.' ∈ r.fqcn.toList := by
    intro r hr
    rcases mem_merged hr with hb | ⟨⟨e, he, hs⟩, -⟩
    · exact dot_mem_builtin _ hb
    · exact hs ▸ hd e he
  refine effective_eq_ok_iff.2 ⟨hf, fun r hr q hq hname => ?_, rfl⟩
  exact not_mem_short (hshort q hq) (by decide) (by decide) (hname ▸ hdot r hr)

theorem entries_insert_empty (short fqcn : String) :
    (Overrides.empty.insert short fqcn).entries = [(short, fqcn)] := rfl

/-- One override that is well-formed and has a point in its replacement. -/
theorem effective_insert_empty {short fqcn : String} (hf : fault? short fqcn = none)
    (hd : '.' ∈ fqcn.toList) :
    effective (Overrides.empty.insert short fqcn) =
      .ok (merged (Overrides.empty.insert short fqcn)) := by
  refine effective_of_dotted ?_ ?_
  · simpa only [entries_insert_empty, List.forall_mem_singleton] using hf
  · simpa only [entries_insert_empty, List.forall_mem_singleton] using hd

end PlaybookTidy.ModuleTable
