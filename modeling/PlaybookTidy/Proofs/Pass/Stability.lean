import PlaybookTidy.Proofs.Merged
import PlaybookTidy.Proofs.Pass.Qualify

/-!
Which tables leave alone what they wrote. A table that is refused for a chain of rows has an order
in which a second application rewrites the output of the first, and no other table has one.
-/

namespace PlaybookTidy.Qualify

open ModuleTable (Accepted isShortName isReplacement)

variable {rows ms : List ModuleName} {m r : ModuleName} {indent : List Char}

/-- A key of one row is no key of a row with another name. -/
theorem replaceBody?_of_ne (hr : isShortName r.short) (hm : isShortName m.short)
    (hi : ∀ c ∈ indent, Line.isIndent c) (hne : m.short ≠ r.short) :
    replaceBody? [m] (indent ++ (r.short.toList ++ [':'])) = none := by
  rw [Option.eq_none_iff_forall_ne_some]
  intro out hout
  obtain ⟨n, hn, indent', -, hi', hbody, -⟩ := exists_of_replaceBody? hout
  obtain rfl : n = m := by simpa using hn
  have hkey : r.short.toList ++ [':'] = n.short.toList ++ [':'] :=
    Line.rest_inj hi hi' (isIndent_head_short hr) (isIndent_head_short hm) hbody
  exact hne (String.toList_injective (List.append_cancel_right hkey).symm)

/-- A row that comes last finds its key, which the rows with other names left alone. -/
theorem rewrite_concat_key (hv : ∀ m ∈ ms ++ [r], isShortName m.short ∧ isReplacement m.fqcn)
    (hne : ∀ m ∈ ms, m.short ≠ r.short) (hindent : indent ≠ [])
    (hi : ∀ c ∈ indent, Line.isIndent c) (e : Ending) :
    (rewrite (ms ++ [r]) [⟨indent ++ (r.short.toList ++ [':']), e⟩]).1 =
      [⟨indent ++ (r.fqcn.toList ++ [':']), e⟩] := by
  obtain ⟨hr, hf⟩ := hv r (by simp)
  induction ms with
  | nil =>
    rw [List.nil_append, rewrite_cons, rewriteRow_eq hr hf, Line.rewriteEach_cons,
      replaceBody?_key hr hindent hi]
    rfl
  | cons m ms ih =>
    obtain ⟨hm, hfm⟩ := hv m (by simp)
    have hnone := replaceBody?_of_ne hr hm hi (hne m List.mem_cons_self)
    rw [List.cons_append, rewrite_cons, rewriteRow_eq hm hfm,
      Line.rewriteEach_of_settled (by simpa using hnone)]
    exact ih (fun m hm => hv m (List.mem_cons_of_mem _ hm))
      fun m hm => hne m (List.mem_cons_of_mem _ hm)

/-- A key of a row is found, by that row or by one in front of it. -/
theorem rewrite_pos (hv : ∀ m ∈ rows, isShortName m.short ∧ isReplacement m.fqcn) (hm : m ∈ rows)
    (hindent : indent ≠ []) (hi : ∀ c ∈ indent, Line.isIndent c) {e : Ending} {ls : List Line}
    (hl : ⟨indent ++ (m.short.toList ++ [':']), e⟩ ∈ ls) : 0 < (rewrite rows ls).2 := by
  induction rows generalizing ls with
  | nil => simp at hm
  | cons q rows ih =>
    obtain ⟨hq, hf⟩ := hv q List.mem_cons_self
    rw [rewrite_cons, rewriteRow_eq hq hf]
    by_cases hnone : replaceBody? [q] (indent ++ (m.short.toList ++ [':'])) = none
    · -- The line stays, and the row is still to come.
      have hrest : m ∈ rows := by
        refine (List.mem_cons.1 hm).resolve_left ?_
        rintro rfl
        rw [replaceBody?_key hq hindent hi] at hnone
        exact absurd hnone nofun
      have hstays : ⟨indent ++ (m.short.toList ++ [':']), e⟩ ∈
          (Line.rewriteEach (replaceBody? [q]) ls).1 :=
        List.mem_map.2 ⟨_, hl, by simp [hnone]⟩
      have hpos := ih (fun n hn => hv n (List.mem_cons_of_mem q hn)) hrest hstays
      omega
    · have hpos : 0 < (Line.rewriteEach (replaceBody? [q]) ls).2 :=
        List.countP_pos_iff.2 ⟨_, hl, Option.isSome_iff_ne_none.2 hnone⟩
      omega

/-- A text that is one key, behind a blank. -/
theorem split_key {s : String} (hs : ∀ c ∈ s.toList, Text.isBlank c = false) :
    Line.split ([' '] ++ (s.toList ++ [':'])) = [⟨[' '] ++ (s.toList ++ [':']), .absent⟩] := by
  refine Line.split_of_noBreak (by simp) fun c hc => ?_
  rcases List.mem_append.1 hc with hc | hc
  · obtain rfl : c = ' ' := by simpa using hc
    rfl
  · exact noBreak_key hs c hc

/-- A row whose replacement is a short name writes a key. If it comes last, a second application
finds that key. -/
theorem second_pass_pos {q : ModuleName}
    (hv : ∀ m ∈ ms ++ [r], isShortName m.short ∧ isReplacement m.fqcn)
    (hne : ∀ m ∈ ms, m.short ≠ r.short) (hq : q ∈ ms ++ [r]) (hchain : q.short = r.fqcn) :
    let pass := Line.onText (rewrite (ms ++ [r]))
    0 < (pass (pass (String.ofList ([' '] ++ (r.short.toList ++ [':'])))).1).2 := by
  intro pass
  have hindent : ∀ c ∈ [' '], Line.isIndent c := by simp [Line.isIndent]
  obtain ⟨hr, hf⟩ := hv r (by simp)
  have hshort : ∀ c ∈ r.short.toList, Text.isBlank c = false := fun c hc =>
    ModuleTable.not_isBlank_of_short ((ModuleTable.mem_short hr).2 c hc)
  have hfirst : (pass (String.ofList ([' '] ++ (r.short.toList ++ [':'])))).1 =
      String.ofList ([' '] ++ (r.fqcn.toList ++ [':'])) := by
    have hkey := rewrite_concat_key hv hne (List.cons_ne_nil ' ' []) hindent .absent
    simp only [pass, Line.onText, String.toList_ofList, split_key hshort, hkey]
    simp [Line.join, Line.chars, Ending.chars]
  have hsecond : (pass (String.ofList ([' '] ++ (r.fqcn.toList ++ [':'])))).2 =
      (rewrite (ms ++ [r]) [⟨[' '] ++ (q.short.toList ++ [':']), .absent⟩]).2 := by
    simp only [pass, Line.onText, String.toList_ofList, hchain,
      split_key (ModuleTable.isReplacement_iff.1 hf).2]
  rw [hfirst, hsecond]
  exact rewrite_pos hv hq (List.cons_ne_nil ' ' []) hindent (List.mem_singleton_self _)

/-- With a chain among its rows a table has an order and a text that a second application
rewrites. -/
theorem exists_unstable {rows : List TableRow} {r q : TableRow}
    (hv : ∀ r ∈ rows, isShortName r.short ∧ isReplacement r.fqcn)
    (hd : (rows.map fun r => r.short).Nodup) (hr : r ∈ rows) (hq : q ∈ rows)
    (hchain : q.short = r.fqcn) :
    ∃ qs : List TableRow, qs.Perm rows ∧ ∃ s : String,
      let pass := Line.onText (rewrite (qs.map TableRow.toModuleName))
      0 < (pass (pass s).1).2 := by
  obtain ⟨before, after, rfl⟩ := List.append_of_mem hr
  have hperm : (before ++ after ++ [r]).Perm (before ++ r :: after) := by
    rw [List.append_assoc]
    exact (List.perm_append_singleton r after).append_left before
  have hmap : (before ++ after ++ [r]).map TableRow.toModuleName =
      (before ++ after).map TableRow.toModuleName ++ [r.toModuleName] := by
    rw [List.map_append, List.map_singleton]
  refine ⟨before ++ after ++ [r], hperm, String.ofList ([' '] ++ (r.short.toList ++ [':'])), ?_⟩
  rw [hmap]
  refine second_pass_pos (q := q.toModuleName) ?_ ?_ ?_ hchain
  · rw [← hmap]
    intro m hm
    obtain ⟨p, hp, rfl⟩ := List.mem_map.1 hm
    exact hv p (hperm.mem_iff.1 hp)
  · intro m hm
    obtain ⟨p, hp, rfl⟩ := List.mem_map.1 hm
    -- No two rows have one short name.
    have hnodup := (hperm.map fun r => r.short).nodup_iff.2 hd
    rw [List.map_append, List.nodup_append] at hnodup
    exact hnodup.2.2 _ (List.mem_map_of_mem hp) _ (by simp)
  · rw [← hmap]
    exact List.mem_map_of_mem (hperm.mem_iff.2 hq)

/-- A table that is accepted settles a text in one application, whatever the order of its rows. -/
theorem second_pass_zero (ha : Accepted rows) (s : String) :
    (Line.onText (rewrite rows) (Line.onText (rewrite rows) s).1).2 = 0 := by
  have hset : ∀ b b', replaceBody? rows b = some b' → replaceBody? rows b' = none := fun _ _ h =>
    replaceBody?_settles ha (List.Subset.refl rows) (List.Subset.refl rows) h
  have hrewrite : rewrite rows = Line.rewriteEach (replaceBody? rows) := funext (rewrite_eq ha)
  calc (Line.onText (rewrite rows) (Line.onText (rewrite rows) s).1).2
      = (rewrite rows (Line.split (Line.onText (rewrite rows) s).1.toList)).2 := rfl
    _ = 0 := by
      rw [hrewrite, Line.split_onText (keepsBodies ha), Line.rewriteEach_rewriteEach hset]

/-- Of entries that are well-formed a table takes effect exactly if a second application has
nothing to do, in whatever order the merged rows are applied and to whatever text. -/
theorem effective_ok_iff_stable {o : Overrides}
    (hv : ∀ e ∈ o.entries, ModuleTable.fault? e.1 e.2 = none) :
    (∃ rows, ModuleTable.effective o = .ok rows) ↔
      ∀ rows : List TableRow, rows.Perm (ModuleTable.merged o) → ∀ s : String,
        let pass := Line.onText (rewrite (rows.map TableRow.toModuleName))
        (pass (pass s).1).2 = 0 := by
  constructor
  · rintro ⟨rows, h⟩ qs hp s
    have ha : Accepted (rows.map TableRow.toModuleName) := ModuleTable.accepted_of_effective h
    obtain ⟨-, -, rfl⟩ := ModuleTable.effective_eq_ok_iff.1 h
    exact second_pass_zero (ha.perm (hp.map _)) s
  · intro hstable
    refine ⟨_, ModuleTable.effective_eq_ok_iff.2 ⟨hv, fun r hr q hq hchain => ?_, rfl⟩⟩
    have hvalid : ∀ r ∈ ModuleTable.merged o, isShortName r.short ∧ isReplacement r.fqcn :=
      fun r hr => ModuleTable.valid_of_mem_merged hv hr
    obtain ⟨qs, hp, s, hpos⟩ :=
      exists_unstable hvalid (ModuleTable.isMerged_merged o).distinct hr hq hchain
    exact absurd (hstable qs hp s) (Nat.ne_of_gt hpos)

/-- A row that maps a name to itself. -/
theorem effective_ok_iff_stable_self :
    let o := Overrides.empty.insert "apt" "apt"
    (∀ e ∈ o.entries, ModuleTable.fault? e.1 e.2 = none) ∧
      (¬ ∃ rows, ModuleTable.effective o = .ok rows) ∧
      ∃ rows : List TableRow, rows.Perm (ModuleTable.merged o) ∧ ∃ s : String,
        let pass := Line.onText (rewrite (rows.map TableRow.toModuleName))
        (pass (pass s).1).2 ≠ 0 := by
  intro o
  have hv : ∀ e ∈ o.entries, ModuleTable.fault? e.1 e.2 = none := by
    rw [ModuleTable.entries_insert_empty, List.forall_mem_singleton]
    decide
  have hself : (⟨⟨"apt", "apt"⟩, .override⟩ : TableRow) ∈ ModuleTable.merged o := by decide +kernel
  have hrefused : ¬ ∃ rows, ModuleTable.effective o = .ok rows := by
    rintro ⟨rows, h⟩
    exact (ModuleTable.effective_eq_ok_iff.1 h).2.1 _ hself _ hself rfl
  have hunstable := mt (effective_ok_iff_stable hv).2 hrefused
  refine ⟨hv, hrefused, ?_⟩
  push Not at hunstable
  exact hunstable

end PlaybookTidy.Qualify
