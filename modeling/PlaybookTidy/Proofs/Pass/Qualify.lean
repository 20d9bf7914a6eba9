import Mathlib.Data.List.TakeWhile
import PlaybookTidy.Proofs.Pass.Rows
import PlaybookTidy.Proofs.Table

/-!
The pass for module names as one look-up per line. With rows that a table in effect may have, the
rows one after the other do what a look-up of the first row that fits the line does.
-/

namespace PlaybookTidy.Qualify

open ModuleTable (Accepted isShortName isReplacement)

/-- The first row whose short name a line holds as an indented key that stands alone. -/
def rowOf? (rows : List ModuleName) (body : List Char) : Option ModuleName :=
  if body.takeWhile Line.isIndent = [] then none
  else rows.find? fun m => body.dropWhile Line.isIndent = m.short.toList ++ [':']

def replaceBody? (rows : List ModuleName) (body : List Char) : Option (List Char) :=
  (rowOf? rows body).map fun m => body.takeWhile Line.isIndent ++ m.fqcn.toList ++ [':']

theorem replaceBody?_nil (body : List Char) : replaceBody? [] body = none := by
  simp [replaceBody?, rowOf?]

theorem replaceBody?_cons (m : ModuleName) (rows : List ModuleName) (body : List Char) :
    replaceBody? (m :: rows) body = (replaceBody? [m] body).or (replaceBody? rows body) := by
  unfold replaceBody? rowOf?
  by_cases hi : body.takeWhile Line.isIndent = []
  · simp [hi]
  · by_cases hk : body.dropWhile Line.isIndent = m.short.toList ++ [':']
    · simp [hi, hk]
    · simp [hi, hk]

/-- A line that changes is indentation, the short name of a row and a colon. -/
theorem exists_of_replaceBody? {rows : List ModuleName} {body out : List Char}
    (h : replaceBody? rows body = some out) :
    ∃ m ∈ rows, ∃ indent : List Char, indent ≠ [] ∧ (∀ c ∈ indent, Line.isIndent c) ∧
      body = indent ++ (m.short.toList ++ [':']) ∧ out = indent ++ (m.fqcn.toList ++ [':']) := by
  obtain ⟨m, hm, rfl⟩ := Option.map_eq_some_iff.1 h
  unfold rowOf? at hm
  split at hm
  · exact absurd hm nofun
  · rename_i hne
    have hk : body.dropWhile Line.isIndent = m.short.toList ++ [':'] := by
      simpa using List.find?_some hm
    refine ⟨m, List.mem_of_find?_eq_some hm, _, hne, fun _ => List.mem_takeWhile_imp, ?_, by simp⟩
    rw [← hk, List.takeWhile_append_dropWhile]

theorem not_isIndent_of_not_isBlank {c : Char} (h : Text.isBlank c = false) :
    Line.isIndent c = false := by
  rw [Bool.eq_false_iff]
  intro hi
  rcases Line.isIndent_iff.1 hi with rfl | rfl <;> exact absurd h (by decide)

/-- A key whose name holds no blanks does not begin with indentation. -/
theorem isIndent_head_key {s : String} (hne : s.toList ≠ [])
    (hs : ∀ c ∈ s.toList, Text.isBlank c = false) (c : Char)
    (hc : (s.toList ++ [':']).head? = some c) : Line.isIndent c = false := by
  obtain ⟨d, r, hd⟩ := List.exists_cons_of_ne_nil hne
  obtain rfl : d = c := by simpa [hd] using hc
  exact not_isIndent_of_not_isBlank (hs d (by simp [hd]))

theorem isIndent_head_short {s : String} (h : isShortName s) (c : Char)
    (hc : (s.toList ++ [':']).head? = some c) : Line.isIndent c = false := by
  obtain ⟨hne, hall⟩ := ModuleTable.mem_short h
  apply isIndent_head_key hne _ c hc
  intro d hd
  exact ModuleTable.not_isBlank_of_short (hall d hd)

theorem replaceBody?_key {m : ModuleName} (hm : isShortName m.short) {indent : List Char}
    (hne : indent ≠ []) (hi : ∀ c ∈ indent, Line.isIndent c) :
    replaceBody? [m] (indent ++ (m.short.toList ++ [':'])) =
      some (indent ++ (m.fqcn.toList ++ [':'])) := by
  have hr := isIndent_head_short hm
  simp [replaceBody?, rowOf?, Line.takeWhile_isIndent hi hr, Line.dropWhile_isIndent hi hr, hne]

theorem isBreak_of_not_isBlank {c : Char} (h : Text.isBlank c = false) :
    Line.isBreak c = false := by
  rw [Bool.eq_false_iff]
  intro hb
  rcases Line.isBreak_iff.1 hb with rfl | rfl <;> exact absurd h (by decide)

theorem noBreak_key {s : String} (hs : ∀ c ∈ s.toList, Text.isBlank c = false) :
    ∀ c ∈ s.toList ++ [':'], Line.isBreak c = false := by
  intro c hc
  rcases List.mem_append.1 hc with hc | hc
  · exact isBreak_of_not_isBlank (hs c hc)
  · obtain rfl : c = ':' := by simpa using hc
    rfl

/-- A key without white space in its name is one line. -/
theorem splitEnding_key {indent : List Char} (hi : ∀ c ∈ indent, Line.isIndent c) {s : String}
    (hs : ∀ c ∈ s.toList, Text.isBlank c = false) (e : Ending) :
    splitEnding (indent ++ s.toList ++ [':']) e = [⟨indent ++ (s.toList ++ [':']), e⟩] := by
  have hb : ∀ c ∈ indent ++ (s.toList ++ [':']), Line.isBreak c = false := by
    intro c hc
    rcases List.mem_append.1 hc with hc | hc
    · exact Line.isBreak_of_isIndent (hi c hc)
    · exact noBreak_key hs c hc
  rw [List.append_assoc]
  simp [splitEnding, Line.split_of_noBreak (by simp) hb]

/-- A key that is one line is found in the lines that it fills. -/
theorem Rewritten.rewriteEach_eq {m : ModuleName} (hs : isShortName m.short)
    (hf : isReplacement m.fqcn) {ls out : List Line} {n : ℕ} (h : Rewritten m ls out n) :
    Line.rewriteEach (replaceBody? [m]) ls = (out, n) := by
  have hshort : ∀ c ∈ m.short.toList, Text.isBlank c = false := fun c hc =>
    ModuleTable.not_isBlank_of_short ((ModuleTable.mem_short hs).2 c hc)
  induction h with
  | done => rfl
  | @other l ls out n hnone _ ih =>
    have hb : replaceBody? [m] l.body = none := by
      -- A line that is a key would have been found as one.
      rw [Option.eq_none_iff_forall_ne_some]
      intro b hb
      obtain ⟨k, hk, indent, hne, hi, hbody, -⟩ := exists_of_replaceBody? hb
      obtain rfl : k = m := by simpa using hk
      have hfound : find? (keyLines k.short) (l :: ls) = some (indent, l.ending) := by
        refine find?_keyLines.2 ⟨hne, hi, ls, ?_⟩
        rw [splitEnding_key hi hshort, ← hbody, List.singleton_append]
      exact absurd (hnone.symm.trans hfound) nofun
    rw [Line.rewriteEach_cons, ih, hb]
    rfl
  | @key indent e ls out n hne hi _ ih =>
    rw [splitEnding_key hi hshort, splitEnding_key hi (ModuleTable.isReplacement_iff.1 hf).2,
      List.singleton_append, Line.rewriteEach_cons, ih, replaceBody?_key hs hne hi]
    rfl

/-- A row rewrites line by line. -/
theorem rewriteRow_eq {m : ModuleName} (hs : isShortName m.short) (hf : isReplacement m.fqcn)
    (ls : List Line) : rewriteRow m ls = Line.rewriteEach (replaceBody? [m]) ls :=
  ((rewritten_rewriteRow m ls).rewriteEach_eq hs hf).symm

/-- A line that holds a blank after its indentation is no key of a row. -/
theorem replaceBody?_of_blank {rows : List ModuleName} (ha : Accepted rows)
    {indent rest : List Char} (hi : ∀ c ∈ indent, Line.isIndent c)
    (hr : ∀ c, rest.head? = some c → Line.isIndent c = false) (hb : ' ' ∈ rest) :
    replaceBody? rows (indent ++ rest) = none := by
  rw [Option.eq_none_iff_forall_ne_some]
  intro out hout
  obtain ⟨m, hm, i, -, hi', hbody, -⟩ := exists_of_replaceBody? hout
  have hrest : rest = m.short.toList ++ [':'] := by
    have h := Line.dropWhile_isIndent hi hr
    rw [hbody, Line.dropWhile_isIndent hi' (isIndent_head_short (ha.short m hm))] at h
    exact h.symm
  rw [hrest] at hb
  rcases List.mem_append.1 hb with hb | hb
  · exact ModuleTable.not_mem_short (ha.short m hm) (by decide) (by decide) hb
  · exact absurd hb (by decide)

/-- What a row wrote no row looks for. -/
theorem replaceBody?_settles {rows ms ns : List ModuleName} (ha : Accepted rows)
    (hms : ms ⊆ rows) (hns : ns ⊆ rows) {body out : List Char}
    (h : replaceBody? ms body = some out) : replaceBody? ns out = none := by
  obtain ⟨m, hm, indent, -, hi, -, rfl⟩ := exists_of_replaceBody? h
  rw [Option.eq_none_iff_forall_ne_some]
  intro out hout
  obtain ⟨n, hn, i, -, hi', hbody, -⟩ := exists_of_replaceBody? hout
  obtain ⟨hne, hall⟩ := ModuleTable.isReplacement_iff.1 (ha.replacement m (hms hm))
  have hr := isIndent_head_key hne hall
  have hkey : m.fqcn.toList ++ [':'] = n.short.toList ++ [':'] :=
    Line.rest_inj hi hi' hr (isIndent_head_short (ha.short n (hns hn))) hbody
  have hname : n.short = m.fqcn := String.toList_injective (List.append_cancel_right hkey).symm
  exact ha.unchained m (hms hm) n (hns hn) hname

/-- The rows one after the other look each line up once. -/
theorem rewrite_eq {rows : List ModuleName} (ha : Accepted rows) (ls : List Line) :
    rewrite rows ls = Line.rewriteEach (replaceBody? rows) ls := by
  -- Over the rows that are left.
  have hleft : ∀ qs ⊆ rows, ∀ ls, rewrite qs ls = Line.rewriteEach (replaceBody? qs) ls := by
    intro qs hsub
    induction qs with
    | nil =>
      intro ls
      rw [Line.rewriteEach_of_settled fun l _ => replaceBody?_nil l.body]
      rfl
    | cons m qs ih =>
      intro ls
      have hm : m ∈ rows := hsub List.mem_cons_self
      have hqs : qs ⊆ rows := List.subset_of_cons_subset hsub
      -- No later row rewrites what this one wrote, so the two look-ups are one.
      have hset : ∀ b b', replaceBody? [m] b = some b' → replaceBody? qs b' = none := by
        intro b b' h
        exact replaceBody?_settles ha (by simpa using hm) hqs h
      have hsplit : replaceBody? (m :: qs) =
          fun b => (replaceBody? [m] b).or (replaceBody? qs b) :=
        funext (replaceBody?_cons m qs)
      rw [hsplit, Line.rewriteEach_orElse hset, rewrite_cons,
        rewriteRow_eq (ha.short m hm) (ha.replacement m hm), ih hqs]
  exact hleft rows (List.Subset.refl rows) ls

/-- Replacing a key puts no line end into a line. -/
theorem keepsBodies {rows : List ModuleName} (ha : Accepted rows) :
    Line.KeepsBodies (replaceBody? rows) := by
  refine ⟨by simp [replaceBody?, rowOf?], ?_, ?_⟩
  · intro b b' h
    obtain ⟨m, -, indent, -, -, -, rfl⟩ := exists_of_replaceBody? h
    simp
  · intro b b' h _ d hd
    obtain ⟨m, hm, indent, -, hi, -, rfl⟩ := exists_of_replaceBody? h
    rcases List.mem_append.1 hd with hd | hd
    · exact Line.isBreak_of_isIndent (hi d hd)
    · exact noBreak_key (ModuleTable.isReplacement_iff.1 (ha.replacement m hm)).2 d hd

end PlaybookTidy.Qualify
