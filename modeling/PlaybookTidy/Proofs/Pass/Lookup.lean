import Mathlib.Data.List.Forall2
import PlaybookTidy.Proofs.Merged
import PlaybookTidy.Proofs.Pass.Qualify

/-!
The pass for module names, told line by line. With a table in effect every line is looked up once,
so the order of the rows does not matter.
-/

namespace PlaybookTidy.Qualify

open ModuleTable (Accepted isShortName)

variable {rows qs : List ModuleName} {body out : List Char}

/-- Indentation, the short name of a row and a colon, and nothing else. -/
def IsKey (rows : List ModuleName) (body : List Char) : Prop :=
  ∃ m ∈ rows, ∃ indent : List Char, indent ≠ [] ∧ (∀ c ∈ indent, Line.isIndent c) ∧
    body = indent ++ (m.short.toList ++ [':'])

/-- What the pass makes of a line: a key gets the fully-qualified name of its row. -/
inductive Qualified (rows : List ModuleName) : Line → Line → Prop
  | key {m : ModuleName} {indent : List Char} {e : Ending} : m ∈ rows → indent ≠ [] →
      (∀ c ∈ indent, Line.isIndent c) →
      Qualified rows ⟨indent ++ (m.short.toList ++ [':']), e⟩ ⟨indent ++ (m.fqcn.toList ++ [':']), e⟩
  | other {l : Line} : ¬ IsKey rows l.body → Qualified rows l l

/-- Of the places where a line can be cut only one leaves the key behind the indentation. -/
theorem isKey_iff : IsKey rows body ↔ ∃ m ∈ rows,
    let indent := body.take (body.length - (m.short.toList ++ [':']).length)
    indent ≠ [] ∧ indent.all Line.isIndent ∧ body = indent ++ (m.short.toList ++ [':']) := by
  simp only [List.all_eq_true]
  constructor
  · rintro ⟨m, hm, indent, hne, hi, rfl⟩
    refine ⟨m, hm, ?_⟩
    rw [List.length_append, Nat.add_sub_cancel, List.take_left]
    exact ⟨hne, hi, rfl⟩
  · rintro ⟨m, hm, hkey⟩
    exact ⟨m, hm, _, hkey⟩

instance : DecidablePred (IsKey rows) := fun _ => decidable_of_iff _ isKey_iff.symm

/-- The row of a key is the only one with its short name. -/
theorem replaceBody?_eq_some_iff (hs : ∀ m ∈ rows, isShortName m.short)
    (hd : (rows.map ModuleName.short).Nodup) :
    replaceBody? rows body = some out ↔ ∃ m ∈ rows, ∃ indent : List Char, indent ≠ [] ∧
      (∀ c ∈ indent, Line.isIndent c) ∧ body = indent ++ (m.short.toList ++ [':']) ∧
        out = indent ++ (m.fqcn.toList ++ [':']) := by
  constructor
  · exact exists_of_replaceBody?
  · rintro ⟨m, hm, indent, hne, hi, rfl, rfl⟩
    have hr := isIndent_head_short (hs m hm)
    have hfind : (rows.find? fun n => m.short.toList ++ [':'] = n.short.toList ++ [':']) = some m := by
      obtain ⟨before, after, rfl⟩ := List.append_of_mem hm
      refine List.find?_eq_some_iff_append.2 ⟨by simp, before, after, rfl, fun n hn => ?_⟩
      have hne : n.short ≠ m.short := by
        rw [List.map_append, List.nodup_append] at hd
        exact hd.2.2 _ (List.mem_map_of_mem hn) _ (by simp)
      simpa [String.toList_inj] using hne.symm
    rw [replaceBody?, rowOf?, Line.takeWhile_isIndent hi hr, Line.dropWhile_isIndent hi hr,
      if_neg hne, hfind, Option.map_some, List.append_assoc]

/-- A line is rewritten exactly if it is a key of a row. -/
theorem isSome_replaceBody?_iff (hs : ∀ m ∈ rows, isShortName m.short)
    (hd : (rows.map ModuleName.short).Nodup) :
    (replaceBody? rows body).isSome ↔ IsKey rows body := by
  rw [Option.isSome_iff_exists]
  simp only [replaceBody?_eq_some_iff hs hd]
  constructor
  · rintro ⟨_, m, hm, indent, hne, hi, hbody, -⟩
    exact ⟨m, hm, indent, hne, hi, hbody⟩
  · rintro ⟨m, hm, indent, hne, hi, hbody⟩
    exact ⟨_, m, hm, indent, hne, hi, hbody, rfl⟩

/-- What the pass makes of a line is the line with its key replaced, if it has one. -/
theorem qualified_iff (hs : ∀ m ∈ rows, isShortName m.short)
    (hd : (rows.map ModuleName.short).Nodup) {l k : Line} :
    Qualified rows l k ↔ { l with body := (replaceBody? rows l.body).getD l.body } = k := by
  constructor
  · rintro (⟨hm, hne, hi⟩ | hkey)
    · rw [(replaceBody?_eq_some_iff hs hd).2 ⟨_, hm, _, hne, hi, rfl, rfl⟩, Option.getD_some]
    · rw [← isSome_replaceBody?_iff hs hd, Option.not_isSome_iff_eq_none] at hkey
      rw [hkey, Option.getD_none]
  · rintro rfl
    cases hb : replaceBody? rows l.body with
    | none =>
      have hkey : ¬ IsKey rows l.body := by simp [← isSome_replaceBody?_iff hs hd, hb]
      exact .other hkey
    | some out =>
      obtain ⟨m, hm, indent, hne, hi, hbody, rfl⟩ := (replaceBody?_eq_some_iff hs hd).1 hb
      obtain ⟨body, ending⟩ := l
      obtain rfl : body = _ := hbody
      exact .key hm hne hi

/-- The lines of a text that qualifies another. -/
theorem forall₂_qualified_iff (hs : ∀ m ∈ rows, isShortName m.short)
    (hd : (rows.map ModuleName.short).Nodup) {ls ks : List Line} :
    List.Forall₂ (Qualified rows) ls ks ↔ (Line.rewriteEach (replaceBody? rows) ls).1 = ks := by
  have hrel : Qualified rows =
      fun l k => { l with body := (replaceBody? rows l.body).getD l.body } = k := by
    funext l k
    exact propext (qualified_iff hs hd)
  rw [hrel, Line.rewriteEach, ← List.forall₂_eq_eq_eq, List.forall₂_map_left_iff]

/-- Rows with different names may be looked up in any order. -/
theorem replaceBody?_perm (hs : ∀ m ∈ rows, isShortName m.short)
    (hd : (rows.map ModuleName.short).Nodup) (hp : qs.Perm rows) :
    replaceBody? qs = replaceBody? rows := by
  have hs' : ∀ m ∈ qs, isShortName m.short := fun m hm => hs m (hp.mem_iff.1 hm)
  have hd' : (qs.map ModuleName.short).Nodup := (hp.map _).nodup_iff.2 hd
  funext body
  apply Option.ext
  intro out
  rw [replaceBody?_eq_some_iff hs hd, replaceBody?_eq_some_iff hs' hd']
  simp only [hp.mem_iff]

/-- The rows one after the other do what one look-up of each line does: the lines that are a key of
a row get its fully-qualified name, the others stay, and the keys are counted. In another order the
rows do the same. -/
theorem rewrite_simultaneous {o : Overrides} {rows : List TableRow}
    (h : ModuleTable.effective o = .ok rows) (s : String) :
    let ms := rows.map TableRow.toModuleName
    (∀ t : String, (Line.onText (rewrite ms) s).1 = t ↔
      List.Forall₂ (Qualified ms) (Line.split s.toList) (Line.split t.toList)) ∧
    (Line.onText (rewrite ms) s).2 = (Line.split s.toList).countP (fun l => IsKey ms l.body) ∧
    ∀ qs : List TableRow, qs.Perm rows →
      Line.onText (rewrite (qs.map TableRow.toModuleName)) s = Line.onText (rewrite ms) s := by
  intro ms
  have ha : Accepted ms := ModuleTable.accepted_of_effective h
  have hd : (ms.map ModuleName.short).Nodup := ModuleTable.nodup_of_effective h
  have hrewrite : rewrite ms = Line.rewriteEach (replaceBody? ms) := funext (rewrite_eq ha)
  refine ⟨fun t => ?_, ?_, fun qs hp => ?_⟩
  · rw [hrewrite, ← Line.split_toList_inj, Line.split_onText (keepsBodies ha),
      forall₂_qualified_iff ha.short hd]
  · rw [hrewrite]
    show ((Line.split s.toList).countP fun l => (replaceBody? ms l.body).isSome) = _
    refine List.countP_congr fun l _ => ?_
    rw [isSome_replaceBody?_iff ha.short hd, decide_eq_true_eq]
  · have hperm : (qs.map TableRow.toModuleName).Perm ms := hp.map _
    rw [hrewrite, funext (rewrite_eq (ha.perm hperm)), replaceBody?_perm ha.short hd hperm]

/-- A name that looks like a reference to a group of a pattern, and a key that is none. -/
theorem rewrite_simultaneous_literal :
    let o := Overrides.empty.insert "odd" "ns.$1.odd"
    let rows := ModuleTable.merged o
    let pass := Line.onText (rewrite (rows.map TableRow.toModuleName))
    let s := "  odd:\r\n\tapt:\r  odd: \n"
    ModuleTable.effective o = .ok rows ∧
      (pass s).1 = "  ns.$1.odd:\r\n\tansible.builtin.apt:\r  odd: \n" ∧ (pass s).2 = 2 ∧
      Line.onText (rewrite (rows.reverse.map TableRow.toModuleName)) s = pass s := by
  intro o rows pass s
  have h : ModuleTable.effective o = .ok rows :=
    ModuleTable.effective_insert_empty (by decide) (by decide)
  have hlines : Line.split s.toList = [⟨[' ', ' '] ++ ("odd".toList ++ [':']), .crlf⟩,
      ⟨['\t'] ++ ("apt".toList ++ [':']), .cr⟩, ⟨"  odd: ".toList, .lf⟩] := by decide
  have hqualified : Line.split "  ns.$1.odd:\r\n\tansible.builtin.apt:\r  odd: \n".toList =
      [⟨[' ', ' '] ++ ("ns.$1.odd".toList ++ [':']), .crlf⟩,
        ⟨['\t'] ++ ("ansible.builtin.apt".toList ++ [':']), .cr⟩, ⟨"  odd: ".toList, .lf⟩] := by
    decide
  have hodd : (⟨"odd", "ns.$1.odd"⟩ : ModuleName) ∈ rows.map TableRow.toModuleName := by
    decide +kernel
  have hapt : (⟨"apt", "ansible.builtin.apt"⟩ : ModuleName) ∈ rows.map TableRow.toModuleName := by
    decide +kernel
  have hblanks : ∀ c ∈ [' ', ' '], Line.isIndent c := by simp [Line.isIndent]
  have htab : ∀ c ∈ ['\t'], Line.isIndent c := by simp [Line.isIndent]
  have hfirst : IsKey (rows.map TableRow.toModuleName) ([' ', ' '] ++ ("odd".toList ++ [':'])) :=
    ⟨_, hodd, _, by simp, hblanks, rfl⟩
  have hsecond : IsKey (rows.map TableRow.toModuleName) (['\t'] ++ ("apt".toList ++ [':'])) :=
    ⟨_, hapt, _, by simp, htab, rfl⟩
  -- The last line does not end with a colon.
  have hother : ¬ IsKey (rows.map TableRow.toModuleName) "  odd: ".toList := by
    rintro ⟨m, -, indent, -, -, hbody⟩
    have hlast := congrArg List.getLast? hbody
    simp at hlast
  obtain ⟨htext, hcount, horder⟩ := rewrite_simultaneous h s
  refine ⟨h, (htext _).2 ?_, hcount.trans ?_, horder _ (List.reverse_perm rows)⟩
  · rw [hlines, hqualified]
    exact .cons (.key hodd (by simp) hblanks) (.cons (.key hapt (by simp) htab)
      (.cons (.other hother) .nil))
  · simp only [hlines, List.countP_cons, List.countP_nil, hfirst, hsecond, hother, decide_true,
      decide_false, ↓reduceIte, Bool.false_eq_true]

end PlaybookTidy.Qualify
