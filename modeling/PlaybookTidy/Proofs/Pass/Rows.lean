import PlaybookTidy.Pass.Qualify
import PlaybookTidy.Proofs.Scan

/-!
The rows of a table as searches of a whole text. The name of a row may hold line ends, so it is
looked for in several lines at once, and what is found is what a search from left to right finds.
-/

namespace PlaybookTidy

namespace Line

def withEnding (ls : List Line) (e : Ending) : List Line :=
  ls.dropLast ++ (ls.getLast?.map fun l => { l with ending := e }).toList

def indented (indent : List Char) : List Line → List Line
  | [] => []
  | l :: ls => { l with body := indent ++ l.body } :: ls

variable {l : Line} {ls ks : List Line} {e : Ending} {indent s : List Char}

theorem withEnding_concat (ls : List Line) (l : Line) (e : Ending) :
    withEnding (ls ++ [l]) e = ls ++ [{ l with ending := e }] := by
  simp [withEnding]

theorem withEnding_cons (hne : ls ≠ []) (l : Line) (e : Ending) :
    withEnding (l :: ls) e = l :: withEnding ls e := by
  obtain ⟨k, ks, rfl⟩ := List.exists_cons_of_ne_nil hne
  simp [withEnding]

theorem withEnding_indented (indent : List Char) (ls : List Line) (e : Ending) :
    withEnding (indented indent ls) e = indented indent (withEnding ls e) := by
  cases ls with
  | nil => rfl
  | cons l ls =>
    cases ls with
    | nil => rfl
    | cons k ks =>
      rw [indented, withEnding_cons (List.cons_ne_nil k ks),
        withEnding_cons (List.cons_ne_nil k ks), indented]

theorem length_withEnding (ls : List Line) (e : Ending) : (withEnding ls e).length = ls.length := by
  rcases List.eq_nil_or_concat ls with rfl | ⟨ks, k, rfl⟩
  · rfl
  · simp [withEnding_concat]

theorem length_indented (indent : List Char) (ls : List Line) :
    (indented indent ls).length = ls.length := by
  cases ls <;> rfl

/-- Indentation goes in front of the first line. -/
theorem split_indented (hi : ∀ c ∈ indent, isIndent c) (hne : s ≠ []) :
    split (indent ++ s) = indented indent (split s) := by
  have hr := regular_split s
  have hjoin := join_split s
  cases hs : split s with
  | nil =>
    rw [hs] at hjoin
    exact absurd hjoin.symm hne
  | cons l ls =>
    rw [hs] at hr hjoin
    obtain ⟨hb, ha, hfollows, hr'⟩ := regular_cons_iff.1 hr
    have hreg : Regular (indented indent (l :: ls)) := by
      refine regular_cons_iff.2 ⟨?_, fun he => ?_, hfollows, hr'⟩
      · intro c hc
        rcases List.mem_append.1 hc with hc | hc
        · exact isBreak_of_isIndent (hi c hc)
        · exact hb c hc
      · simp [ha he]
    rw [← split_join hreg, ← hjoin]
    simp [indented, join, chars]

end Line

namespace Qualify

open Line (isIndent isBreak withEnding indented Follows Regular join split StartsAt)

variable {m : ModuleName} {rows : List ModuleName} {key ls out rest : List Line}
  {indent s out' before taken after put : List Char} {e : Ending} {n : ℕ}

/-- The key is spelled by the first lines if they are the key, but for how its last line ends. -/
theorem spelled?_eq_some_iff (hne : key ≠ []) :
    spelled? key ls = some e ↔ ∃ rest, ls = withEnding key e ++ rest := by
  induction key generalizing ls with
  | nil => exact absurd rfl hne
  | cons k ks ih =>
    cases ks with
    | nil =>
      cases ls with
      | nil => simp [spelled?, withEnding]
      | cons l ls =>
        obtain ⟨body, ending⟩ := l
        simp [spelled?, withEnding]
    | cons k' ks =>
      rw [Line.withEnding_cons (List.cons_ne_nil k' ks)]
      cases ls with
      | nil => simp [spelled?]
      | cons l ls =>
        simp [spelled?, ih (List.cons_ne_nil k' ks)]

/-- A key is found at the front of some lines if they begin with it, behind an indentation. -/
theorem find?_eq_some_iff (hne : key ≠ []) :
    find? key ls = some (indent, e) ↔ indent ≠ [] ∧ (∀ c ∈ indent, isIndent c) ∧
      ∃ rest, ls = indented indent (withEnding key e) ++ rest := by
  obtain ⟨k, ks, rfl⟩ := List.exists_cons_of_ne_nil hne
  have hfront : ∃ l ls, withEnding (k :: ks) e = l :: ls ∧ l.body = k.body := by
    cases ks with
    | nil => exact ⟨_, _, rfl, rfl⟩
    | cons k' ks => exact ⟨k, _, Line.withEnding_cons (List.cons_ne_nil k' ks) k e, rfl⟩
  obtain ⟨f, fs, hf, hbody⟩ := hfront
  cases ls with
  | nil => simp [find?, hf, indented]
  | cons l ls =>
    have hfind : find? (k :: ks) (l :: ls) =
        if l.body.take (l.body.length - k.body.length) = [] ||
            !(l.body.take (l.body.length - k.body.length)).all isIndent then none
        else (spelled? (k :: ks) ({ l with body := l.body.drop (l.body.length - k.body.length) } ::
          ls)).map fun e => (l.body.take (l.body.length - k.body.length), e) := rfl
    rw [hfind]
    simp only [Option.ite_none_left_eq_some, Option.map_eq_some_iff, Prod.mk.injEq,
      Bool.or_eq_true, decide_eq_true_eq, not_or, Bool.not_eq_true', Bool.not_eq_false,
      List.all_eq_true, spelled?_eq_some_iff hne, hf]
    constructor
    · rintro ⟨⟨hnil, hi⟩, e', ⟨rest, hrest⟩, rfl, rfl⟩
      rw [hf] at hrest
      obtain ⟨rfl, rfl⟩ := List.cons.inj hrest
      refine ⟨hnil, hi, rest, ?_⟩
      simp [indented]
    · rintro ⟨hnil, hi, rest, hrest⟩
      obtain ⟨rfl, rfl⟩ := List.cons.inj hrest
      -- What is left of the first line is as long as the first line of the key.
      have hlength : (indent ++ f.body).length - k.body.length = indent.length := by
        rw [hbody, List.length_append, Nat.add_sub_cancel]
      rw [hlength, List.take_left, List.drop_left]
      exact ⟨⟨hnil, hi⟩, e, ⟨rest, by rw [hf]; rfl⟩, rfl, rfl⟩

/-- Up to its last colon, a text is split in the same way whatever comes after it. -/
theorem exists_splitAfter_colon (held s : List Char) :
    ∃ ks b, ∀ t, Line.splitAfter held (s ++ ':' :: t) = ks ++ Line.splitAfter (':' :: b) t := by
  -- The colon is no break, so the text before it is split without a look at what comes after.
  fun_induction Line.splitAfter held s with
  | case1 => exact ⟨[], [], fun t => by rw [List.nil_append, Line.splitAfter] <;> simp⟩
  | case2 held hne => exact ⟨[], held, fun t => by rw [List.nil_append, Line.splitAfter] <;> simp⟩
  | case3 held s ih =>
    obtain ⟨ks, b, h⟩ := ih
    exact ⟨⟨held.reverse, .crlf⟩ :: ks, b, fun t => congrArg _ (h t)⟩
  | case4 held s hs ih =>
    obtain ⟨ks, b, h⟩ := ih
    refine ⟨⟨held.reverse, .cr⟩ :: ks, b, fun t => ?_⟩
    rw [List.cons_append, Line.splitAfter, h t, List.cons_append]
    intro r hr
    cases s with
    | nil => simp at hr
    | cons c s =>
      obtain ⟨rfl, -⟩ := List.cons.inj hr
      exact hs s rfl
  | case5 held s ih =>
    obtain ⟨ks, b, h⟩ := ih
    exact ⟨⟨held.reverse, .lf⟩ :: ks, b, fun t => congrArg _ (h t)⟩
  | case6 held c s hcrlf hcr hlf ih =>
    obtain ⟨ks, b, h⟩ := ih
    refine ⟨ks, b, fun t => ?_⟩
    rw [List.cons_append, Line.splitAfter, h t]
    · exact fun r hr _ => hcr hr
    · exact hcr
    · exact hlf

/-- The lines of a text that ends with a colon, with any ending, and of what goes on after it. -/
theorem exists_split_colon (s : List Char) : ∃ (ks : List Line) (l : Line),
    join ks ++ l.body = s ++ [':'] ∧
    (∀ e, splitEnding (s ++ [':']) e = ks ++ [{ l with ending := e }]) ∧
    ∀ e t, Follows e t →
      split (s ++ [':'] ++ (e.chars ++ t)) = ks ++ { l with ending := e } :: split t := by
  obtain ⟨ks, b, h⟩ := exists_splitAfter_colon [] s
  have hsplit : split (s ++ [':']) = ks ++ [⟨(':' :: b).reverse, .absent⟩] := by
    rw [split, h, Line.splitAfter, if_neg (by simp)]
  refine ⟨ks, ⟨(':' :: b).reverse, .absent⟩, ?_, fun e => ?_, fun e t ht => ?_⟩
  · rw [← Line.join_split (s ++ [':']), hsplit]
    simp [join, Line.chars, Ending.chars]
  · show withEnding (split (s ++ [':'])) e = _
    rw [hsplit, Line.withEnding_concat]
  · rw [List.append_assoc, List.singleton_append, split, h, Line.splitAfter_ending (by simp) ht]

/-- A text is split at its last colon as the key before it is, with the ending that comes after. -/
theorem split_ending {t : List Char} (h : Follows e t) :
    split (s ++ [':'] ++ (e.chars ++ t)) = splitEnding (s ++ [':']) e ++ split t := by
  obtain ⟨ks, l, -, hput, hsplit⟩ := exists_split_colon s
  rw [hsplit e t h, hput, List.append_assoc, List.singleton_append]

theorem join_splitEnding (s : List Char) (e : Ending) (ls : List Line) :
    join (splitEnding (s ++ [':']) e ++ ls) = s ++ [':'] ++ (e.chars ++ join ls) := by
  obtain ⟨ks, l, hjoin, hput, -⟩ := exists_split_colon s
  rw [hput, ← hjoin]
  simp [join, Line.chars]

/-- What is put for a key is split as it would be within the text. -/
theorem regular_splitEnding_iff :
    Regular (splitEnding (s ++ [':']) e ++ ls) ↔ Follows e (join ls) ∧ Regular ls := by
  constructor
  · intro h
    obtain ⟨ks, l, -, hput, -⟩ := exists_split_colon s
    rw [hput, List.append_assoc] at h
    exact (Line.regular_cons_iff.1 h.of_append).2.2
  · rintro ⟨hfollows, hr⟩
    have hreg := Line.regular_split (s ++ [':'] ++ (e.chars ++ join ls))
    rwa [split_ending hfollows, Line.split_join hr] at hreg

theorem splitEnding_indented (hi : ∀ c ∈ indent, isIndent c) (name : String) (e : Ending) :
    splitEnding (indent ++ name.toList ++ [':']) e =
      indented indent (withEnding (keyLines name) e) := by
  show withEnding (split (indent ++ name.toList ++ [':'])) e = _
  rw [List.append_assoc, Line.split_indented hi (by simp), Line.withEnding_indented]
  rfl

theorem keyLines_ne_nil (name : String) : keyLines name ≠ [] := by
  intro hnil
  have hjoin := Line.join_split (name.toList ++ [':'])
  rw [← keyLines, hnil] at hjoin
  simp [join] at hjoin

/-- A name is found where the lines of its key stand, whatever ends the last of them. -/
theorem find?_keyLines {name : String} : find? (keyLines name) ls = some (indent, e) ↔
    indent ≠ [] ∧ (∀ c ∈ indent, isIndent c) ∧
      ∃ rest, ls = splitEnding (indent ++ name.toList ++ [':']) e ++ rest := by
  rw [find?_eq_some_iff (keyLines_ne_nil name)]
  refine and_congr_right fun _ => and_congr_right fun hi => ?_
  rw [splitEnding_indented hi]

inductive Rewritten (m : ModuleName) : List Line → List Line → ℕ → Prop
  | done : Rewritten m [] [] 0
  | other {l : Line} {ls out : List Line} {n : ℕ} : find? (keyLines m.short) (l :: ls) = none →
      Rewritten m ls out n → Rewritten m (l :: ls) (l :: out) n
  | key {indent : List Char} {e : Ending} {ls out : List Line} {n : ℕ} : indent ≠ [] →
      (∀ c ∈ indent, isIndent c) → Rewritten m ls out n →
      Rewritten m (splitEnding (indent ++ m.short.toList ++ [':']) e ++ ls)
        (splitEnding (indent ++ m.fqcn.toList ++ [':']) e ++ out) (n + 1)

/-- Where a key is found, its lines are passed over. -/
theorem drop_of_find? {l : Line} {name : String} (hi : ∀ c ∈ indent, isIndent c)
    (h : l :: ls = splitEnding (indent ++ name.toList ++ [':']) e ++ rest) :
    ls.drop ((keyLines name).length - 1) = rest := by
  have hlength : (splitEnding (indent ++ name.toList ++ [':']) e).length =
      (keyLines name).length := by
    rw [splitEnding_indented hi, Line.length_indented, Line.length_withEnding]
  obtain ⟨k, hk⟩ := Nat.exists_eq_add_one.2 (List.length_pos_iff.2 (keyLines_ne_nil name))
  calc ls.drop ((keyLines name).length - 1) = (l :: ls).drop (keyLines name).length := by
        rw [hk, List.drop_succ_cons, Nat.add_sub_cancel]
    _ = rest := by rw [h, ← hlength, List.drop_left]

/-- The loop over lines steps over one line, or over the lines of a key. -/
theorem rewritten_rewriteKey (m : ModuleName) (skip : ℕ) (ls : List Line) :
    Rewritten m (ls.drop skip) (rewriteKey (keyLines m.short) m.fqcn.toList skip ls).1
      (rewriteKey (keyLines m.short) m.fqcn.toList skip ls).2 := by
  fun_induction rewriteKey (keyLines m.short) m.fqcn.toList skip ls with
  | case1 skip =>
    rw [List.drop_nil]
    exact .done
  | case2 skip l ls ih => exact ih
  | case3 l ls hnone out n hrest ih =>
    rw [hrest] at ih
    exact .other hnone ih
  | case4 l ls indent e hsome out n hrest ih =>
    obtain ⟨hne, hi, rest, hkey⟩ := find?_keyLines.1 hsome
    rw [hrest, drop_of_find? hi hkey] at ih
    rw [List.drop_zero, hkey]
    exact .key hne hi ih

theorem rewritten_rewriteRow (m : ModuleName) (ls : List Line) :
    Rewritten m ls (rewriteRow m ls).1 (rewriteRow m ls).2 := rewritten_rewriteKey m 0 ls

namespace Rewritten

/-- The first character is not touched, since no key begins a text. -/
theorem head?_join (h : Rewritten m ls out n) : (join out).head? = (join ls).head? := by
  induction h with
  | done => rfl
  | other _ _ ih => simp [Line.join_cons, List.head?_append, ih]
  | @key indent e ls out n hne hi _ _ =>
    obtain ⟨c, s, rfl⟩ := List.exists_cons_of_ne_nil hne
    rw [join_splitEnding, join_splitEnding]
    rfl

/-- The lines that a row writes are the lines of a text, also where its name brings line ends. -/
theorem regular (h : Rewritten m ls out n) (hr : Regular ls) : Regular out := by
  induction h with
  | done => exact hr
  | other _ hrest ih =>
    obtain ⟨hb, ha, hfollows, hr'⟩ := Line.regular_cons_iff.1 hr
    exact Line.regular_cons_iff.2 ⟨hb, ha, hfollows.congr hrest.head?_join, ih hr'⟩
  | key _ _ hrest ih =>
    obtain ⟨hfollows, hr'⟩ := regular_splitEnding_iff.1 hr
    exact regular_splitEnding_iff.2 ⟨hfollows.congr hrest.head?_join, ih hr'⟩

end Rewritten

/-- A row as a pattern: indentation, the short name and a colon, up to where a line ends. -/
def row (m : ModuleName) : LinePattern where
  takes taken put := ∃ indent : List Char, indent ≠ [] ∧ (∀ c ∈ indent, isIndent c) ∧
    taken = indent ++ m.short.toList ++ [':'] ∧ put = indent ++ m.fqcn.toList ++ [':']
  whole := True

/-- Where a row occurs, its key is found in the lines that begin there. -/
theorem find?_of_occurs (h : (row m).Occurs before taken after put) :
    ∃ indent e, find? (keyLines m.short) (split (taken ++ after)) = some (indent, e) ∧
      taken = indent ++ m.short.toList ++ [':'] ∧ put = indent ++ m.fqcn.toList ++ [':'] := by
  obtain ⟨indent, hne, hi, htaken, hput⟩ := h.takes
  have hlast : (before ++ taken).getLast? = some ':' := by simp [htaken]
  obtain ⟨e, t, rfl, hfollows⟩ := (Line.endsAt_iff hlast (by decide)).1 (h.stop trivial)
  refine ⟨indent, e, find?_keyLines.2 ⟨hne, hi, split t, ?_⟩, htaken, hput⟩
  rw [htaken, split_ending hfollows]

/-- There is one way to find a row at a place, since the lines that begin there tell the
indentation. -/
theorem determined_row (m : ModuleName) : (row m).Determined where
  front := by
    rintro taken put ⟨indent, hne, hi, rfl, -⟩
    obtain ⟨c, s, rfl⟩ := List.exists_cons_of_ne_nil hne
    exact ⟨c, _, rfl, Line.isBreak_of_isIndent (hi c (by simp))⟩
  unique := by
    intro before taken taken' after after' put put' h h' heq
    obtain ⟨indent, e, hfind, rfl, rfl⟩ := find?_of_occurs h
    obtain ⟨indent', e', hfind', rfl, rfl⟩ := find?_of_occurs h'
    rw [heq, hfind'] at hfind
    obtain ⟨rfl, -⟩ := Prod.mk.inj (Option.some.inj hfind)
    exact ⟨rfl, rfl⟩

/-- By induction on the steps, a search of the text takes each key and passes over the other lines.
-/
theorem Rewritten.scans (h : Rewritten m ls out n) (hr : Regular ls)
    (hstart : join ls ≠ [] → StartsAt before (join ls)) :
    (row m).Scans before (join ls) (join out) n := by
  have hrow := determined_row m
  induction h generalizing before with
  | done => exact .done before
  | @other l ls out n hnone hrest ih =>
    have hnext := ih hr.2.2.2 fun hne => by
      refine Line.startsAt_next hr ?_ before
      rintro rfl
      exact hne rfl
    rw [Line.join_cons, Line.join_cons]
    refine LinePattern.Scans.pass_body hrow hr.1 ?_ (.pass_ending hrow hnext)
    intro taken after put heq hocc
    obtain ⟨indent, e, hfind, -, -⟩ := find?_of_occurs hocc
    rw [heq, ← Line.join_cons, Line.split_join hr, hnone] at hfind
    exact absurd hfind nofun
  | @key indent e ls out n hne hi hrest ih =>
    obtain ⟨hfollows, hr'⟩ := regular_splitEnding_iff.1 hr
    rw [join_splitEnding] at hstart ⊢
    rw [join_splitEnding]
    have hline := hstart (by simp)
    have hstop : Line.EndsAt (before ++ (indent ++ m.short.toList ++ [':'])) (e.chars ++ join ls) :=
      (Line.endsAt_iff (c := ':') (by simp) rfl).2 ⟨e, join ls, rfl, hfollows⟩
    have hnext := ih hr' fun hne =>
      hfollows.startsAt hne (before ++ (indent ++ m.short.toList ++ [':']))
    exact .take rfl ⟨hline, ⟨indent, hne, hi, rfl, rfl⟩, fun _ => hstop⟩ (.pass_ending hrow hnext)

/-- A search of the text for the row does what the row does to the lines. -/
theorem scans_row_iff : (row m).Scans [] s out' n ↔
    out' = join (rewriteRow m (split s)).1 ∧ n = (rewriteRow m (split s)).2 := by
  have hscan : (row m).Scans [] (join (split s)) (join (rewriteRow m (split s)).1)
      (rewriteRow m (split s)).2 :=
    (rewritten_rewriteRow m (split s)).scans (Line.regular_split s) fun _ => Or.inl rfl
  rw [Line.join_split] at hscan
  constructor
  · exact fun h => h.unique (determined_row m) hscan
  · rintro ⟨rfl, rfl⟩
    exact hscan

/-- The first row is applied, then the others to what it wrote. -/
theorem rewrite_cons (m : ModuleName) (ms : List ModuleName) (ls : List Line) :
    rewrite (m :: ms) ls = ((rewrite ms (rewriteRow m ls).1).1,
      (rewriteRow m ls).2 + (rewrite ms (rewriteRow m ls).1).2) := by
  let step : List Line × Nat → ModuleName → List Line × Nat :=
    fun x m => ((rewriteRow m x.1).1, x.2 + (rewriteRow m x.1).2)
  have hcons : ∀ q qs ks, rewrite (q :: qs) ks =
      qs.foldl step ((rewriteRow q ks).1, 0 + (rewriteRow q ks).2) := fun _ _ _ => rfl
  -- The count so far only goes in front.
  have hcount : ∀ qs ks n, qs.foldl step (ks, n) = ((rewrite qs ks).1, n + (rewrite qs ks).2) := by
    intro qs
    induction qs with
    | nil => exact fun _ _ => rfl
    | cons q qs ih =>
      intro ks n
      rw [hcons, List.foldl_cons, ih, ih, Nat.zero_add, Nat.add_assoc]
  rw [hcons, hcount, Nat.zero_add]

/-- The rows in their order, each searched for in what the one before it wrote. -/
inductive ScansEach : List ModuleName → List Char → List Char → ℕ → Prop
  | nil (s : List Char) : ScansEach [] s s 0
  | cons {m : ModuleName} {ms : List ModuleName} {s middle out : List Char} {j k : ℕ} :
      (row m).Scans [] s middle j → ScansEach ms middle out k → ScansEach (m :: ms) s out (j + k)

theorem scansEach_iff : ScansEach rows s out' n ↔
    out' = join (rewrite rows (split s)).1 ∧ n = (rewrite rows (split s)).2 := by
  induction rows generalizing s n with
  | nil =>
    constructor
    · rintro (_ | _)
      exact ⟨(Line.join_split _).symm, rfl⟩
    · rintro ⟨rfl, rfl⟩
      show ScansEach [] s (join (split s)) 0
      rw [Line.join_split]
      exact .nil s
  | cons m ms ih =>
    -- The next row searches the text that this one wrote, so its lines have to be those of a text.
    have hregular := (rewritten_rewriteRow m (split s)).regular (Line.regular_split s)
    rw [rewrite_cons]
    constructor
    · rintro (_ | ⟨hscan, hrest⟩)
      obtain ⟨rfl, rfl⟩ := scans_row_iff.1 hscan
      rw [ih, Line.split_join hregular] at hrest
      obtain ⟨rfl, rfl⟩ := hrest
      exact ⟨rfl, rfl⟩
    · rintro ⟨rfl, rfl⟩
      refine .cons (scans_row_iff.2 ⟨rfl, rfl⟩) (ih.2 ?_)
      rw [Line.split_join hregular]
      exact ⟨rfl, rfl⟩

/-- The pass is one search of the whole text for each row, whatever the names of the rows are. -/
theorem onText_rewrite_eq_iff_scansEach {s t : String} : Line.onText (rewrite rows) s = (t, n) ↔
    ScansEach rows s.toList t.toList n := by
  rw [scansEach_iff, Line.onText, Prod.mk.injEq, ← String.toList_inj, String.toList_ofList, eq_comm,
    and_congr_right fun _ => eq_comm]

end Qualify

end PlaybookTidy
