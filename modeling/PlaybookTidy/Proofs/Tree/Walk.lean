import PlaybookTidy.Tree.Files
import PlaybookTidy.Proofs.Path

/-!
Where a walk ends, and what is read there. The pieces of a path alone determine the location, and
of the tree only the directories matter on the way.
-/

namespace PlaybookTidy.Tree

open PlaybookTidy.Path (isVoid dotDot)

variable {t t' : Tree} {l x : Location} {ns : List Name} {p q : Path}

def follow (l : Location) (n : Name) : Location :=
  if isVoid n then l else if n = dotDot then l.dropLast else l ++ [n]

theorem follow_name {n : Name} (hv : isVoid n = false) (hn : n ≠ dotDot) :
    follow l n = l ++ [n] := by
  simp [follow, hv, hn]

/-- Pieces that say nothing lead nowhere else. -/
theorem foldl_follow_filter (ns : List Name) (l : Location) :
    (ns.filter fun n => !isVoid n).foldl follow l = ns.foldl follow l := by
  induction ns generalizing l with
  | nil => rfl
  | cons n ns ih =>
    cases hn : isVoid n with
    | true => simpa [hn, follow] using ih l
    | false => simpa [hn] using ih (follow l n)

/-- A walk that goes on starts in a directory. -/
theorem walk_cons {n : Name} (h : t.walk l (n :: ns) = .ok x) :
    t.get? l = some .directory ∧ t.walk (follow l n) ns = .ok x ∧
      (isVoid n = false → n ≠ dotDot →
        Text.byteLength n ≤ maxNameLength ∧ (t.get? (l ++ [n])).isSome) := by
  rw [walk] at h
  cases hl : t.get? l with
  | none => simp [hl] at h
  | some e =>
    cases e with
    | file content => simp [hl] at h
    | directory =>
      simp only [hl] at h
      -- Only a name has to lead to an entry; the other pieces stay or go up.
      by_cases hv : isVoid n = true
      · rw [if_pos hv] at h
        simpa [follow, hv] using h
      · rw [if_neg hv] at h
        by_cases hn : n = dotDot
        · rw [if_pos hn] at h
          simpa [follow, hn] using h
        · rw [if_neg hn] at h
          by_cases hlen : Text.byteLength n > maxNameLength
          · simp [hlen] at h
          · rw [if_neg hlen] at h
            by_cases hsome : (t.get? (l ++ [n])).isNone
            · simp [hsome] at h
            · rw [if_neg hsome] at h
              have hfollow : follow l n = l ++ [n] := follow_name (by simpa using hv) hn
              refine ⟨rfl, hfollow ▸ h, fun _ _ => ⟨by omega, ?_⟩⟩
              simpa [Option.isSome_iff_ne_none] using hsome

theorem walk_cons_of {n : Name} (hl : t.get? l = some .directory)
    (hname : isVoid n = false → n ≠ dotDot →
      Text.byteLength n ≤ maxNameLength ∧ (t.get? (l ++ [n])).isSome) :
    t.walk l (n :: ns) = t.walk (follow l n) ns := by
  rw [walk, hl]
  by_cases hv : isVoid n = true
  · simp [follow, hv]
  · by_cases hn : n = dotDot
    · simp [follow, hn]
    · obtain ⟨hlen, hsome⟩ := hname (by simpa using hv) hn
      have hlen' : ¬ Text.byteLength n > maxNameLength := by omega
      have hsome' : ¬ (t.get? (l ++ [n])).isNone = true := by
        simpa [Option.isSome_iff_ne_none] using hsome
      simp [follow, hv, hn, hlen', hsome']

/-- A walk that ends well ends where its pieces lead. -/
theorem walk_eq_foldl (h : t.walk l ns = .ok x) : x = ns.foldl follow l := by
  induction ns generalizing l with
  | nil => simpa [walk] using h.symm
  | cons n ns ih => exact ih (walk_cons h).2.1

/-- A walk that ends well in one tree does so in each other that has the directories and something
at the end. -/
theorem walk_of_directories
    (hd : ∀ l, t.get? l = some .directory → t'.get? l = some .directory)
    (h : t.walk l ns = .ok x) (hx : (t'.get? x).isSome) : t'.walk l ns = .ok x := by
  induction ns generalizing l with
  | nil => exact h
  | cons n ns ih =>
    obtain ⟨hl, hrest, hname⟩ := walk_cons h
    have hrest' := ih hrest
    refine (walk_cons_of (hd l hl) fun hv hn => ⟨(hname hv hn).1, ?_⟩).trans hrest'
    rw [follow_name hv hn] at hrest
    -- What the name leads to is the end of the walk, or a directory on its way.
    cases ns with
    | nil =>
      obtain rfl : l ++ [n] = x := by simpa [walk] using hrest
      exact hx
    | cons m ns => rw [hd _ (walk_cons hrest).1]; rfl

theorem walk_append {ms : List Name} (h : t.walk l (ns ++ ms) = .ok x) :
    t.walk l ns = .ok (ns.foldl follow l) ∧ t.walk (ns.foldl follow l) ms = .ok x := by
  induction ns generalizing l with
  | nil => exact ⟨rfl, h⟩
  | cons n ns ih =>
    obtain ⟨hl, hrest, hname⟩ := walk_cons h
    obtain ⟨hfront, hback⟩ := ih hrest
    exact ⟨(walk_cons_of hl hname).trans hfront, hback⟩

theorem walk_append_of (h : t.walk l ns = .ok x) (ms : List Name) :
    t.walk l (ns ++ ms) = t.walk x ms := by
  induction ns generalizing l with
  | nil =>
    obtain rfl : l = x := by simpa [walk] using h
    rfl
  | cons n ns ih =>
    obtain ⟨hl, hrest, hname⟩ := walk_cons h
    rw [List.cons_append, walk_cons_of hl hname]
    exact ih hrest

/-- The empty piece at the end of a walk asks for a directory. -/
theorem walk_concat_nil : t.walk l (ns ++ [[]]) = .ok x ↔
    t.walk l ns = .ok x ∧ t.get? x = some .directory := by
  constructor
  · intro h
    obtain ⟨hfront, hlast⟩ := walk_append h
    obtain ⟨hdir, hend, -⟩ := walk_cons hlast
    obtain rfl : ns.foldl follow l = x := by simpa [walk, follow] using hend
    exact ⟨hfront, hdir⟩
  · rintro ⟨h, hdir⟩
    rw [walk_append_of h]
    simp [walk, hdir]

/-- On the way to a directory the pieces that say nothing make no difference. -/
theorem walk_filter : t.walk l ((ns.filter fun n => !isVoid n) ++ [[]]) = .ok x ↔
    t.walk l (ns ++ [[]]) = .ok x := by
  induction ns generalizing l with
  | nil => rfl
  | cons n ns ih =>
    cases hv : isVoid n with
    | false =>
      rw [List.filter_cons_of_pos (by simp [hv]), List.cons_append, List.cons_append]
      constructor
      · intro h
        obtain ⟨hl, hrest, hname⟩ := walk_cons h
        exact (walk_cons_of hl hname).trans (ih.1 hrest)
      · intro h
        obtain ⟨hl, hrest, hname⟩ := walk_cons h
        exact (walk_cons_of hl hname).trans (ih.2 hrest)
    | true =>
      rw [List.filter_cons_of_neg (by simp [hv]), List.cons_append, ih]
      -- A void piece only asks for a directory, which the piece behind it does as well.
      have hstay : follow l n = l := by simp [follow, hv]
      constructor
      · intro h
        have hl : t.get? l = some .directory := by
          obtain ⟨m, ms, hms⟩ := List.exists_cons_of_ne_nil (l := ns ++ [[]]) (by simp)
          exact (walk_cons (hms ▸ h)).1
        rw [walk_cons_of hl (by simp [hv]), hstay]
        exact h
      · intro h
        exact hstay ▸ (walk_cons h).2.1

/-- A path leads somewhere if it can be taken and its pieces can be walked. -/
theorem resolve_eq_ok_iff :
    t.resolve p = .ok x ↔
      checkPath p = .ok () ∧ t.walk (t.start p) (Text.splitOn '/' p.text) = .ok x := by
  unfold resolve
  cases checkPath p with
  | error e => simp [bind, Except.bind]
  | ok u => simp [bind, Except.bind]

/-- Where a path leads by its steps. -/
theorem location_of_resolve (h : t.resolve p = .ok x) : x = p.steps.foldl follow (t.start p) := by
  rw [Path.steps, foldl_follow_filter]
  exact walk_eq_foldl (resolve_eq_ok_iff.1 h).2

/-- Two paths with the same components lead to one location. -/
theorem location_of_components {y : Location} (h : p.components = q.components)
    (hp : t.resolve p = .ok x) (hq : t.resolve q = .ok y) : x = y := by
  rw [location_of_resolve hp, location_of_resolve hq, (Path.steps_of_components h).2, start, start,
    Path.isAbsolute_of_components h]

theorem fromUTF8?_eq_some_iff {b : ByteArray} {s : String} :
    String.fromUTF8? b = some s ↔ b = s.toUTF8 := by
  constructor
  · intro h
    unfold String.fromUTF8? at h
    split at h
    · rw [← Option.some.inj h]
      rfl
    · simp at h
  · intro h
    rw [h]
    exact fromUTF8?_toUTF8 s

theorem textFile_injective : Function.Injective textFile := by
  intro s s' h
  have hbytes : s.toUTF8 = s'.toUTF8 := Entry.file.inj h
  have hread := fromUTF8?_eq_some_iff.2 hbytes
  rw [fromUTF8?_toUTF8] at hread
  exact Option.some.inj hread

theorem text_unique {s s' : String} (h : t.get? l = some (textFile s))
    (h' : t.get? l = some (textFile s')) : s = s' := by
  rw [h] at h'
  exact textFile_injective (Option.some.inj h')

/-- A path reads as a text if it leads to a file that holds the text. -/
theorem readText_eq_ok_iff {s : String} :
    t.readText p = .ok s ↔ ∃ l, t.resolve p = .ok l ∧ t.get? l = some (textFile s) := by
  unfold readText
  cases hp : t.resolve p with
  | error e => simp [bind, Except.bind]
  | ok l =>
    simp only [bind, Except.bind, Except.ok.injEq, exists_eq_left']
    cases hl : t.get? l with
    | none => simp
    | some e =>
      cases e with
      | directory => simp [textFile]
      | file content =>
        have hbytes : some (Entry.file content) = some (textFile s) ↔
            String.fromUTF8? content = some s := by
          rw [fromUTF8?_eq_some_iff, textFile, Option.some.injEq, Entry.file.injEq]
        rw [hbytes]
        cases hc : String.fromUTF8? content <;> simp [hc]

end PlaybookTidy.Tree
