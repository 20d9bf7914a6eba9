import PlaybookTidy.Proofs.Tree.Replace

/-!
Reading a path looks only at the locations that the path comes by. Replacing a file therefore
matters to no path that leads elsewhere and stays clear of the temporary file.
-/

namespace PlaybookTidy.Tree

variable {t t' : Tree} {l x : Location} {ns : List Name} {p q : Path}

/-- Both trees have a directory at the location, both have a file, or both have nothing. -/
structure SameKind (t t' : Tree) (l : Location) : Prop where
  directory : t'.get? l = some .directory ↔ t.get? l = some .directory
  isSome : (t'.get? l).isSome ↔ (t.get? l).isSome

/-- The locations that a path comes by, the one where it leads included. -/
def stops (t : Tree) (p : Path) : List Location :=
  (Text.splitOn '/' p.text).scanl follow (t.start p)

/-- Where a path leads by its pieces, whether or not something is there. -/
def destination (t : Tree) (p : Path) : Location := p.steps.foldl follow (t.start p)

theorem sameKind_of_eq (h : t'.get? l = t.get? l) : SameKind t t' l := by
  constructor <;> rw [h]

theorem SameKind.file {c : ByteArray} (h : SameKind t t' l) (hl : t'.get? l = some (.file c)) :
    ∃ c', t.get? l = some (.file c') := by
  obtain ⟨e, he⟩ := Option.isSome_iff_exists.1 (h.isSome.1 (by simp [hl]))
  cases e with
  | file c' => exact ⟨c', he⟩
  | directory => simp [h.directory.2 he] at hl

theorem SameKind.symm (h : SameKind t t' l) : SameKind t' t l := ⟨h.directory.symm, h.isSome.symm⟩

/-- What a walk does depends on the kinds of what is on its way. -/
theorem walk_congr (h : ∀ x ∈ ns.scanl follow l, SameKind t t' x) : t'.walk l ns = t.walk l ns := by
  -- `follow` tells where the walk is after each name, whether or not it gets there.
  induction ns generalizing l with
  | nil => rfl
  | cons n ns ih =>
    rw [List.scanl_cons] at h
    have hl : SameKind t t' l := h l List.mem_cons_self
    have hrest := ih fun x hx => h x (List.mem_cons_of_mem l hx)
    have hnext : SameKind t t' (follow l n) :=
      h _ (List.mem_cons_of_mem l (by cases ns <;> simp))
    by_cases hd : t.get? l = some .directory
    · have hd' : t'.get? l = some .directory := hl.directory.2 hd
      simp only [walk, hd, hd']
      by_cases hv : Path.isVoid n = true
      · have hstay : follow l n = l := by simp [follow, hv]
        rw [hstay] at hrest
        rw [if_pos hv, if_pos hv, hrest]
      · rw [if_neg hv, if_neg hv]
        by_cases hn : n = Path.dotDot
        · have hup : follow l n = l.dropLast := by simp [follow, hn]
          rw [hup] at hrest
          rw [if_pos hn, if_pos hn, hrest]
        · rw [follow_name (by simpa using hv) hn] at hrest hnext
          have hsome : (t'.get? (l ++ [n])).isNone = (t.get? (l ++ [n])).isNone := by
            rw [Bool.eq_iff_iff, Option.isNone_iff_eq_none, Option.isNone_iff_eq_none,
              ← Option.not_isSome_iff_eq_none, ← Option.not_isSome_iff_eq_none, hnext.isSome]
          rw [if_neg hn, if_neg hn, hsome, hrest]
    · -- Without a directory to start from, the kind of what is there makes the error.
      have hd' : t'.get? l ≠ some .directory := fun he => hd (hl.directory.1 he)
      cases he : t.get? l with
      | none =>
        have hnone : t'.get? l = none := by simpa [he] using hl.isSome
        simp only [walk, he, hnone]
      | some e =>
        cases e with
        | directory => exact absurd he hd
        | file c =>
          obtain ⟨c', hc'⟩ := hl.symm.file he
          simp only [walk, he, hc']

theorem start_congr (hw : t'.workingDirectory = t.workingDirectory) (p : Path) :
    t'.start p = t.start p := by
  simp only [start, hw]

/-- A path leads to the same place in trees that do not differ where it comes by. -/
theorem resolve_congr (hw : t'.workingDirectory = t.workingDirectory)
    (h : ∀ x ∈ t.stops p, SameKind t t' x) : t'.resolve p = t.resolve p := by
  unfold resolve
  rw [start_congr hw, walk_congr h]

/-- A path leads to the last of its stops. -/
theorem mem_stops_of_resolve (h : t.resolve p = .ok l) : l ∈ t.stops p := by
  rw [walk_eq_foldl (resolve_eq_ok_iff.1 h).2]
  exact List.mem_of_getLast? List.getLast?_scanl

theorem entry_of_resolve (h : t.resolve p = .ok l) : t.entry? p = t.get? l := by
  unfold entry?
  rw [h]

theorem entry_congr (hp : t'.resolve p = t.resolve p)
    (h : ∀ l, t.resolve p = .ok l → t'.get? l = t.get? l) : t'.entry? p = t.entry? p := by
  unfold entry?
  rw [hp]
  cases hl : t.resolve p with
  | error e => rfl
  | ok l => exact h l hl

/-- A path leads to the same place in both trees, and the same is there. -/
structure SameAt (t t' : Tree) (p : Path) : Prop where
  workingDirectory : t'.workingDirectory = t.workingDirectory
  resolve : t'.resolve p = t.resolve p
  entry : t'.entry? p = t.entry? p

namespace SameAt

theorem refl (t : Tree) (p : Path) : SameAt t t p := ⟨rfl, rfl, rfl⟩

/-- A path that leads to the same in both trees reads the same. -/
theorem readText (h : SameAt t t' p) : t'.readText p = t.readText p := by
  have hentry := h.entry
  unfold Tree.readText
  rw [h.resolve]
  cases hl : t.resolve p with
  | error e => rfl
  | ok l =>
    rw [entry_of_resolve hl, entry_of_resolve (h.resolve.trans hl)] at hentry
    simp only [bind, Except.bind, hentry]

end SameAt

/-- What a path leads to is not affected by replacing another file, if there is nothing at the
temporary location or the path does not come by it. -/
theorem sameAt_replaced {c : ByteArray} {s : String} (hfile : t.get? l = some (.file c))
    (hql : t.resolve q ≠ .ok l)
    (htemp : tempLocation l ∈ t.stops q → t.get? (tempLocation l) = none) :
    SameAt t ((t.erase (tempLocation l)).set l (textFile s)) q := by
  have hl : l ≠ [] := ne_nil_of_file hfile
  have hw : ((t.erase (tempLocation l)).set l (textFile s)).workingDirectory =
      t.workingDirectory := by
    simp [erase]
  -- On the way of the path only the replaced file itself can differ.
  have hsame : ∀ x ∈ t.stops q, x ≠ l →
      ((t.erase (tempLocation l)).set l (textFile s)).get? x = t.get? x := by
    intro x hx hxl
    rw [get?_replaced hl, if_neg hxl]
    split
    · rename_i hxt
      rw [hxt, htemp (hxt ▸ hx)]
    · rfl
  have hresolve : ((t.erase (tempLocation l)).set l (textFile s)).resolve q = t.resolve q := by
    apply resolve_congr hw
    intro x hx
    by_cases hxl : x = l
    · constructor <;> simp [get?_replaced hl, hxl, hfile, textFile]
    · exact sameKind_of_eq (hsame x hx hxl)
  refine ⟨hw, hresolve, entry_congr hresolve ?_⟩
  intro x hx
  apply hsame x (mem_stops_of_resolve hx)
  rintro rfl
  exact hql hx

end PlaybookTidy.Tree
