import PlaybookTidy.Proofs.Tree.Walk

/-!
Trees that lost files and nothing else. What a path finds in the smaller tree it finds in the
larger one at the same location.
-/

namespace PlaybookTidy.Tree

variable {t t' t'' : Tree} {l : Location} {p : Path}

theorem isSome_get?_iff : (t.get? l).isSome ↔ l = [] ∨ l ∈ t.entries.map Prod.fst := by
  by_cases hl : l = []
  · simp [hl]
  · rw [get?, if_neg hl, List.lookup_isSome_iff, List.mem_map]
    simp only [hl, beq_iff_eq, false_or]
    exact exists_congr fun x => and_congr_right fun _ => eq_comm

theorem mem_names {n : Name} : n ∈ t.names l ↔ l ++ [n] ∈ t.entries.map Prod.fst := by
  simp only [names, List.mem_eraseDups, List.mem_mergeSort, List.mem_filterMap, List.mem_map]
  apply exists_congr
  intro x
  apply and_congr_right
  intro _
  -- A location is listed by its last name if what is before that is `l`.
  rcases List.eq_nil_or_concat x.1 with hx | ⟨front, m, hx⟩
  · simp [hx]
  · simp [hx]

theorem depth_le_iff {k : Nat} :
    t.depth ≤ k ↔ ∀ l ∈ t.entries.map Prod.fst, l.length ≤ k := by
  have hfold : ∀ (es : List (Location × Entry)) (m : Nat),
      es.foldl (fun n x => max n x.1.length) m ≤ k ↔ m ≤ k ∧ ∀ x ∈ es, x.1.length ≤ k := by
    intro es
    induction es with
    | nil => simp
    | cons x es ih =>
      intro m
      rw [List.foldl_cons, ih, List.forall_mem_cons, Nat.max_le, and_assoc]
  simp [depth, hfold]

theorem isDirectory_iff :
    t.isDirectory p = true ↔ ∃ l, t.resolve p = .ok l ∧ t.get? l = some .directory := by
  unfold isDirectory entry?
  cases t.resolve p <;> simp

theorem isFile_iff :
    t.isFile p = true ↔ ∃ l c, t.resolve p = .ok l ∧ t.get? l = some (.file c) := by
  unfold isFile entry?
  cases t.resolve p with
  | error e => simp
  | ok l => cases hl : t.get? l with
    | none => simp [hl]
    | some e => cases e <;> simp [hl]

/-- The later tree has the directories of the earlier one and files only where that had files. -/
structure Shrinks (t t' : Tree) : Prop where
  workingDirectory : t'.workingDirectory = t.workingDirectory
  directory (l : Location) : t'.get? l = some .directory ↔ t.get? l = some .directory
  locations : t'.entries.map Prod.fst ⊆ t.entries.map Prod.fst

namespace Shrinks

theorem refl (t : Tree) : Shrinks t t := ⟨rfl, fun _ => Iff.rfl, List.Subset.refl _⟩

theorem trans (h : Shrinks t t') (h' : Shrinks t' t'') : Shrinks t t'' where
  workingDirectory := h'.workingDirectory.trans h.workingDirectory
  directory l := (h'.directory l).trans (h.directory l)
  locations := List.Subset.trans h'.locations h.locations

theorem isSome (h : Shrinks t t') (hl : (t'.get? l).isSome) : (t.get? l).isSome := by
  rw [isSome_get?_iff] at hl ⊢
  apply hl.imp_right
  intro hmem
  exact h.locations hmem

theorem file {c : ByteArray} (h : Shrinks t t') (hl : t'.get? l = some (.file c)) :
    ∃ c', t.get? l = some (.file c') := by
  obtain ⟨e, he⟩ := Option.isSome_iff_exists.1 (h.isSome (l := l) (by simp [hl]))
  cases e with
  | file c' => exact ⟨c', he⟩
  | directory =>
    rw [(h.directory l).2 he] at hl
    simp at hl

theorem start (h : Shrinks t t') (p : Path) : t'.start p = t.start p := by
  simp only [Tree.start, h.workingDirectory]

/-- A path that leads somewhere after files disappeared led there before. -/
theorem resolve (h : Shrinks t t') (hp : t'.resolve p = .ok l) (hl : (t'.get? l).isSome) :
    t.resolve p = .ok l := by
  rw [resolve_eq_ok_iff] at hp ⊢
  refine ⟨hp.1, ?_⟩
  rw [← h.start]
  exact walk_of_directories (fun k => (h.directory k).1) hp.2 (h.isSome hl)

/-- A path still leads where it led, if something is left there. -/
theorem resolve_of (h : Shrinks t t') (hp : t.resolve p = .ok l) (hl : (t'.get? l).isSome) :
    t'.resolve p = .ok l := by
  rw [resolve_eq_ok_iff] at hp ⊢
  refine ⟨hp.1, ?_⟩
  rw [h.start]
  exact walk_of_directories (fun k => (h.directory k).2) hp.2 hl

theorem contains (h : Shrinks t t') (hp : t'.contains p = true) : t.contains p = true := by
  unfold Tree.contains entry? at hp ⊢
  cases hr : t'.resolve p with
  | error e => simp [hr] at hp
  | ok l =>
    have hl : (t'.get? l).isSome := by simpa [hr] using hp
    rw [h.resolve hr hl]
    exact h.isSome hl

theorem isDirectory (h : Shrinks t t') (p : Path) : t'.isDirectory p = t.isDirectory p := by
  rw [Bool.eq_iff_iff, isDirectory_iff, isDirectory_iff]
  constructor
  · rintro ⟨l, hp, hl⟩
    exact ⟨l, h.resolve hp (by simp [hl]), (h.directory l).1 hl⟩
  · rintro ⟨l, hp, hl⟩
    have hl' := (h.directory l).2 hl
    exact ⟨l, h.resolve_of hp (by simp [hl']), hl'⟩

theorem isFile (h : Shrinks t t') (hp : t'.isFile p = true) : t.isFile p = true := by
  obtain ⟨l, c, hr, hl⟩ := isFile_iff.1 hp
  obtain ⟨c', hc'⟩ := h.file hl
  exact isFile_iff.2 ⟨l, c', h.resolve hr (by simp [hl]), hc'⟩

theorem namesAt (h : Shrinks t t') (hp : t'.isDirectory p = true) : t'.namesAt p ⊆ t.namesAt p := by
  obtain ⟨l, hr, hl⟩ := isDirectory_iff.1 hp
  intro n hn
  simp only [Tree.namesAt, hr] at hn
  simp only [Tree.namesAt, h.resolve hr (by simp [hl])]
  exact mem_names.2 (h.locations (mem_names.1 hn))

theorem depth (h : Shrinks t t') : t'.depth ≤ t.depth := by
  apply depth_le_iff.2
  intro l hl
  exact depth_le_iff.1 (Nat.le_refl t.depth) l (h.locations hl)

end Shrinks

end PlaybookTidy.Tree
