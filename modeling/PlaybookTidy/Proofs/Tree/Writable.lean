import PlaybookTidy.Proofs.Tree.Replace

/-!
Whether a file can be replaced depends on where directories are, not on what files hold. And two
replacements that keep clear of one another lead to the same tree in either order.
-/

namespace PlaybookTidy.Tree

variable {t t' t₁ t₂ : Tree} {l m x : Location} {p q : Path} {pieces : List Name}
  {content content' operation operation' : String}

structure SameDirectories (t t' : Tree) : Prop where
  workingDirectory : t'.workingDirectory = t.workingDirectory
  directory (l : Location) : t'.get? l = some .directory ↔ t.get? l = some .directory

theorem SameDirectories.symm (h : SameDirectories t t') : SameDirectories t' t :=
  ⟨h.workingDirectory.symm, fun l => (h.directory l).symm⟩

theorem Shrinks.sameDirectories (h : Shrinks t t') : SameDirectories t t' :=
  ⟨h.workingDirectory, h.directory⟩

/-- A text file makes no difference, whatever it says. -/
theorem SameDirectories.set (h : SameDirectories t t') (hl : l ≠ []) (s s' : String) :
    SameDirectories (t.set l (textFile s)) (t'.set l (textFile s')) := by
  refine ⟨by simp [h.workingDirectory], ?_⟩
  intro x
  rw [get?_set hl, get?_set hl]
  by_cases hx : x = l
  · simp [hx, textFile]
  · rw [if_neg hx, if_neg hx]
    exact h.directory x

/-- A way to a directory is one in both trees. -/
theorem SameDirectories.walk (h : SameDirectories t t') {ns : List Name}
    (hw : t.walk l (ns ++ [[]]) = .ok x) : t'.walk l (ns ++ [[]]) = .ok x := by
  have hdir := (h.directory x).2 (walk_concat_nil.1 hw).2
  exact walk_of_directories (fun k => (h.directory k).2) hw (by simp [hdir])

theorem SameDirectories.start (h : SameDirectories t t') (p : Path) : t'.start p = t.start p := by
  simp only [Tree.start, h.workingDirectory]

/-- The directory of a path is the same in trees with the same directories. -/
theorem resolveParent_congr (h : SameDirectories t t') {front : List Name} {n : Name}
    (hp : t.resolveParent p (front ++ [n]) = .ok x) :
    t'.resolveParent p (front ++ [n]) = .ok x := by
  rw [resolveParent_eq_ok_iff] at hp ⊢
  rw [h.start]
  exact ⟨hp.1, h.walk hp.2⟩

/-- A file that can be created in one of the trees can be created in the other, whatever it holds.
-/
theorem create_congr (h : SameDirectories t t') (hc : t.create q content = .ok (l, t₁))
    (content' : String) :
    l ≠ [] ∧ t₁ = t.set l (textFile content) ∧
      t'.create q content' = .ok (l, t'.set l (textFile content')) := by
  obtain ⟨front, n, hcut⟩ := exists_splitOn_eq_concat q
  obtain ⟨x, hp, hlen, hdir, rfl, rfl⟩ := (create_eq_ok_iff hcut).1 hc
  rw [Ne, ← h.directory] at hdir
  refine ⟨by simp, rfl, ?_⟩
  exact (create_eq_ok_iff hcut).2 ⟨x, resolveParent_congr h hp, hlen, hdir, rfl, rfl⟩

theorem rename_congr (h : SameDirectories t t') (hl : (t'.get? l).isSome)
    (hr : t.rename l p = .ok t₁) : ∃ t₂, t'.rename l p = .ok t₂ := by
  obtain ⟨front, n, x, -, hcut, hv, hn, hp, hdir, -⟩ := rename_eq_ok_iff.1 hr
  obtain ⟨e, he⟩ := Option.isSome_iff_exists.1 hl
  rw [Ne, ← h.directory] at hdir
  exact ⟨_, rename_eq_ok_iff.2 ⟨front, n, x, e, hcut, hv, hn, resolveParent_congr h hp, hdir, he,
    rfl⟩⟩

/-- What can be written in a tree, whatever the content, can be written in any tree with the same
directories. -/
theorem writeAtomic_congr (h : SameDirectories t t')
    (hw : t.writeAtomic p content operation = (.ok (), t₁)) :
    ∃ t₂, t'.writeAtomic p content' operation' = (.ok (), t₂) := by
  unfold writeAtomic at hw ⊢
  cases hsplit : p.splitName? with
  | none => simp [hsplit] at hw
  | some r =>
    obtain ⟨dir, n⟩ := r
    simp only [hsplit] at hw ⊢
    cases hc : t.create (dir.join ⟨tempName n⟩) content with
    | error e => simp [hc] at hw
    | ok r =>
      obtain ⟨l, t₂⟩ := r
      obtain ⟨hl, rfl, hc'⟩ := create_congr h hc content'
      simp only [hc, hc'] at hw ⊢
      -- With the temporary file both trees still have the same directories.
      have hset := h.set hl content content'
      cases hr : (t.set l (textFile content)).rename l p with
      | error e => simp [hr] at hw
      | ok t₃ =>
        obtain ⟨t₄, ht₄⟩ := rename_congr hset (by simp [get?_set hl]) hr
        exact ⟨t₄, by simp only [ht₄]⟩

def replaceEntry (l : Location) (e : Entry) (x : Location × Entry) : Option (Location × Entry) :=
  if x.1 = tempLocation l then none else if x.1 = l then some (l, e) else some x

/-- The file keeps its place among the entries. -/
theorem replaced_eq {e : Entry} (hl : l ≠ []) (hsome : (t.get? l).isSome) :
    (t.erase (tempLocation l)).set l e =
      { t with entries := t.entries.filterMap (replaceEntry l e) } := by
  have hkept : ((t.erase (tempLocation l)).entries.lookup l).isSome := by
    have hget : (t.erase (tempLocation l)).get? l = t.get? l := by
      rw [get?_erase (tempLocation_ne_nil l), if_neg (tempLocation_ne_self l).symm]
    rw [← hget, get?, if_neg hl] at hsome
    exact hsome
  -- Taking one entry away and exchanging another is one pass over the entries.
  have hentries : ∀ es : List (Location × Entry),
      (es.filter fun x => x.1 ≠ tempLocation l).map (fun x => if x.1 = l then (l, e) else x) =
        es.filterMap (replaceEntry l e) := by
    intro es
    induction es with
    | nil => rfl
    | cons x es ih =>
      by_cases htemp : x.1 = tempLocation l
      · simpa [replaceEntry, htemp] using ih
      · by_cases hx : x.1 = l
        · simpa [replaceEntry, hx, (tempLocation_ne_self l).symm] using ih
        · simpa [replaceEntry, htemp, hx] using ih
  unfold set
  rw [if_pos hkept]
  simp only [erase, hentries]

/-- Two files of which neither is the temporary file of the other can be replaced in either
order. -/
theorem replaced_comm {c d : ByteArray} {s r : String} (hl : t.get? l = some (.file c))
    (hm : t.get? m = some (.file d)) (hlm : l ≠ m) (hlt : l ≠ tempLocation m)
    (hmt : m ≠ tempLocation l) :
    (((t.erase (tempLocation l)).set l (textFile s)).erase (tempLocation m)).set m (textFile r) =
      (((t.erase (tempLocation m)).set m (textFile r)).erase (tempLocation l)).set l
        (textFile s) := by
  have hl₀ : l ≠ [] := ne_nil_of_file hl
  have hm₀ : m ≠ [] := ne_nil_of_file hm
  -- Each of the two files is still there after the other was replaced.
  have hm₁ : (((t.erase (tempLocation l)).set l (textFile s)).get? m).isSome := by
    simp [get?_replaced hl₀, hlm.symm, hmt, hm]
  have hl₁ : (((t.erase (tempLocation m)).set m (textFile r)).get? l).isSome := by
    simp [get?_replaced hm₀, hlm, hlt, hl]
  rw [replaced_eq hm₀ hm₁, replaced_eq hl₀ hl₁, replaced_eq hl₀ (by simp [hl]),
    replaced_eq hm₀ (by simp [hm])]
  simp only [List.filterMap_filterMap]
  -- An entry is one of the two files, one of the two temporary files, or another one.
  congr 2
  funext x
  by_cases hxl : x.1 = l
  · simp [replaceEntry, hxl, hlm, hlt, (tempLocation_ne_self l).symm]
  · by_cases hxm : x.1 = m
    · simp [replaceEntry, hxm, hlm.symm, hmt, (tempLocation_ne_self m).symm]
    · have hl₂ : replaceEntry l (textFile s) x = if x.1 = tempLocation l then none else some x := by
        simp only [replaceEntry, if_neg hxl]
      have hm₂ : replaceEntry m (textFile r) x = if x.1 = tempLocation m then none else some x := by
        simp only [replaceEntry, if_neg hxm]
      rw [hl₂, hm₂]
      split <;> split <;> simp_all

end PlaybookTidy.Tree
