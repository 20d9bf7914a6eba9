import PlaybookTidy.Proofs.Tree.Shrink

/-!
What replacing a file does to the tree: the file has the new content, a file that had the name of
the temporary one is gone, and nothing else differs.
-/

namespace PlaybookTidy.Tree

open PlaybookTidy.Path (isVoid dot dotDot)

variable {t t' : Tree} {l : Location} {p : Path} {content operation : String}

def tempLocation (l : Location) : Location := l.dropLast ++ [tempName (l.getLastD [])]

theorem tempLocation_concat (l : Location) (n : Name) :
    tempLocation (l ++ [n]) = l ++ [tempName n] := by
  simp [tempLocation]

theorem tempLocation_ne_nil (l : Location) : tempLocation l ≠ [] := by simp [tempLocation]

theorem tempLocation_ne_self (l : Location) : tempLocation l ≠ l := by
  rcases List.eq_nil_or_concat l with rfl | ⟨front, n, rfl⟩
  · exact tempLocation_ne_nil []
  · rw [List.concat_eq_append, tempLocation_concat]
    intro h
    have hn : tempName n = n := by simpa using h
    -- The temporary name is longer.
    have hlen := congrArg List.length hn
    simp [tempName] at hlen
    omega

theorem isVoid_tempName (n : Name) : isVoid (tempName n) = false := by
  simp [isVoid, tempName, dot]

theorem tempName_ne_dotDot (n : Name) : tempName n ≠ dotDot := by
  intro h
  have hlen := congrArg List.length h
  simp [tempName, dotDot] at hlen

theorem slash_not_mem_tempName {n : Name} (hn : '/' ∉ n) : '/' ∉ tempName n := by
  simp [tempName, hn]

/-- The directory in which a name is looked up is where the other steps of the path lead. -/
theorem resolveParent_eq_ok_iff {x : Location} {front : List Name} {n : Name} :
    t.resolveParent p (front ++ [n]) = .ok x ↔
      checkPath p = .ok () ∧
        t.walk (t.start p) ((front.filter fun m => !isVoid m) ++ [[]]) = .ok x := by
  unfold resolveParent
  rw [List.dropLast_concat, walk_filter]
  cases checkPath p <;> simp [bind, Except.bind]

/-- A last piece that names something is looked up in the directory where the others lead. -/
theorem location_of_resolveParent {x : Location} {front : List Name} {n : Name}
    (hv : isVoid n = false) (hn : n ≠ dotDot)
    (h : t.resolveParent p (front ++ [n]) = .ok x) :
    x ++ [n] = (front ++ [n]).foldl follow (t.start p) := by
  have hx := walk_eq_foldl (resolveParent_eq_ok_iff.1 h).2
  rw [List.foldl_concat, follow_name hv hn]
  rw [List.foldl_concat, foldl_follow_filter] at hx
  rw [hx]
  simp [follow]

theorem exists_splitOn_eq_concat (p : Path) :
    ∃ front n, Text.splitOn '/' p.text = front ++ [n] :=
  ⟨_, _, (List.dropLast_concat_getLast (Text.splitOn_ne_nil '/' p.text)).symm⟩

theorem create_eq_ok_iff {q : Path} {front : List Name} {n : Name}
    (hq : Text.splitOn '/' q.text = front ++ [n]) :
    t.create q content = .ok (l, t') ↔
      ∃ x, t.resolveParent q (front ++ [n]) = .ok x ∧ Text.byteLength n ≤ maxNameLength ∧
        t.get? (x ++ [n]) ≠ some .directory ∧ l = x ++ [n] ∧
        t' = t.set (x ++ [n]) (textFile content) := by
  unfold create
  rw [hq]
  cases hp : t.resolveParent q (front ++ [n]) with
  | error e => simp [hp, bind, Except.bind]
  | ok x =>
    simp only [hp, bind, Except.bind, List.getLastD_concat, Except.ok.injEq, exists_eq_left']
    by_cases hlen : Text.byteLength n ≤ maxNameLength
    · rw [if_neg (Nat.not_lt.2 hlen)]
      by_cases hdir : t.get? (x ++ [n]) = some .directory
      · simp [hdir]
      · rw [if_neg hdir]
        simp [hlen, hdir, eq_comm]
    · simp [hlen, Nat.not_le.1 hlen]

/-- Only a path that ends with a name says what to rename to. -/
theorem named_of_rename (h : t.rename l p = .ok t') : ∃ front n,
    Text.splitOn '/' p.text = front ++ [n] ∧ isVoid n = false ∧ n ≠ dotDot := by
  obtain ⟨front, n, hcut⟩ := exists_splitOn_eq_concat p
  unfold rename at h
  cases hp : t.resolveParent p (Text.dropEndWhile (· = []) (Text.splitOn '/' p.text)) with
  | error e => simp [hp, bind, Except.bind] at h
  | ok x =>
    simp only [hp, bind, Except.bind] at h
    split at h
    · simp at h
    · rename_i hlast
      split at h
      · simp at h
      · rename_i hnamed
        -- The path was accepted, so it does not end with a slash and its last piece is a name.
        have hkept : Text.dropEndWhile (· = []) (Text.splitOn '/' p.text) = front ++ [n] := by
          rw [← hcut]
          exact (not_not.1 hnamed).symm
        have hnil := Text.last_of_dropEndWhile hkept
        rw [hkept] at hlast
        simp only [List.getLastD_concat, Bool.or_eq_true, decide_eq_true_eq, not_or] at hlast
        refine ⟨front, n, hcut, ?_, hlast.2⟩
        rw [decide_eq_false_iff_not] at hnil
        simp only [isVoid, Bool.or_eq_false_iff, decide_eq_false_iff_not]
        exact ⟨hnil, hlast.1⟩

/-- Renaming to a path that ends with a name depends on what has the name and what is renamed. -/
theorem rename_eq {front : List Name} {n : Name} (hcut : Text.splitOn '/' p.text = front ++ [n])
    (hv : isVoid n = false) (hn : n ≠ dotDot) :
    t.rename l p = (t.resolveParent p (front ++ [n])).bind fun x =>
      match t.get? (x ++ [n]), t.get? l with
      | some .directory, _ => .error .isDirectory
      | _, some e => .ok ((t.erase l).set (x ++ [n]) e)
      | _, none => .error .notFound := by
  have hname : n ≠ [] ∧ n ≠ dot := by simpa [isVoid] using hv
  have hkept : Text.dropEndWhile (· = []) (front ++ [n]) = front ++ [n] :=
    Text.dropEndWhile_of_last (by simpa using hname.1)
  have hlast : ¬ (decide (n = dot) || decide (n = dotDot)) = true := by simp [hname.2, hn]
  unfold rename
  simp only [hcut, hkept, List.getLastD_concat, if_neg hlast, ne_eq, not_true, if_false]
  rfl

/-- What is at `l` gets the name at the end of a path if the path does end with a name, in a
directory and not of one. -/
theorem rename_eq_ok_iff :
    t.rename l p = .ok t' ↔
      ∃ front n x e, Text.splitOn '/' p.text = front ++ [n] ∧ isVoid n = false ∧ n ≠ dotDot ∧
        t.resolveParent p (front ++ [n]) = .ok x ∧ t.get? (x ++ [n]) ≠ some .directory ∧
        t.get? l = some e ∧ t' = (t.erase l).set (x ++ [n]) e := by
  constructor
  · intro h
    obtain ⟨front, n, hcut, hv, hn⟩ := named_of_rename h
    rw [rename_eq hcut hv hn] at h
    cases hp : t.resolveParent p (front ++ [n]) with
    | error e => simp [hp, Except.bind] at h
    | ok x =>
      simp only [hp, Except.bind] at h
      split at h
      · simp at h
      · rename_i e he hdir
        exact ⟨front, n, x, e, hcut, hv, hn, hp, hdir, he, by simpa using h.symm⟩
      · simp at h
  · rintro ⟨front, n, x, e, hcut, hv, hn, hp, hdir, he, rfl⟩
    rw [rename_eq hcut hv hn, hp, Except.bind, he]
    cases htarget : t.get? (x ++ [n]) with
    | none => rfl
    | some target =>
      cases target with
      | file c => rfl
      | directory => exact absurd htarget hdir

theorem create_ok {q : Path} {front : List Name} {n : Name} (hv : isVoid n = false)
    (hn : n ≠ dotDot) (hq : Text.splitOn '/' q.text = front ++ [n])
    (h : t.create q content = .ok (l, t')) :
    l = q.steps.foldl follow (t.start q) ∧ t.get? l ≠ some .directory ∧
      t' = t.set l (textFile content) := by
  obtain ⟨x, hp, -, hdir, rfl, rfl⟩ := (create_eq_ok_iff hq).1 h
  refine ⟨?_, hdir, rfl⟩
  rw [Path.steps, foldl_follow_filter, hq]
  exact location_of_resolveParent hv hn hp

theorem rename_ok (h : t.rename l p = .ok t') :
    ∃ e, t.get? l = some e ∧
      t' = (t.erase l).set (p.steps.foldl follow (t.start p)) e := by
  obtain ⟨front, n, x, e, hcut, hv, hn, hp, -, he, rfl⟩ := rename_eq_ok_iff.1 h
  refine ⟨e, he, ?_⟩
  rw [Path.steps, foldl_follow_filter, hcut, ← location_of_resolveParent hv hn hp]

@[simp] theorem workingDirectory_set (t : Tree) (l : Location) (e : Entry) :
    (t.set l e).workingDirectory = t.workingDirectory := by
  unfold set
  split <;> rfl

/-- Erasing takes away what was put there before. -/
theorem erase_set (l : Location) (e : Entry) : (t.set l e).erase l = t.erase l := by
  have hmap : ∀ es : List (Location × Entry),
      (es.map fun x => if x.1 = l then (l, e) else x).filter (fun x => x.1 ≠ l) =
        es.filter fun x => x.1 ≠ l := by
    intro es
    induction es with
    | nil => rfl
    | cons x es ih => by_cases hx : x.1 = l <;> simp [hx] at ih ⊢ <;> exact ih
  unfold set erase
  split
  · simp only [hmap]
  · simp

/-- The path beside a file that has the name of its temporary file. -/
theorem splitOn_beside {dir : Path} {n : Name} (hsplit : p.splitName? = some (dir, n)) :
    t.start (dir.join ⟨tempName n⟩) = t.start p ∧
      ∃ front, Text.splitOn '/' (dir.join ⟨tempName n⟩).text = front ++ [tempName n] ∧
        front.filter (fun m => !isVoid m) = dir.steps := by
  obtain ⟨-, -, hslash, -, habs⟩ := Path.splitName?_eq_some hsplit
  have hrel : (Path.mk (tempName n)).isAbsolute = false := rfl
  obtain ⟨front, hcut, hfront⟩ := Path.splitOn_join (p := dir) hrel
  have htemp : Text.splitOn '/' (tempName n) = [tempName n] :=
    Text.splitOn_of_not_mem (slash_not_mem_tempName hslash)
  refine ⟨?_, front, htemp ▸ hcut, hfront⟩
  simp only [start, Path.isAbsolute_join hrel, habs]

/-- Where that path leads. -/
theorem tempLocation_eq {dir : Path} {n : Name} (hsplit : p.splitName? = some (dir, n))
    (hl : l = p.steps.foldl follow (t.start p)) :
    (dir.join ⟨tempName n⟩).steps.foldl follow (t.start (dir.join ⟨tempName n⟩)) =
        tempLocation l ∧
      ∃ front, Text.splitOn '/' (dir.join ⟨tempName n⟩).text = front ++ [tempName n] := by
  obtain ⟨hv, hn, -, hsteps, -⟩ := Path.splitName?_eq_some hsplit
  obtain ⟨hstart, front, hcut, hfront⟩ := splitOn_beside (t := t) hsplit
  have hparent : l = dir.steps.foldl follow (t.start p) ++ [n] := by
    rw [hl, hsteps, List.foldl_concat, follow_name hv hn]
  refine ⟨?_, front, hcut⟩
  rw [hstart, Path.steps, hcut, foldl_follow_filter, List.foldl_concat,
    follow_name (isVoid_tempName n) (tempName_ne_dotDot n), ← foldl_follow_filter, hfront, hparent,
    tempLocation_concat]

theorem erase_of_none (hl : l ≠ []) (h : t.get? l = none) : t.erase l = t := by
  have hkeep : ∀ x ∈ t.entries, decide (x.1 ≠ l) = true := by
    intro x hx
    rw [decide_eq_true_iff]
    rintro rfl
    have hsome : (t.get? x.1).isSome := isSome_get?_iff.2 (Or.inr (List.mem_map_of_mem hx))
    simp [h] at hsome
  simp only [erase, List.filter_eq_self.2 hkeep]

/-- A failure to replace a file names the operation that failed. -/
theorem cause_of_writeAtomic {e : Failure}
    (h : t.writeAtomic p content operation = (.error e, t')) :
    ∃ error stage, e.cause = .io error (some (operation ++ stage)) := by
  unfold writeAtomic at h
  split at h
  · obtain ⟨rfl, -⟩ := by simpa using h
    exact ⟨"Invalid path: " ++ toString p, "", by simp⟩
  · split at h
    · obtain ⟨rfl, -⟩ := by simpa using h
      exact ⟨_, _, rfl⟩
    · split at h
      · obtain ⟨rfl, -⟩ := by simpa using h
        exact ⟨_, _, rfl⟩
      · simp at h

/-- If a file was not replaced, all is as before, provided that nothing was where the temporary one
was put. -/
theorem tree_of_writeAtomic_error {e : Failure}
    (hfree : ∀ dir n l t₁, p.splitName? = some (dir, n) →
      t.create (dir.join ⟨tempName n⟩) content = .ok (l, t₁) → t.get? l = none)
    (h : t.writeAtomic p content operation = (.error e, t')) : t' = t := by
  unfold writeAtomic at h
  cases hsplit : p.splitName? with
  | none =>
    simp only [hsplit, Prod.mk.injEq] at h
    exact h.2.symm
  | some r =>
    obtain ⟨dir, n⟩ := r
    simp only [hsplit] at h
    cases hcreate : t.create (dir.join ⟨tempName n⟩) content with
    | error e =>
      simp only [hcreate, Prod.mk.injEq] at h
      exact h.2.symm
    | ok r =>
      obtain ⟨l₁, t₁⟩ := r
      have hnone := hfree dir n l₁ t₁ hsplit hcreate
      obtain ⟨-, front, hcut⟩ := tempLocation_eq (t := t) hsplit rfl
      obtain ⟨-, -, rfl⟩ := create_ok (isVoid_tempName n) (tempName_ne_dotDot n) hcut hcreate
      have hl₁ : l₁ ≠ [] := by
        rintro rfl
        simp at hnone
      -- The file that was created is taken away again.
      have herase : (t.set l₁ (textFile content)).erase l₁ = t := by
        rw [erase_set, erase_of_none hl₁ hnone]
      simp only [hcreate] at h
      cases hrename : (t.set l₁ (textFile content)).rename l₁ p with
      | error e =>
        simp only [hrename, Prod.mk.injEq] at h
        rw [← h.2, herase]
      | ok t₂ => simp [hrename] at h

/-- A failure to replace a file leaves the tree as it was, unless a file had the name of the
temporary one. -/
theorem writeAtomic_error {e : Failure} (hl : l = p.steps.foldl follow (t.start p))
    (htemp : ∀ c, t.get? (tempLocation l) ≠ some (.file c))
    (h : t.writeAtomic p content operation = (.error e, t')) : t' = t := by
  refine tree_of_writeAtomic_error ?_ h
  intro dir n l₁ t₁ hsplit hcreate
  obtain ⟨hbeside, front, hcut⟩ := tempLocation_eq hsplit hl
  obtain ⟨hl₁, hdir, -⟩ := create_ok (isVoid_tempName n) (tempName_ne_dotDot n) hcut hcreate
  obtain rfl : l₁ = tempLocation l := hl₁.trans hbeside
  cases he : t.get? (tempLocation l) with
  | none => rfl
  | some e =>
    cases e with
    | file c => exact absurd he (htemp c)
    | directory => exact absurd he hdir

theorem ne_nil_of_file {c : ByteArray} (h : t.get? l = some (.file c)) : l ≠ [] := by
  rintro rfl
  simp at h

/-- After a file was replaced, the temporary file is gone and the file has its new content. -/
theorem writeAtomic_ok (hl : l = p.steps.foldl follow (t.start p))
    (h : t.writeAtomic p content operation = (.ok (), t')) :
    t.get? (tempLocation l) ≠ some .directory ∧
      t' = (t.erase (tempLocation l)).set l (textFile content) := by
  unfold writeAtomic at h
  cases hsplit : p.splitName? with
  | none => simp [hsplit] at h
  | some r =>
    obtain ⟨dir, n⟩ := r
    obtain ⟨hbeside, front, hcut⟩ := tempLocation_eq hsplit hl
    simp only [hsplit] at h
    cases hcreate : t.create (dir.join ⟨tempName n⟩) content with
    | error e => simp [hcreate] at h
    | ok r =>
      obtain ⟨l₁, t₁⟩ := r
      obtain ⟨hl₁, hdir, rfl⟩ := create_ok (isVoid_tempName n) (tempName_ne_dotDot n) hcut hcreate
      simp only [hcreate] at h
      obtain rfl : l₁ = tempLocation l := hl₁.trans hbeside
      -- The file that was created is the one that is moved, so its content ends up at `l`.
      cases hrename : (t.set (tempLocation l) (textFile content)).rename (tempLocation l) p with
      | error e => simp [hrename] at h
      | ok t₂ =>
        obtain ⟨e, he, rfl⟩ := rename_ok hrename
        rw [get?_set (tempLocation_ne_nil l), if_pos rfl] at he
        simp only [hrename, Prod.mk.injEq, true_and] at h
        obtain rfl : textFile content = e := by simpa using he
        have hstart : (t.set (tempLocation l) (textFile content)).start p = t.start p := by
          simp only [start, workingDirectory_set]
        refine ⟨hdir, ?_⟩
        rw [← h, erase_set, hstart, ← hl]

/-- After a file was replaced, the new one is in its place and none beside it. -/
theorem get?_replaced {x : Location} {e : Entry} (hl : l ≠ []) :
    ((t.erase (tempLocation l)).set l e).get? x =
      if x = l then some e else if x = tempLocation l then none else t.get? x := by
  rw [get?_set hl, get?_erase (tempLocation_ne_nil l)]

/-- A place afterwards is that of the file, that of its temporary file, or as it was. -/
theorem replaced_cases {e : Entry} (hl : l ≠ []) (x : Location) :
    (x = l ∧ ((t.erase (tempLocation l)).set l e).get? x = some e) ∨
    (x = tempLocation l ∧ ((t.erase (tempLocation l)).set l e).get? x = none) ∨
    (x ≠ l ∧ ((t.erase (tempLocation l)).set l e).get? x = t.get? x) := by
  rw [get?_replaced hl]
  by_cases hxl : x = l
  · exact Or.inl ⟨hxl, if_pos hxl⟩
  · rw [if_neg hxl]
    by_cases htemp : x = tempLocation l
    · exact Or.inr (Or.inl ⟨htemp, if_pos htemp⟩)
    · exact Or.inr (Or.inr ⟨hxl, if_neg htemp⟩)

theorem locations_set {e : Entry} (hl : l ∈ t.entries.map Prod.fst) :
    (t.set l e).entries.map Prod.fst ⊆ t.entries.map Prod.fst := by
  intro x hx
  obtain ⟨y, hy, rfl⟩ := List.mem_map.1 hx
  unfold set at hy
  split at hy
  · obtain ⟨z, hz, rfl⟩ := List.mem_map.1 hy
    split
    · exact hl
    · exact List.mem_map_of_mem hz
  · rcases List.mem_append.1 hy with hy | hy
    · exact List.mem_map_of_mem hy
    · obtain rfl : y = (l, e) := by simpa using hy
      exact hl

theorem locations_erase (l : Location) :
    (t.erase l).entries.map Prod.fst ⊆ t.entries.map Prod.fst :=
  (List.filter_sublist.map Prod.fst).subset

/-- Replacing a file takes away at most the file at the temporary location. -/
theorem shrinks_replaced {c : ByteArray} (hfile : t.get? l = some (.file c))
    (hdir : t.get? (tempLocation l) ≠ some .directory) (s : String) :
    Shrinks t ((t.erase (tempLocation l)).set l (textFile s)) := by
  have hl : l ≠ [] := ne_nil_of_file hfile
  have hkept : ((t.erase (tempLocation l)).get? l).isSome := by
    rw [get?_erase (tempLocation_ne_nil l), if_neg (tempLocation_ne_self l).symm, hfile]
    rfl
  refine ⟨by simp [erase], ?_, ?_⟩
  · intro x
    -- Neither of the two locations that differ holds a directory.
    rw [get?_replaced hl]
    split
    · rename_i hx
      simp [hx, hfile, textFile]
    · split
      · rename_i hx
        simp [hx, hdir]
      · exact Iff.rfl
  · have hmem := (isSome_get?_iff.1 hkept).resolve_left hl
    exact List.Subset.trans (locations_set hmem) (locations_erase _)

end PlaybookTidy.Tree
