import PlaybookTidy.Proofs.Glob.Search

/-!
What lies below a location, told by the names on the way, and trees in which the names on the way to
a location were replaced. The names that lead there play no part in what lies below.
-/

namespace PlaybookTidy

open PlaybookTidy.Path (IsName isVoid)

/-- What a location shows of the tree: the entries and names below it by the names on the way, and
how deep the tree is. -/
structure View where
  entry : List Name → Option Entry
  names : List Name → List Name
  depth : Nat

namespace View

variable {v : View} {ns : List Name}

def isDirectory (v : View) (ns : List Name) : Bool := v.entry ns = some .directory

def isFile (v : View) (ns : List Name) : Bool :=
  match v.entry ns with
  | some (.file _) => true
  | _ => false

theorem isFile_iff : v.isFile ns = true ↔ ∃ c, v.entry ns = some (.file c) := by
  unfold isFile
  split <;> simp_all

theorem isDirectory_iff : v.isDirectory ns = true ↔ v.entry ns = some .directory := by
  simp [isDirectory]

theorem not_isFile_of_isDirectory (h : v.isDirectory ns = true) : v.isFile ns = false := by
  simp [isFile, isDirectory_iff.1 h]

end View

namespace Tree

variable {t : Tree} {l l' x y : Location} {n : Name} {ns : List Name} {p : Path}

def entryBelow (t : Tree) : Location → List Name → Option Entry
  | l, [] => t.get? l
  | l, n :: ns =>
    if t.get? l = some .directory ∧ Text.byteLength n ≤ maxNameLength then
      t.entryBelow (l ++ [n]) ns
    else none

def view (t : Tree) (l : Location) : View where
  entry := t.entryBelow l
  names ns := t.names (l ++ ns)
  depth := t.depth

/-- Names lead to what a walk along them finds. -/
theorem entryBelow_eq_some_iff (hns : ∀ n ∈ ns, IsName n) {e : Entry} :
    t.entryBelow l ns = some e ↔ ∃ x, t.walk l ns = .ok x ∧ t.get? x = some e := by
  induction ns generalizing l with
  | nil => simp [entryBelow, walk]
  | cons n ns ih =>
    rw [List.forall_mem_cons] at hns
    have hstep : follow l n = l ++ [n] := follow_name hns.1.step hns.1.down
    rw [entryBelow]
    constructor
    · intro h
      split at h
      case isFalse => simp at h
      case isTrue hdir =>
        obtain ⟨x, hx, hget⟩ := (ih hns.2).1 h
        refine ⟨x, ?_, hget⟩
        rw [walk_cons_of hdir.1 fun _ _ => ⟨hdir.2, ?_⟩, hstep]
        · exact hx
        · -- The walk goes on from the name, or ends there at the entry.
          cases ns with
          | nil =>
            obtain rfl : l ++ [n] = x := by simpa [walk] using hx
            simp [hget]
          | cons m ms => simp [(walk_cons hx).1]
    · rintro ⟨x, hx, hget⟩
      obtain ⟨hdir, hrest, hname⟩ := walk_cons hx
      rw [if_pos ⟨hdir, (hname hns.1.step hns.1.down).1⟩, ih hns.2]
      exact ⟨x, hstep ▸ hrest, hget⟩

theorem entryBelow_directory_iff (hns : ∀ n ∈ ns, IsName n) :
    t.entryBelow l ns = some .directory ↔ ∃ x, t.walk l (ns ++ [[]]) = .ok x := by
  simp only [entryBelow_eq_some_iff hns, walk_concat_nil]

/-- A walk that ends with a name comes to it from a directory. -/
theorem walk_concat_name (hn : IsName n) : t.walk l (ns ++ [n]) = .ok x ↔
    ∃ y, t.walk l (ns ++ [[]]) = .ok y ∧ Text.byteLength n ≤ maxNameLength ∧
      (t.get? (y ++ [n])).isSome ∧ x = y ++ [n] := by
  constructor
  · intro h
    obtain ⟨hfront, hlast⟩ := walk_append h
    obtain ⟨hdir, hend, hname⟩ := walk_cons hlast
    obtain ⟨hlength, hsome⟩ := hname hn.step hn.down
    rw [follow_name hn.step hn.down] at hend
    exact ⟨_, walk_concat_nil.2 ⟨hfront, hdir⟩, hlength, hsome, (Except.ok.inj hend).symm⟩
  · rintro ⟨y, hy, hlength, hsome, rfl⟩
    obtain ⟨hfront, hdir⟩ := walk_concat_nil.1 hy
    rw [walk_append_of hfront, walk_cons_of hdir fun _ _ => ⟨hlength, hsome⟩,
      follow_name hn.step hn.down]
    rfl

/-- A path leads to a directory by its steps. -/
theorem isDirectory_iff_walk : t.isDirectory p = true ↔
    checkPath p = .ok () ∧ ∃ x, t.walk (t.start p) (p.steps ++ [[]]) = .ok x := by
  simp only [isDirectory_iff, resolve_eq_ok_iff, Path.steps, walk_filter]
  simp only [walk_concat_nil]
  constructor
  · rintro ⟨x, ⟨hcheck, hwalk⟩, hdir⟩
    exact ⟨hcheck, x, hwalk, hdir⟩
  · rintro ⟨hcheck, x, hwalk, hdir⟩
    exact ⟨x, ⟨hcheck, hwalk⟩, hdir⟩

/-- A path that ends with a name leads where its steps do. -/
theorem resolve_iff_walk (hn : IsName n) (hp : Text.splitOn '/' p.text = ns ++ [n]) :
    t.resolve p = .ok x ↔ checkPath p = .ok () ∧ t.walk (t.start p) p.steps = .ok x := by
  have hsteps : p.steps = (ns.filter fun n => !isVoid n) ++ [n] := by
    simp [Path.steps, hp, hn.step]
  rw [resolve_eq_ok_iff, hsteps, hp, walk_concat_name hn, walk_concat_name hn]
  simp only [walk_filter]

section Renamed

def replaceNames : Location → Location → Location → Location
  | o :: l, n :: l', m :: x => if m = o then n :: replaceNames l l' x else m :: x
  | _, _, x => x

def renamed (t : Tree) (l l' : Location) : Tree where
  workingDirectory := replaceNames l l' t.workingDirectory
  entries := t.entries.map fun x => (replaceNames l l' x.1, x.2)

/-- Names to which those on the way to `l` can be changed: as many, each one that a directory can
hold, and where it is another one nothing has it there already. -/
structure Renames (t : Tree) (l l' : Location) : Prop where
  length : l'.length = l.length
  names : ∀ n ∈ l', IsName n
  free : ∀ x ∈ t.entries.map Prod.fst, ∀ before o after n, l = before ++ o :: after →
    l'[before.length]? = some n → n ≠ o → ¬ before ++ [n] <+: x

/-- Names that are new to the tree are free. -/
theorem renames_of_new (hlength : l'.length = l.length) (hnames : ∀ n ∈ l', IsName n)
    (hnew : ∀ x ∈ t.entries.map Prod.fst, ∀ n ∈ l', n ∉ x) : t.Renames l l' where
  length := hlength
  names := hnames
  free x hx before o after n _ hn _ hpre :=
    hnew x hx n (List.mem_of_getElem? hn) (hpre.subset (by simp))

theorem length_replaceNames (h : l'.length = l.length) :
    (replaceNames l l' x).length = x.length := by
  induction l generalizing l' x with
  | nil => rw [replaceNames]; simp
  | cons o l ih =>
    cases l' with
    | nil => simp at h
    | cons n l' =>
      cases x with
      | nil => rfl
      | cons m x =>
        rw [replaceNames]
        split
        · rw [List.length_cons, List.length_cons, ih (by simpa using h)]
        · rfl

/-- Of the locations on whose way the new names are free, those below `l` come to lie below `l'`. -/
theorem replaceNames_eq_append_iff (hlength : l'.length = l.length)
    (hfree : ∀ before o after n, l = before ++ o :: after → l'[before.length]? = some n → n ≠ o →
      ¬ before ++ [n] <+: x) :
    replaceNames l l' x = l' ++ ns ↔ x = l ++ ns := by
  induction l generalizing l' x with
  | nil =>
    obtain rfl : l' = [] := by simpa using hlength
    simp [replaceNames]
  | cons o l ih =>
    obtain ⟨n, k, rfl⟩ := List.exists_cons_of_length_eq_add_one hlength
    cases x with
    | nil => simp [replaceNames]
    | cons m x =>
      rw [replaceNames]
      -- A name that stays is not one that replacing makes, since `x` lies below none of those.
      by_cases hm : m = o
      · rw [if_pos hm, hm, List.cons_append, List.cons_append, List.cons_inj_right,
          List.cons_inj_right]
        refine ih (by simpa using hlength) ?_
        intro before p after q hl hq hne hpre
        refine hfree (o :: before) p after q (by simp [hl]) (by simpa using hq) hne ?_
        rw [hm, List.cons_append, List.cons_prefix_cons]
        exact ⟨rfl, hpre⟩
      · have hother : m ≠ n := by
          intro hmn
          refine hfree [] o l n rfl rfl (hmn ▸ hm) ?_
          simp [hmn]
        simp [hm, hother]

theorem Renames.eq_append_iff (h : t.Renames l l') (hx : x ∈ t.entries.map Prod.fst) :
    replaceNames l l' x = l' ++ ns ↔ x = l ++ ns :=
  replaceNames_eq_append_iff h.length (h.free x hx)

/-- Renaming the directories on the way keeps what is below. -/
theorem Renames.get?_append (h : t.Renames l l') (ns : List Name) :
    (t.renamed l l').get? (l' ++ ns) = t.get? (l ++ ns) := by
  have hlookup : ∀ es : List (Location × Entry),
      (∀ x ∈ es, replaceNames l l' x.1 = l' ++ ns ↔ x.1 = l ++ ns) →
      (es.map fun x => (replaceNames l l' x.1, x.2)).lookup (l' ++ ns) = es.lookup (l ++ ns) := by
    intro es hes
    induction es with
    | nil => rfl
    | cons x es ih =>
      rw [List.forall_mem_cons] at hes
      have hsame : (l' ++ ns == replaceNames l l' x.1) = (l ++ ns == x.1) := by
        rw [Bool.eq_iff_iff, beq_iff_eq, beq_iff_eq, eq_comm, hes.1, eq_comm]
      rw [List.map_cons, List.lookup_cons, List.lookup_cons, hsame, ih hes.2]
  have htop : l' ++ ns = [] ↔ l ++ ns = [] := by
    rw [← List.length_eq_zero_iff, ← List.length_eq_zero_iff, List.length_append,
      List.length_append, h.length]
  unfold get? renamed
  simp only [htop]
  rw [hlookup t.entries fun x hx => h.eq_append_iff (List.mem_map_of_mem hx)]

def nameIn? (d x : Location) : Option Name :=
  match x.getLast? with
  | some n => if x.dropLast = d then some n else none
  | none => none

theorem nameIn?_eq_some_iff {d : Location} : nameIn? d x = some n ↔ x = d ++ [n] := by
  unfold nameIn?
  rcases List.eq_nil_or_concat x with rfl | ⟨front, m, rfl⟩
  · simp
  · simp

theorem Renames.names_append (h : t.Renames l l') (ns : List Name) :
    (t.renamed l l').names (l' ++ ns) = t.names (l ++ ns) := by
  have hname : ∀ x ∈ t.entries,
      nameIn? (l' ++ ns) (replaceNames l l' x.1) = nameIn? (l ++ ns) x.1 := by
    intro x hx
    ext n
    rw [nameIn?_eq_some_iff, nameIn?_eq_some_iff, List.append_assoc, List.append_assoc]
    exact h.eq_append_iff (List.mem_map_of_mem hx)
  have hnames : (t.renamed l l').entries.filterMap (fun x => nameIn? (l' ++ ns) x.1) =
      t.entries.filterMap fun x => nameIn? (l ++ ns) x.1 := by
    rw [renamed, List.filterMap_map]
    exact List.filterMap_congr hname
  exact congrArg (fun ns => (ns.mergeSort fun a b => (List.decidableLE a b).decide).eraseDups) hnames

theorem depth_renamed (h : l'.length = l.length) : (t.renamed l l').depth = t.depth := by
  simp only [depth, renamed, List.foldl_map, length_replaceNames h]

/-- Below the directories that are renamed, names lead to the same. -/
theorem Renames.entryBelow_append (h : t.Renames l l') (ms ns : List Name) :
    (t.renamed l l').entryBelow (l' ++ ms) ns = t.entryBelow (l ++ ms) ns := by
  induction ns generalizing ms with
  | nil => exact h.get?_append ms
  | cons n ns ih =>
    rw [entryBelow, entryBelow, h.get?_append, List.append_assoc, List.append_assoc, ih]

/-- A location shows what it showed before under other names. -/
theorem Renames.view_renamed (h : t.Renames l l') : (t.renamed l l').view l' = t.view l := by
  have hentry : (t.renamed l l').entryBelow l' = t.entryBelow l := by
    funext ns
    simpa using h.entryBelow_append [] ns
  unfold view
  rw [hentry, depth_renamed h.length]
  simp only [h.names_append]

theorem mem_replaceNames {n : Name} (h : n ∈ replaceNames l l' x) : n ∈ l' ∨ n ∈ x := by
  fun_induction replaceNames l l' x with
  | case1 o l k l' x ih =>
    rcases List.mem_cons.1 h with rfl | h
    · simp
    · exact (ih h).imp (List.mem_cons_of_mem _) (List.mem_cons_of_mem _)
  | case2 => exact Or.inr h
  | case3 => exact Or.inr h

theorem Renames.named (h : t.Renames l l') (hnamed : t.Named) : (t.renamed l l').Named := by
  intro x hx n hn
  simp only [renamed, List.map_map, List.mem_map, Function.comp_apply] at hx
  obtain ⟨y, hy, rfl⟩ := hx
  rcases mem_replaceNames hn with hn | hn
  · exact h.names n hn
  · exact hnamed y.1 (List.mem_map_of_mem hy) n hn

end Renamed

end Tree

end PlaybookTidy
