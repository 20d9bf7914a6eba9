import PlaybookTidy.Path

/-!
A file tree: what lies where, and the directory from which relative paths start. A tree holds files
and directories and nothing else: no symbolic links, no permissions and no devices, so everything
in it can be read and written by the one program that works on it.
-/

namespace PlaybookTidy

/-- A place in the tree, by the names on the way from the top. -/
abbrev Location := List Name

inductive Entry
  | file (content : ByteArray)
  | directory

instance : DecidableEq Entry
  | .file a, .file b =>
    match ByteArray.decEq a b with
    | isTrue h => isTrue (congrArg Entry.file h)
    | isFalse h => isFalse fun he => h (Entry.file.inj he)
  | .directory, .directory => isTrue rfl
  | .file _, .directory => isFalse Entry.noConfusion
  | .directory, .file _ => isFalse Entry.noConfusion

/-- Files and directories by location. The top is always a directory; of several entries for a
location the first one counts. -/
structure Tree where
  workingDirectory : Location
  entries : List (Location × Entry)

namespace Tree

def get? (t : Tree) (l : Location) : Option Entry :=
  if l = [] then some .directory else t.entries.lookup l

def set (t : Tree) (l : Location) (e : Entry) : Tree :=
  if (t.entries.lookup l).isSome then
    { t with entries := t.entries.map fun x => if x.1 = l then (l, e) else x }
  else { t with entries := t.entries ++ [(l, e)] }

def erase (t : Tree) (l : Location) : Tree :=
  { t with entries := t.entries.filter fun x => x.1 ≠ l }

@[simp] theorem get?_nil (t : Tree) : t.get? [] = some .directory := by simp [get?]

theorem lookup_map_set (l l' : Location) (e : Entry) (es : List (Location × Entry)) :
    (es.map fun x => if x.1 = l then (l, e) else x).lookup l' =
      if l' = l then (es.lookup l').map fun _ => e else es.lookup l' := by
  induction es with
  | nil => simp
  | cons x es ih =>
    obtain ⟨k, v⟩ := x
    rw [List.map_cons, List.lookup_cons, List.lookup_cons, ih]
    by_cases hk : k = l
    · by_cases hl : l' = l
      · simp [hk, hl]
      · simp [hk, hl, beq_eq_false_iff_ne.2 hl]
    · by_cases hl : l' = l
      · have hb : (l == k) = false := beq_eq_false_iff_ne.2 (Ne.symm hk)
        simp [hk, hl, hb]
      · simp [hk, hl]

theorem lookup_filter_ne (l l' : Location) (es : List (Location × Entry)) :
    (es.filter fun x => x.1 ≠ l).lookup l' = if l' = l then none else es.lookup l' := by
  induction es with
  | nil => simp
  | cons x es ih =>
    obtain ⟨k, v⟩ := x
    rw [List.lookup_cons]
    by_cases hk : k = l
    · rw [List.filter_cons_of_neg (by simp [hk]), ih]
      by_cases hl : l' = l
      · simp [hl]
      · have hb : (l' == k) = false := beq_eq_false_iff_ne.2 (hk ▸ hl)
        simp [hl, hb]
    · rw [List.filter_cons_of_pos (by simp [hk]), List.lookup_cons, ih]
      by_cases hl : l' = l
      · have hb : (l == k) = false := beq_eq_false_iff_ne.2 (Ne.symm hk)
        simp [hl, hb]
      · simp [hl]

/-- What is at a location after an entry was put at another one, or at that one. -/
theorem get?_set {t : Tree} {l l' : Location} {e : Entry} (hl : l ≠ []) :
    (t.set l e).get? l' = if l' = l then some e else t.get? l' := by
  unfold get? set
  by_cases h' : l' = []
  · simp [h', Ne.symm hl]
  · by_cases hs : (t.entries.lookup l).isSome
    · rw [if_neg h', if_neg h', if_pos hs, lookup_map_set]
      by_cases he : l' = l
      · subst he
        obtain ⟨v, hv⟩ := Option.isSome_iff_exists.1 hs
        simp [hv]
      · simp [he]
    · rw [if_neg h', if_neg h', if_neg hs, List.lookup_append]
      by_cases he : l' = l
      · subst he
        rw [Option.not_isSome_iff_eq_none.1 hs]
        simp
      · have hb : (l' == l) = false := by simpa using he
        simp [List.lookup_cons, he, hb]

/-- What is at a location after one was erased. -/
theorem get?_erase {t : Tree} {l l' : Location} (hl : l ≠ []) :
    (t.erase l).get? l' = if l' = l then none else t.get? l' := by
  unfold get? erase
  by_cases h' : l' = []
  · simp [h', Ne.symm hl]
  · rw [if_neg h', if_neg h', lookup_filter_ne]

def eraseAll (t : Tree) (l : Location) : Tree :=
  { t with entries := t.entries.filter fun x => !l.isPrefixOf x.1 }

/-- The names in a directory, in the order of their bytes. -/
def names (t : Tree) (l : Location) : List Name :=
  ((t.entries.filterMap fun x =>
    match x.1.getLast? with
    | some n => if x.1.dropLast = l then some n else none
    | none => none).mergeSort fun a b => (List.decidableLE a b).decide).eraseDups

def depth (t : Tree) : Nat := t.entries.foldl (fun n x => max n x.1.length) 0

/-- Adds an entry and the directories above it that are missing. -/
def place (t : Tree) (l : Location) (e : Entry) : Tree :=
  ((List.range l.length).foldl (fun t n =>
    if (t.get? (l.take n)).isSome then t else t.set (l.take n) .directory) t).set l e

/-- The locations at which a tree differs from an earlier one, with what is there now. -/
def changes (before after : Tree) : List (Location × Option Entry) :=
  (before.entries.filterMap fun x =>
    if (after.get? x.1).isNone then some (x.1, none) else none) ++
  after.entries.filterMap fun x =>
    if before.get? x.1 = some x.2 then none else some (x.1, some x.2)

def workingPath (t : Tree) : Path := Path.Lead.root.attach t.workingDirectory

end Tree

end PlaybookTidy
