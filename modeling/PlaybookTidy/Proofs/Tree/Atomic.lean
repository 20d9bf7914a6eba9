import Mathlib
import PlaybookTidy.Proofs.Tree.Local
import PlaybookTidy.Proofs.Tree.Writable

/-!
Replacing a file is all or nothing. Whether it succeeds is known from the tree and the path; if so,
the path reads back as the new content and no other location changed. In every other case nothing
changed at all.
-/

namespace PlaybookTidy.Tree

open PlaybookTidy.Path (isVoid dotDot)

variable {t t' : Tree} {l x : Location} {p dir : Path} {n : Name} {content operation : String}

def NothingBeside (t : Tree) (p : Path) : Prop :=
  ∀ dir n, p.splitName? = some (dir, n) → t.contains (dir.join ⟨tempName n⟩) = false

theorem nothingBeside_iff (hsplit : p.splitName? = some (dir, n)) :
    t.NothingBeside p ↔ t.contains (dir.join ⟨tempName n⟩) = false := by
  simp [NothingBeside, hsplit]

/-- A file `n` can be put, or replaced, in the directory at `x`: the path ends with its name, its
new content can be written beside it, and no directory has the name. -/
structure Room (t : Tree) (p dir : Path) (n : Name) (x : Location) : Prop where
  split : p.splitName? = some (dir, n)
  last : (Text.splitOn '/' p.text).getLast? = some n
  path : checkPath p = .ok ()
  beside : checkPath (dir.join ⟨tempName n⟩) = .ok ()
  length : Text.byteLength (tempName n) ≤ maxNameLength
  directory : t.walk (t.start p) (dir.steps ++ [[]]) = .ok x
  target : t.get? (x ++ [n]) ≠ some .directory

theorem sameDirectories_set (hl : l ≠ []) (hdir : t.get? l ≠ some .directory) (s : String) :
    SameDirectories t (t.set l (textFile s)) := by
  refine ⟨workingDirectory_set t l _, ?_⟩
  intro x
  rw [get?_set hl]
  by_cases hx : x = l
  · simp [hx, hdir, textFile]
  · rw [if_neg hx]

/-- The temporary file can be created if the directory is there, its name is not too long, and no
directory has it. -/
theorem create_beside_iff (hsplit : p.splitName? = some (dir, n)) :
    t.create (dir.join ⟨tempName n⟩) content = .ok (l, t') ↔
      ∃ x, checkPath (dir.join ⟨tempName n⟩) = .ok () ∧
        t.walk (t.start p) (dir.steps ++ [[]]) = .ok x ∧
        Text.byteLength (tempName n) ≤ maxNameLength ∧
        t.get? (x ++ [tempName n]) ≠ some .directory ∧ l = x ++ [tempName n] ∧
        t' = t.set (x ++ [tempName n]) (textFile content) := by
  obtain ⟨hstart, front, hcut, hfront⟩ := splitOn_beside (t := t) hsplit
  rw [create_eq_ok_iff hcut]
  simp only [resolveParent_eq_ok_iff, hfront, hstart, and_assoc]

/-- When a file can take the name of a path, and what the tree is then. -/
theorem rename_split_iff (hsplit : p.splitName? = some (dir, n)) :
    t.rename l p = .ok t' ↔
      ∃ x e, (Text.splitOn '/' p.text).getLast? = some n ∧ checkPath p = .ok () ∧
        t.walk (t.start p) (dir.steps ++ [[]]) = .ok x ∧ t.get? (x ++ [n]) ≠ some .directory ∧
        t.get? l = some e ∧ t' = (t.erase l).set (x ++ [n]) e := by
  obtain ⟨hv, hn, -, hsteps, -⟩ := Path.splitName?_eq_some hsplit
  -- A last piece that is a name is the last step.
  have hsteps_of : ∀ front m, Text.splitOn '/' p.text = front ++ [m] → isVoid m = false →
      front.filter (fun k => !isVoid k) = dir.steps ∧ m = n := by
    intro front m hcut hm
    rw [Path.steps, hcut] at hsteps
    simpa [hm] using hsteps
  rw [rename_eq_ok_iff]
  constructor
  · rintro ⟨front, m, x, e, hcut, hm, -, hp, hdir, he, rfl⟩
    obtain ⟨hfront, rfl⟩ := hsteps_of front m hcut hm
    rw [resolveParent_eq_ok_iff, hfront] at hp
    exact ⟨x, e, by simp [hcut], hp.1, hp.2, hdir, he, rfl⟩
  · rintro ⟨x, e, hlast, hcheck, hwalk, hdir, he, rfl⟩
    obtain ⟨front, hcut⟩ := List.getLast?_eq_some_iff.1 hlast
    refine ⟨front, n, x, e, hcut, hv, hn, ?_, hdir, he, rfl⟩
    rw [resolveParent_eq_ok_iff, (hsteps_of front n hcut hv).1]
    exact ⟨hcheck, hwalk⟩

/-- Whatever has a name in a directory is found by the path of that name. -/
theorem resolve_of_split {q : Path} {front : List Name} (hq : Text.splitOn '/' q.text = front ++ [n])
    (hv : isVoid n = false) (hn : n ≠ dotDot) (hcheck : checkPath q = .ok ())
    (hwalk : t.walk (t.start q) ((front.filter fun m => !isVoid m) ++ [[]]) = .ok x)
    (hlen : Text.byteLength n ≤ maxNameLength) (hsome : (t.get? (x ++ [n])).isSome) :
    t.resolve q = .ok (x ++ [n]) := by
  obtain ⟨hfront, hdir⟩ := walk_concat_nil.1 (walk_filter.1 hwalk)
  rw [resolve_eq_ok_iff, hq, walk_append_of hfront, walk_cons_of hdir fun _ _ => ⟨hlen, hsome⟩,
    follow_name hv hn]
  exact ⟨hcheck, rfl⟩

/-- Where nothing is beside the file, nothing has the name of its temporary one. -/
theorem get?_beside (hfree : t.NothingBeside p) (hsplit : p.splitName? = some (dir, n))
    (hcheck : checkPath (dir.join ⟨tempName n⟩) = .ok ())
    (hlen : Text.byteLength (tempName n) ≤ maxNameLength)
    (hwalk : t.walk (t.start p) (dir.steps ++ [[]]) = .ok x) :
    t.get? (x ++ [tempName n]) = none := by
  obtain ⟨hstart, front, hcut, hfront⟩ := splitOn_beside (t := t) hsplit
  by_contra hsome
  have hresolve : t.resolve (dir.join ⟨tempName n⟩) = .ok (x ++ [tempName n]) := by
    apply resolve_of_split hcut (isVoid_tempName n) (tempName_ne_dotDot n) hcheck ?_ hlen
      (Option.isSome_iff_ne_none.2 hsome)
    rw [hstart, hfront]
    exact hwalk
  have hcontains := hfree dir n hsplit
  rw [contains, entry_of_resolve hresolve] at hcontains
  exact hsome (by simpa using hcontains)

/-- Replacing a file is creating another one beside it that then takes its name. -/
theorem writeAtomic_eq_ok_iff_rename :
    t.writeAtomic p content operation = (.ok (), t') ↔
      ∃ dir n l t₁, p.splitName? = some (dir, n) ∧
        t.create (dir.join ⟨tempName n⟩) content = .ok (l, t₁) ∧ t₁.rename l p = .ok t' := by
  unfold writeAtomic
  cases p.splitName? with
  | none => simp
  | some r =>
    obtain ⟨dir, n⟩ := r
    cases hcreate : t.create (dir.join ⟨tempName n⟩) content with
    | error e => simp [hcreate]
    | ok r =>
      obtain ⟨l, t₁⟩ := r
      cases hrename : t₁.rename l p with
      | error e => simp [hcreate, hrename]
      | ok t₂ => simp [hcreate, hrename]

/-- What is written beside the file and then renamed is the file that was asked for. -/
theorem rename_created (hsplit : p.splitName? = some (dir, n))
    (hnone : t.get? (x ++ [tempName n]) = none)
    (hwalk : t.walk (t.start p) (dir.steps ++ [[]]) = .ok x) :
    (t.set (x ++ [tempName n]) (textFile content)).rename (x ++ [tempName n]) p = .ok t' ↔
      (Text.splitOn '/' p.text).getLast? = some n ∧ checkPath p = .ok () ∧
        t.get? (x ++ [n]) ≠ some .directory ∧ t' = t.set (x ++ [n]) (textFile content) := by
  have hne : x ++ [tempName n] ≠ [] := by simp
  have hsame : SameDirectories t (t.set (x ++ [tempName n]) (textFile content)) :=
    sameDirectories_set hne (by simp [hnone]) content
  -- Without the temporary file the tree is the one in which it was created.
  have hback : (t.set (x ++ [tempName n]) (textFile content)).erase (x ++ [tempName n]) = t := by
    rw [erase_set, erase_of_none hne hnone]
  have hwalk' := hsame.walk hwalk
  have hget : (t.set (x ++ [tempName n]) (textFile content)).get? (x ++ [tempName n]) =
      some (textFile content) := by
    rw [get?_set hne, if_pos rfl]
  simp only [rename_split_iff hsplit, hsame.start, hwalk', hget, hback, Except.ok.injEq,
    Option.some.injEq, ne_eq, hsame.directory]
  constructor
  · rintro ⟨y, e, hlast, hcheck, rfl, hdir, rfl, rfl⟩
    exact ⟨hlast, hcheck, hdir, rfl⟩
  · rintro ⟨hlast, hcheck, hdir, rfl⟩
    exact ⟨x, _, hlast, hcheck, rfl, hdir, rfl, rfl⟩

/-- With nothing beside it, a file is replaced exactly where there is room for it, and nothing else
is done to the tree. -/
theorem writeAtomic_eq_ok_iff (hfree : t.NothingBeside p) :
    t.writeAtomic p content operation = (.ok (), t') ↔
      ∃ dir n x, t.Room p dir n x ∧ t' = t.set (x ++ [n]) (textFile content) := by
  rw [writeAtomic_eq_ok_iff_rename]
  constructor
  · rintro ⟨dir, n, l, t₁, hsplit, hcreate, hrename⟩
    obtain ⟨x, hbeside, hwalk, hlen, -, rfl, rfl⟩ := (create_beside_iff hsplit).1 hcreate
    have hnone := get?_beside hfree hsplit hbeside hlen hwalk
    obtain ⟨hlast, hcheck, hdir, rfl⟩ := (rename_created hsplit hnone hwalk).1 hrename
    exact ⟨dir, n, x, ⟨hsplit, hlast, hcheck, hbeside, hlen, hwalk, hdir⟩, rfl⟩
  · rintro ⟨dir, n, x, h, rfl⟩
    have hnone := get?_beside hfree h.split h.beside h.length h.directory
    refine ⟨dir, n, x ++ [tempName n], _, h.split, ?_,
      (rename_created h.split hnone h.directory).2 ⟨h.last, h.path, h.target, rfl⟩⟩
    exact (create_beside_iff h.split).2
      ⟨x, h.beside, h.directory, h.length, by simp [hnone], rfl, rfl⟩

theorem byteLength_tempName (n : Name) :
    Text.byteLength n ≤ Text.byteLength (tempName n) := by
  have hname : tempName n = ['.'] ++ n ++ ".tmp".toList := rfl
  rw [hname, Text.byteLength_append, Text.byteLength_append]
  omega

/-- The path of a file for which there is room leads to it once it is there. -/
theorem Room.resolve (h : t.Room p dir n x) (s : String) :
    (t.set (x ++ [n]) (textFile s)).resolve p = .ok (x ++ [n]) := by
  obtain ⟨hv, hn, -, hsteps, -⟩ := Path.splitName?_eq_some h.split
  obtain ⟨front, hcut⟩ := List.getLast?_eq_some_iff.1 h.last
  have hfront : front.filter (fun m => !isVoid m) = dir.steps := by
    rw [Path.steps, hcut] at hsteps
    simpa [hv] using hsteps
  have hne : x ++ [n] ≠ [] := by simp
  have hsame := sameDirectories_set hne h.target s
  apply resolve_of_split hcut hv hn h.path
  · rw [hfront, hsame.start]
    exact hsame.walk h.directory
  · exact (byteLength_tempName n).trans h.length
  · simp [get?_set hne]

/-- Replacing a file is all or nothing. With nothing beside it, it succeeds exactly where there is
room for the file. Then the file reads back as the new content, and it alone differs; after a
failure the tree is as it was. -/
theorem writeAtomic_all_or_nothing (hfree : t.NothingBeside p) (content operation : String) :
    ((t.writeAtomic p content operation).1 = .ok () ↔ ∃ dir n x, t.Room p dir n x) ∧
      (∀ t', t.writeAtomic p content operation = (.ok (), t') →
        (∀ reading, t'.read p reading = .ok content) ∧
          t'.workingDirectory = t.workingDirectory ∧
          ∃ l, t'.resolve p = .ok l ∧ ∀ x, x ≠ l → t'.get? x = t.get? x) ∧
      ∀ e t', t.writeAtomic p content operation = (.error e, t') → t' = t := by
  refine ⟨?_, ?_, ?_⟩
  · constructor
    · intro h
      obtain ⟨dir, n, x, hroom, -⟩ := (writeAtomic_eq_ok_iff hfree).1 (Prod.ext h rfl)
      exact ⟨dir, n, x, hroom⟩
    · rintro ⟨dir, n, x, hroom⟩
      rw [(writeAtomic_eq_ok_iff hfree).2 ⟨dir, n, x, hroom, rfl⟩]
  · intro t' h
    obtain ⟨dir, n, x, hroom, rfl⟩ := (writeAtomic_eq_ok_iff hfree).1 h
    have hne : x ++ [n] ≠ [] := by simp
    have hresolve := hroom.resolve content
    refine ⟨?_, workingDirectory_set t _ _, x ++ [n], hresolve, ?_⟩
    · intro reading
      have hread := readText_eq_ok_iff.2 ⟨_, hresolve, (get?_set hne).trans (if_pos rfl)⟩
      rw [read, hread]
      rfl
    · intro y hy
      rw [get?_set hne, if_neg hy]
  · intro e t' h
    -- A failure takes the temporary file away again, and there was none before.
    apply tree_of_writeAtomic_error ?_ h
    intro dir n l t₁ hsplit hcreate
    obtain ⟨x, hbeside, hwalk, hlen, -, rfl, -⟩ := (create_beside_iff hsplit).1 hcreate
    exact get?_beside hfree hsplit hbeside hlen hwalk

def drawer : Tree where
  workingDirectory := []
  entries := [(["vars".toList], .directory), (["vars".toList, "a.yml".toList], textFile "k: yes\n")]

/-- With a slash after the name the file is not replaced, although its new content was written. -/
theorem writeAtomic_all_or_nothing_drawer :
    drawer.NothingBeside ⟨"vars/a.yml".toList⟩ ∧ drawer.NothingBeside ⟨"vars/a.yml/".toList⟩ ∧
      (∃ t', drawer.writeAtomic ⟨"vars/a.yml".toList⟩ "k: true\n" "write" = (.ok (), t') ∧
        t'.read ⟨"vars/a.yml".toList⟩ "read" = .ok "k: true\n" ∧
        ∃ l, t'.resolve ⟨"vars/a.yml".toList⟩ = .ok l ∧
          ∀ x, x ≠ l → t'.get? x = drawer.get? x) ∧
      ∃ e t', drawer.writeAtomic ⟨"vars/a.yml/".toList⟩ "k: true\n" "write" = (.error e, t') ∧
        t' = drawer := by
  have hbeside : drawer.contains ((Path.mk "vars".toList).join ⟨tempName "a.yml".toList⟩) = false :=
    by decide
  have hsplit : (Path.mk "vars/a.yml".toList).splitName? = some (⟨"vars".toList⟩, "a.yml".toList) :=
    by decide
  have hsplit' : (Path.mk "vars/a.yml/".toList).splitName? =
      some (⟨"vars".toList⟩, "a.yml".toList) := by decide
  have hfree : drawer.NothingBeside ⟨"vars/a.yml".toList⟩ := (nothingBeside_iff hsplit).2 hbeside
  have hfree' : drawer.NothingBeside ⟨"vars/a.yml/".toList⟩ := (nothingBeside_iff hsplit').2 hbeside
  obtain ⟨hok, hdone, -⟩ := writeAtomic_all_or_nothing hfree "k: true\n" "write"
  obtain ⟨-, -, hkept⟩ := writeAtomic_all_or_nothing hfree' "k: true\n" "write"
  have hroom : drawer.Room ⟨"vars/a.yml".toList⟩ ⟨"vars".toList⟩ "a.yml".toList ["vars".toList] :=
    ⟨hsplit, by decide, by decide, by decide, by decide, by decide, by decide⟩
  have hfirst : drawer.writeAtomic ⟨"vars/a.yml".toList⟩ "k: true\n" "write" =
      (.ok (), (drawer.writeAtomic ⟨"vars/a.yml".toList⟩ "k: true\n" "write").2) :=
    Prod.ext (hok.2 ⟨_, _, _, hroom⟩) rfl
  obtain ⟨hread, -, hframe⟩ := hdone _ hfirst
  have hsecond : drawer.writeAtomic ⟨"vars/a.yml/".toList⟩ "k: true\n" "write" =
      (.error (IoError.notDirectory.toFailure "write (rename)"),
        (drawer.writeAtomic ⟨"vars/a.yml/".toList⟩ "k: true\n" "write").2) :=
    Prod.ext (by cbv) rfl
  exact ⟨hfree, hfree', ⟨_, hfirst, hread "read", hframe⟩, _, _, hsecond, hkept _ _ hsecond⟩

end PlaybookTidy.Tree
