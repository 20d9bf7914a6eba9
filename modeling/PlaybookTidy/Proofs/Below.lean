import PlaybookTidy.Proofs.Relative
import PlaybookTidy.Proofs.Glob.Seek

/-!
What a discovery lists below a root, by names. The root leads through its pieces to a location, and
from there on only what lies below that location matters.
-/

namespace PlaybookTidy

theorem eraseDups_concat {α : Type} [BEq α] [LawfulBEq α] (xs : List α) (x : α) :
    (xs ++ [x]).eraseDups = if x ∈ xs then xs.eraseDups else xs.eraseDups ++ [x] := by
  rw [List.eraseDups_append]
  split <;> simp_all [List.removeAll, List.eraseDups_cons]

theorem nodup_eraseDups {α : Type} [BEq α] [LawfulBEq α] (xs : List α) :
    xs.eraseDups.Nodup := by
  induction xs using List.reverseRecOn with
  | nil => simp
  | append_singleton xs x ih =>
    rw [eraseDups_concat]
    split
    · exact ih
    · rename_i hx
      rw [List.nodup_append']
      simpa using ⟨ih, hx⟩

/-- Of an item that occurs once only its own part is taken. -/
theorem flatMap_ite_eq {α β : Type} [DecidableEq α] {xs : List α} (hxs : xs.Nodup) {x : α}
    (hx : x ∈ xs) (f : α → List β) : (xs.flatMap fun y => if y = x then f y else []) = f x := by
  obtain ⟨before, after, rfl⟩ := List.append_of_mem hx
  rw [List.nodup_middle, List.nodup_cons, List.mem_append, not_or] at hxs
  have hnone : ∀ ys : List α, x ∉ ys → (ys.flatMap fun y => if y = x then f y else []) = [] := by
    intro ys hys
    rw [List.flatMap_eq_nil_iff]
    intro y hy
    rw [if_neg]
    rintro rfl
    exact hys hy
  rw [List.flatMap_append, List.flatMap_cons, hnone before hxs.1.1, hnone after hxs.1.2, if_pos rfl]
  simp

namespace Glob

open PlaybookTidy.Path (dot dotDot)

variable {t : Tree} {p : Path} {n : Name} {ns : List Name} {ss : List Segment}

/-- An escaped name leads to the entry of that name, whether it is looked up or found among the
names of the directory. -/
theorem expand_quotedSegment {directoriesOnly : Bool} (hdir : t.isDirectory p = true)
    (hthere : n ≠ dot → n ≠ dotDot → t.contains (child p n) = true)
    (hname : n.any isSpecial = true → n ∈ t.namesAt p) :
    expand t directoriesOnly (quotedSegment n :: ss) p =
      expand t directoriesOnly ss (child p n) := by
  unfold quotedSegment Segment.ofTokens
  rw [mapM_char?_quoted]
  by_cases hn : n.any isSpecial = true
  · -- With a special character in it the segment is a pattern, which only this name matches.
    have hnodup : (t.namesAt p).Nodup := by
      unfold Tree.namesAt
      split
      · exact nodup_eraseDups _
      · exact List.nodup_nil
    simp only [if_pos hn, if_neg (map_quoted_ne_anyDepth n)]
    rw [expand, if_pos hdir, dotEntries_quoted hn, List.flatMap_nil, List.nil_append]
    simp only [accepts_quoted]
    exact flatMap_ite_eq hnodup (hname hn) fun m => expand t directoriesOnly ss (child p m)
  · -- Without one it is a literal, which is looked up.
    simp only [if_neg hn]
    rw [expand, if_pos]
    by_cases hdot : n = dot ∨ n = dotDot
    · simpa [hdot] using hdir
    · rw [not_or] at hdot
      simpa [hdot.1, hdot.2] using hthere hdot.1 hdot.2

/-- Names put after a path make it longer by these names and their slashes at most. -/
theorem foldl_child_sublist (hns : ∀ n ∈ ns, '/' ∉ n) (p : Path) :
    (ns.foldl child p).text.Sublist (p.text ++ ns.flatMap ('/' :: ·)) := by
  induction ns generalizing p with
  | nil => simp
  | cons n ns ih =>
    rw [List.forall_mem_cons] at hns
    have hchild : (child p n).text.Sublist (p.text ++ '/' :: n) := by
      unfold child
      split
      · exact (List.sublist_cons_self '/' n).trans (List.sublist_append_right _ _)
      · rw [Path.join, if_neg (by simp [Path.isAbsolute_mk hns.1])]
        split
        · exact List.Sublist.append_left (List.sublist_cons_self '/' n) _
        · exact List.Sublist.refl _
    rw [List.foldl_cons, List.flatMap_cons, ← List.append_assoc]
    exact (ih hns.2 _).trans (List.Sublist.append_right hchild _)

end Glob

namespace Discovery

open PlaybookTidy.Path (IsName joinPieces isVoid ofPieces spelling dot dotDot)
open Glob (Spells Shows child expand fits grow quotedSegment listed pathsOf seek)

variable {t : Tree} {root p q : Path} {l x : Location} {ns : List Name} {n : Name}

theorem lead_of_not_here (h : Component.here ∉ root.components) : root.parts.1 ≠ .here := by
  intro hlead
  simp [Path.components_eq_steps, hlead, Path.Lead.components] at h

/-- A root that does not begin with a dot leaves a piece in the paths below it. -/
theorem front_ne_nil (htext : root.text ≠ []) (hlead : root.parts.1 ≠ .here) :
    front root ≠ [] := by
  intro hnil
  have hsteps := filter_front root
  cases h : root.parts.1 with
  | root =>
    have hhead := head_front_absolute (Path.isAbsolute_iff.2 h)
    simp [hnil] at hhead
  | here => exact hlead h
  | bare =>
    rw [hnil] at hsteps
    exact Path.steps_ne_nil_of_bare h htext hsteps.symm

theorem steps_of_spells (hns : ∀ n ∈ ns, IsName n) (hp : Spells (front root ++ ns) p) :
    p.steps = root.steps ++ ns := by
  rw [hp.steps, List.filter_append, filter_front, Path.filter_names hns]

/-- The paths below a root start where it does. -/
theorem start_of_spells (hfront : front root ≠ []) (hp : Spells (front root ++ ns) p) :
    t.start p = t.start root := by
  have hne : front root ++ ns ≠ [] := List.append_ne_nil_of_left_ne_nil hfront ns
  have habs : p.isAbsolute = root.isAbsolute := by
    rw [Bool.eq_iff_iff, hp.isAbsolute_iff hne, List.head?_append_of_ne_nil _ hfront]
    constructor
    · intro hhead
      by_contra hrel
      exact head_front_relative (by simpa using hrel) hhead
    · exact head_front_absolute
  rw [Tree.start, Tree.start, habs]

/-- A walk by the steps of the root and on is a walk from its location. -/
theorem walk_below (hroot : t.resolve root = .ok l) (hne : ns ≠ []) :
    t.walk (t.start root) (root.steps ++ ns) = .ok x ↔ t.walk l ns = .ok x := by
  have hlocation := Tree.location_of_resolve hroot
  constructor
  · intro h
    rw [hlocation]
    exact (Tree.walk_append h).2
  · intro h
    obtain ⟨n, ms, rfl⟩ := List.exists_cons_of_ne_nil hne
    have hdir := (Tree.walk_cons h).1
    have hpieces := (Tree.resolve_eq_ok_iff.1 hroot).2
    have hsteps : t.walk (t.start root) (root.steps ++ [[]]) = .ok l :=
      Tree.walk_filter.2 (Tree.walk_concat_nil.2 ⟨hpieces, hdir⟩)
    rw [Tree.walk_append_of (Tree.walk_concat_nil.1 hsteps).1]
    exact h

/-- A path below a root leads where its names lead from the location of the root, unless it is too
long. -/
theorem resolve_below (hroot : t.resolve root = .ok l) (hfront : front root ≠ [])
    (hns : ∀ n ∈ ns, IsName n) (hne : ns ≠ [])
    (hspells : Spells (front root ++ ns) (ofPieces (front root ++ ns))) :
    t.resolve (ofPieces (front root ++ ns)) = .ok x ↔
      fits (front root) ns = true ∧ t.walk l ns = .ok x := by
  obtain ⟨ms, n, rfl⟩ := List.eq_nil_or_concat ns |>.resolve_left hne
  rw [List.concat_eq_append] at *
  have hn : IsName n := hns n (by simp)
  have hcut : Text.splitOn '/' (ofPieces (front root ++ (ms ++ [n]))).text =
      (front root ++ ms) ++ [n] := by
    rw [List.append_assoc]
    exact Text.splitOn_intercalate (by simp) hspells.slash
  rw [Tree.resolve_iff_walk hn hcut, steps_of_spells hns hspells, start_of_spells hfront hspells,
    walk_below hroot (by simp)]
  simp [fits]

/-- What is found by a path below a root is what names find below its location. -/
theorem entry?_below (hroot : t.resolve root = .ok l) (hfront : front root ≠ [])
    (hns : ∀ n ∈ ns, IsName n) (hne : ns ≠ [])
    (hspells : Spells (front root ++ ns) (ofPieces (front root ++ ns))) {e : Entry} :
    t.entry? (ofPieces (front root ++ ns)) = some e ↔
      fits (front root) ns = true ∧ t.entryBelow l ns = some e := by
  have hentry : t.entry? (ofPieces (front root ++ ns)) = some e ↔
      ∃ x, t.resolve (ofPieces (front root ++ ns)) = .ok x ∧ t.get? x = some e := by
    unfold Tree.entry?
    cases t.resolve (ofPieces (front root ++ ns)) <;> simp
  rw [hentry, Tree.entryBelow_eq_some_iff hns]
  simp only [resolve_below hroot hfront hns hne hspells, and_assoc, exists_and_left]

/-- A path below a root that can be taken is that of a directory if its names lead to one below the
location of the root. -/
theorem isDirectory_below (hroot : t.resolve root = .ok l) (hfront : front root ≠ [])
    (hns : ∀ n ∈ ns, IsName n) (hp : Spells (front root ++ ns) p) :
    t.isDirectory p = true ↔
      Tree.checkPath p = .ok () ∧ (t.view l).isDirectory ns = true := by
  rw [Tree.isDirectory_iff_walk, steps_of_spells hns hp, start_of_spells hfront hp,
    List.append_assoc, View.isDirectory_iff]
  simp only [walk_below hroot (List.append_ne_nil_of_right_ne_nil ns (List.cons_ne_nil [] []))]
  rw [Tree.view, Tree.entryBelow_directory_iff hns]

/-- An empty piece after a path asks for a directory, and a name for an entry in it. -/
theorem contains_below (hroot : t.resolve root = .ok l) (hfront : front root ≠ [])
    (hns : ∀ n ∈ ns, IsName n) (hp : Spells (front root ++ ns) p) (hn : n = [] ∨ IsName n) :
    t.contains (child p n) = true ↔ Tree.checkPath (child p n) = .ok () ∧
      (t.view l).isDirectory ns = true ∧ ((t.view l).entry (grow ns n)).isSome := by
  rcases hn with rfl | hn
  · have hchild : Spells (front root ++ ns) (child p []) := by
      simpa [grow] using Glob.spells_child (n := []) hp (by simp)
    -- An empty piece puts a slash at the end, which asks for a directory.
    have hcut : Text.splitOn '/' (child p []).text = (front root ++ ns) ++ [[]] := by
      rw [Glob.child_text hp (by simp)]
      refine Text.splitOn_intercalate (by simp) ?_
      simpa [or_imp, forall_and] using hp.slash
    have hsame : t.contains (child p []) = t.isDirectory (child p []) := by
      rw [Tree.contains, Tree.isDirectory, Tree.entry?]
      cases hl : t.resolve (child p []) with
      | error e => simp
      | ok k => simp [directory_of_void (n := []) rfl hcut hl]
    rw [hsame, isDirectory_below hroot hfront hns hchild]
    have hgrow : grow ns [] = ns := by simp [grow]
    rw [hgrow]
    constructor
    · rintro ⟨hcheck, hdir⟩
      exact ⟨hcheck, hdir, by simp [View.isDirectory_iff.1 hdir]⟩
    · rintro ⟨hcheck, hdir, -⟩
      exact ⟨hcheck, hdir⟩
  · have hnames := Glob.isName_concat hns hn
    rw [Glob.grow_name hn, Glob.child_eq hp hn.slash, Tree.contains, Option.isSome_iff_exists,
      Option.isSome_iff_exists]
    simp only [entry?_below hroot hfront hnames (by simp) (Glob.spells_name hp hn),
      exists_and_left, fits, decide_eq_true_eq, Tree.view]
    refine and_congr_right fun _ => ?_
    rw [iff_and_self]
    rintro ⟨e, he⟩
    rw [Tree.entryBelow_eq_some_iff hnames] at he
    obtain ⟨x, hx, -⟩ := he
    obtain ⟨y, hy, -⟩ := (Tree.walk_concat_name hn).1 hx
    exact View.isDirectory_iff.2 ((Tree.entryBelow_directory_iff hns).2 ⟨y, hy⟩)

/-- Seen from a root that does not begin with a dot, the tree shows what lies below its location. -/
theorem shows_root (hnamed : t.Named) (hroot : t.resolve root = .ok l)
    (hfront : front root ≠ []) : Shows t (front root) (t.view l) where
  some := hfront
  named ns n hn := hnamed _ (Tree.mem_names.1 hn) n (by simp)
  depth := rfl
  directory hns hp := isDirectory_below hroot hfront hns hp
  contains hns hp hn := contains_below hroot hfront hns hp hn
  namesAt {p ns} hns hp hdir := by
    obtain ⟨k, hk, -⟩ := Tree.isDirectory_iff.1 hdir
    have hlocation : k = l ++ ns := by
      rw [Tree.location_of_resolve hk, start_of_spells hfront hp, steps_of_spells hns hp,
        List.foldl_append, ← Tree.location_of_resolve hroot, foldl_follow_names hns]
    simp only [Tree.namesAt, hk, hlocation, Tree.view]
  file {ns} hns hne hspells := by
    have hentry : t.isFile (ofPieces (front root ++ ns)) = true ↔
        ∃ c, t.entry? (ofPieces (front root ++ ns)) = some (.file c) := by
      unfold Tree.isFile
      split <;> simp_all
    rw [Bool.eq_iff_iff, hentry, Bool.and_eq_true, View.isFile_iff]
    simp only [entry?_below hroot hfront hns hne hspells, exists_and_left, Tree.view]
    exact and_comm

variable {pattern : String} {cs : List Name} {before after : List Name}

/-- A root that does not begin with a dot begins with the place where the search starts or with a
piece that says something. -/
theorem Cut.grow_ne_nil (hcut : Cut root pattern ns cs) (htext : root.text ≠ [])
    (hlead : root.parts.1 ≠ .here) (hns : ns = before ++ after) (hne : before ≠ []) :
    before.foldl grow (startFront root) ≠ [] := by
  obtain ⟨n, ms, rfl⟩ := List.exists_cons_of_ne_nil hne
  -- Before a slash in front there is an empty piece; without one the first piece is a name.
  have hfirst : grow (startFront root) n ≠ [] := by
    unfold startFront
    split
    · unfold grow
      split <;> simp
    · rename_i hrel
      have hbare : root.parts.1 = .bare := by
        cases h : root.parts.1 with
        | root => exact absurd (Path.isAbsolute_iff.2 h) hrel
        | here => exact absurd h hlead
        | bare => rfl
      obtain ⟨m, ps, hps, hv⟩ := Path.exists_first_of_bare hbare htext
      obtain ⟨k, hk⟩ := hcut.pieces
      rw [startFront, if_neg hrel, hns, hps] at hk
      obtain rfl : m = n := by simpa using (List.cons.inj hk).1
      have hnot : ¬ (m = [] ∨ ([] : List Name) = [] ∧ m = dot) := by
        rintro (rfl | ⟨-, rfl⟩) <;> simp at hv
      rw [grow, if_neg hnot]
      simp
  intro hnil
  have hhead : (ms.foldl grow (grow (startFront root) n)).head? = (grow (startFront root) n).head? :=
    Glob.head_foldl_grow hfirst
  rw [List.foldl_cons] at hnil
  rw [hnil] at hhead
  exact hfirst (List.head?_eq_none_iff.1 hhead.symm)

/-- The paths on the way to a root can be taken where the root can. -/
theorem Cut.checkPath (hcut : Cut root pattern ns cs) (hcheck : Tree.checkPath root = .ok ())
    (hlead : root.parts.1 ≠ .here) (hns : ns = before ++ after) :
    Tree.checkPath (before.foldl child (searchStart root pattern)) = .ok () := by
  have htext : root.text ≠ [] := (Tree.checkPath_eq_ok_iff.1 hcheck).2.1
  have hslash : ∀ n ∈ before, '/' ∉ n := fun n hn => hcut.slash n (by simp [hns, hn])
  have hspells := Glob.spells_foldl hcut.spells_start hslash
  by_cases hne : before = []
  · subst hne
    rw [List.foldl_nil, searchStart]
    split <;> decide
  · have hnonempty := hspells.text_ne_nil (hcut.grow_ne_nil htext hlead hns hne)
    -- The text on the way is what stays of the text of the root with pieces struck out.
    refine Tree.checkPath_of_sublist ?_ hnonempty hcheck
    obtain ⟨n, ms, rfl⟩ := List.exists_cons_of_ne_nil hne
    rw [List.forall_mem_cons] at hslash
    obtain ⟨k, hk⟩ := hcut.pieces
    have hroot : root.text = joinPieces (startFront root ++ [n]) ++
        (ms ++ after ++ List.replicate k []).flatMap ('/' :: ·) := by
      rw [← Path.joinPieces_append (by simp), ← Text.intercalate_splitOn '/' root.text, hk, hns]
      simp [joinPieces]
    have hfirst : (child (searchStart root pattern) n).text = joinPieces (startFront root ++ [n]) :=
      Glob.child_text hcut.spells_start hslash.1
    rw [hroot, ← hfirst, List.flatMap_append, List.flatMap_append, List.append_assoc,
      ← List.append_assoc]
    exact (Glob.foldl_child_sublist hslash.2 _).trans (List.sublist_append_left _ _)

theorem Cut.slash_front (hcut : Cut root pattern ns cs) (hns : ns = before ++ after) :
    ∀ n ∈ before, '/' ∉ n :=
  fun n hn => hcut.slash n (by simp [hns, hn])

/-- On the way to a root a path has the steps of the pieces so far. -/
theorem Cut.steps_front (hcut : Cut root pattern ns cs) (hns : ns = before ++ after) :
    (before.foldl child (searchStart root pattern)).steps = before.filter fun n => !isVoid n := by
  have hnone := steps_searchStart root pattern
  have hsteps := (Glob.foldl_child (hcut.slash_front hns) fun _ => hnone).2.1
  rwa [hnone, List.nil_append] at hsteps

theorem Cut.start_front (hcut : Cut root pattern ns cs) (hns : ns = before ++ after) :
    t.start (before.foldl child (searchStart root pattern)) = t.start root := by
  have hnone := steps_searchStart root pattern
  have habs := (Glob.foldl_child (hcut.slash_front hns) fun _ => hnone).1
  rw [Tree.start, Tree.start, habs, hcut.isAbsolute_searchStart]

/-- The way to a root goes through directories, in which the next piece names an entry. -/
theorem Cut.exists_directory (hcut : Cut root pattern ns cs) (hroot : t.resolve root = .ok l)
    (hlead : root.parts.1 ≠ .here) (hns : ns = before ++ n :: after) :
    ∃ y, t.walk (t.start root) ((before.filter fun n => !isVoid n) ++ [[]]) = .ok y ∧
      t.resolve (before.foldl child (searchStart root pattern)) = .ok y ∧
      t.get? y = some .directory ∧ (isVoid n = false → n ≠ dotDot →
        Text.byteLength n ≤ Tree.maxNameLength ∧ (t.get? (y ++ [n])).isSome) := by
  obtain ⟨hcheck, hwalk⟩ := Tree.resolve_eq_ok_iff.1 hroot
  obtain ⟨k, hk⟩ := hcut.pieces
  -- The walk to the root comes by the piece, so there is a directory before it.
  have hpieces : Text.splitOn '/' root.text =
      (startFront root ++ before) ++ n :: (after ++ List.replicate k []) := by
    simp [hk, hns]
  rw [hpieces] at hwalk
  obtain ⟨hway, hon⟩ := Tree.walk_append hwalk
  obtain ⟨hdir, -, hname⟩ := Tree.walk_cons hon
  have hfilter : (startFront root ++ before).filter (fun n => !isVoid n) =
      before.filter fun n => !isVoid n := by
    unfold startFront
    split <;> simp
  have hsteps := Tree.walk_filter.2 (Tree.walk_concat_nil.2 ⟨hway, hdir⟩)
  rw [hfilter] at hsteps
  refine ⟨_, hsteps, ?_, hdir, hname⟩
  have hdirectory : t.isDirectory (before.foldl child (searchStart root pattern)) = true := by
    rw [Tree.isDirectory_iff_walk, hcut.steps_front hns, hcut.start_front hns]
    exact ⟨hcut.checkPath hcheck hlead hns, _, hsteps⟩
  obtain ⟨x, hx, -⟩ := Tree.isDirectory_iff.1 hdirectory
  rw [hx, Tree.location_of_resolve hx, hcut.steps_front hns, hcut.start_front hns, ← hfilter,
    Tree.foldl_follow_filter]

/-- The next path on the way to a root leads to something. -/
theorem Cut.contains_child (hcut : Cut root pattern ns cs) (hroot : t.resolve root = .ok l)
    (hlead : root.parts.1 ≠ .here) (hns : ns = before ++ n :: after) (hdot : n ≠ dot)
    (hup : n ≠ dotDot) :
    t.contains (child (before.foldl child (searchStart root pattern)) n) = true := by
  obtain ⟨y, hy, -, hdir, hname⟩ := hcut.exists_directory hroot hlead hns
  have hlonger : ns = (before ++ [n]) ++ after := by simp [hns]
  have hcheck := hcut.checkPath (Tree.resolve_eq_ok_iff.1 hroot).1 hlead hlonger
  have hsteps := hcut.steps_front hlonger
  have hstart := hcut.start_front (t := t) hlonger
  have hlast : (before ++ [n]).foldl child (searchStart root pattern) =
      child (before.foldl child (searchStart root pattern)) n := by simp
  rw [hlast] at hcheck hsteps hstart
  by_cases hnil : n = []
  · -- An empty piece asks for the directory that the search has come to.
    have hdirectory : t.isDirectory (child (before.foldl child (searchStart root pattern)) n) =
        true := by
      rw [Tree.isDirectory_iff_walk, hsteps, hstart]
      exact ⟨hcheck, y, by simpa [hnil] using hy⟩
    obtain ⟨x, hx, hget⟩ := Tree.isDirectory_iff.1 hdirectory
    simp [Tree.contains, Tree.entry?, hx, hget]
  · -- Any other piece is a name, and the walk to the root goes on by its entry.
    have hn : IsName n := ⟨by simp [isVoid, hnil, hdot], hup, hcut.slash n (by simp [hns])⟩
    have hspells := Glob.spells_foldl hcut.spells_start (hcut.slash_front hns)
    have hpieces : Text.splitOn '/' (child (before.foldl child (searchStart root pattern)) n).text =
        before.foldl grow (startFront root) ++ [n] := by
      rw [Glob.child_text hspells hn.slash]
      refine Text.splitOn_intercalate (by simp) ?_
      simpa [or_imp, forall_and] using ⟨hspells.slash, hn.slash⟩
    obtain ⟨hlength, hsome⟩ := hname hn.step hn.down
    have hresolve : t.resolve (child (before.foldl child (searchStart root pattern)) n) =
        .ok (y ++ [n]) := by
      have hnames : (before ++ [n]).filter (fun n => !isVoid n) =
          (before.filter fun n => !isVoid n) ++ [n] := by simp [hn.step]
      rw [Tree.resolve_iff_walk hn hpieces, hsteps, hstart, hnames, Tree.walk_concat_name hn]
      exact ⟨hcheck, y, hy, hlength, hsome, rfl⟩
    simpa [Tree.contains, Tree.entry?, hresolve] using hsome

/-- A search below a root goes through the pieces of the root. -/
theorem Cut.expand_root (hcut : Cut root pattern ns cs) (hroot : t.resolve root = .ok l)
    (hlead : root.parts.1 ≠ .here) (directoriesOnly : Bool) (ss : List Glob.Segment) :
    expand t directoriesOnly (ns.map quotedSegment ++ ss) (searchStart root pattern) =
      expand t directoriesOnly ss (ns.foldl child (searchStart root pattern)) := by
  -- The induction is on the pieces that are left; the search has come by those in `before`.
  have hstep : ∀ after before, ns = before ++ after →
      expand t directoriesOnly (after.map quotedSegment ++ ss)
          (before.foldl child (searchStart root pattern)) =
        expand t directoriesOnly ss (ns.foldl child (searchStart root pattern)) := by
    intro after
    induction after with
    | nil =>
      rintro before hns
      rw [hns]
      simp
    | cons n after ih =>
      intro before hns
      obtain ⟨y, -, hresolve, hdir, hname⟩ := hcut.exists_directory hroot hlead hns
      have hnamesAt : n.any Glob.isSpecial = true → n ∈ t.namesAt
          (before.foldl child (searchStart root pattern)) := by
        intro hspecial
        -- A special character makes the piece a pattern, matched against the names here.
        have hn : isVoid n = false ∧ n ≠ dotDot := by
          constructor
          · rw [Bool.eq_false_iff]
            intro hv
            rcases (by simpa [isVoid] using hv : n = [] ∨ n = dot) with rfl | rfl <;>
              revert hspecial <;> decide
          · rintro rfl
            revert hspecial
            decide
        have hthere := Tree.isSome_get?_iff.1 (hname hn.1 hn.2).2
        simp only [Tree.namesAt, hresolve]
        exact Tree.mem_names.2 (hthere.resolve_left (by simp))
      rw [List.map_cons, List.cons_append, Glob.expand_quotedSegment
        (Tree.isDirectory_iff.2 ⟨y, hresolve, hdir⟩)
        (hcut.contains_child hroot hlead hns) hnamesAt]
      simpa using ih (before ++ [n]) (by simp [hns])
  exact hstep ns [] rfl

/-- A pattern that ends with a slash, and the empty one, want directories. -/
def wantsDirectory (pattern : String) : Bool := ('/' :: pattern.toList).getLast? = some '/'

/-- The files that a pattern finds below a location, by names. -/
def sought (v : View) (pattern : String) : List (List Name) :=
  if wantsDirectory pattern then []
  else
    match (Glob.pieces pattern.toList).mapM fun c => (Glob.parse c).map Glob.Segment.ofTokens with
    | .ok ss => (seek v (Glob.Segment.collapse ss) []).filter v.isFile
    | .error _ => []

theorem getLast?_rooted (root : Path) (pattern : String) :
    (rooted root pattern).getLast? = some '/' ↔ wantsDirectory pattern = true := by
  rw [rooted, List.getLast?_append_of_ne_nil _ (by simp), wantsDirectory, decide_eq_true_eq]

theorem pieces_ne_nil (h : wantsDirectory pattern = false) :
    Glob.pieces pattern.toList ≠ [] := by
  have hne : pattern.toList ≠ [] := by
    intro hnil
    simp [wantsDirectory, hnil] at h
  unfold Glob.pieces
  simp only
  split
  · rename_i hlast
    intro hdrop
    obtain ⟨ps, hps⟩ := List.getLast?_eq_some_iff.1 hlast
    rw [hps, List.dropLast_concat] at hdrop
    -- The only piece would be empty, and so would be the pattern.
    have hwhole := Text.intercalate_splitOn '/' pattern.toList
    rw [hps, hdrop] at hwhole
    exact hne hwhole.symm
  · exact Text.splitOn_ne_nil _ _

theorem collapse_ne_nil {ss : List Glob.Segment} (h : ss ≠ []) : Glob.Segment.collapse ss ≠ [] := by
  fun_induction Glob.Segment.collapse ss with
  | case1 ss ih => exact ih (by simp)
  | case2 => simp
  | case3 => exact absurd rfl h

/-- A pattern that does not end with a slash has something to look for. -/
theorem segments_ne_nil (h : wantsDirectory pattern = false) {ss : List Glob.Segment}
    (hss : (Glob.pieces pattern.toList).mapM
      (fun c => (Glob.parse c).map Glob.Segment.ofTokens) = .ok ss) :
    Glob.Segment.collapse ss ≠ [] := by
  apply collapse_ne_nil
  rintro rfl
  obtain ⟨c, hc⟩ := List.exists_mem_of_ne_nil _ (pieces_ne_nil h)
  obtain ⟨s, hs⟩ := exists_mapM_eq_ok_iff.1 ⟨_, hss⟩ c hc
  exact List.not_mem_nil ((mem_mapM_iff hss).2 ⟨c, hc, hs⟩)

/-- Below a root a plain pattern finds what it seeks below the location of the root. -/
theorem found_eq (hnamed : t.Named) (hroot : t.resolve root = .ok l)
    (hlead : root.parts.1 ≠ .here) (hpat : PlainPattern pattern) :
    found t root pattern = pathsOf (front root) (sought (t.view l) pattern) := by
  have htext : root.text ≠ [] := text_ne_nil_of_resolve hroot
  obtain ⟨ns, cs, hcut⟩ := exists_cut htext pattern
  obtain ⟨ss, hss, hplain, hparse⟩ := hcut.exists_parse hpat
  have hfound : found t root pattern =
      (expand t ((rooted root pattern).getLast? = some '/') (Glob.Segment.collapse ss)
        (ns.foldl child (searchStart root pattern))).filter t.isFile := by
    simp only [found, hparse, Glob.Search.run, hcut.expand_root hroot hlead]
  rw [hfound, sought]
  cases hdirs : wantsDirectory pattern with
  | true =>
    have hlast := (getLast?_rooted root pattern).2 hdirs
    -- The search keeps directories only, and no file is left of what it finds.
    rw [decide_eq_true hlast, if_pos rfl, pathsOf, List.filter_nil, List.map_nil,
      List.filter_eq_nil_iff]
    intro q hq
    simp [Tree.not_isFile_of_isDirectory (Glob.isDirectory_of_expand hq)]
  | false =>
    have hlast : ¬ (rooted root pattern).getLast? = some '/' := by
      rw [getLast?_rooted, hdirs]
      simp
    -- The pieces of the root are gone through; those of the pattern are left.
    have hown : cs = Glob.pieces pattern.toList := by
      refine hcut.own.resolve_right ?_
      rintro ⟨hnil, -⟩
      simp [wantsDirectory, hnil] at hdirs
    rw [hown] at hss
    have hspells : Spells (front root ++ []) (ns.foldl child (searchStart root pattern)) := by
      rw [List.append_nil, ← hcut.front]
      exact Glob.spells_foldl hcut.spells_start hcut.slash
    rw [decide_eq_false hlast, hss]
    have hshows := shows_root hnamed hroot (front_ne_nil htext hlead)
    refine hshows.lists _ hplain _ _ (by simp) hspells fun hnil => ?_
    exact absurd hnil (segments_ne_nil hdirs hss)

end Discovery

end PlaybookTidy
