import PlaybookTidy.Proofs.Tree.View

/-!
What a search finds below a directory, by names. Whatever pieces lead to the directory, the search
goes through what lies below it in the same order, except that it finds nothing by paths that are
too long.
-/

namespace PlaybookTidy

namespace Path

def ofPieces (ps : List Name) : Path := ⟨joinPieces ps⟩

theorem joinPieces_append {ps : List Name} (h : ps ≠ []) (qs : List Name) :
    joinPieces (ps ++ qs) = joinPieces ps ++ qs.flatMap ('/' :: ·) := by
  induction qs generalizing ps with
  | nil => simp
  | cons q qs ih =>
    have hcons : ps ++ q :: qs = (ps ++ [q]) ++ qs := by simp
    rw [hcons, ih (by simp), joinPieces_concat h, List.flatMap_cons, List.append_assoc]

end Path

namespace Tree

variable {p q : Path}

/-- A path can be taken if it is not empty, not too long and without NUL. -/
theorem checkPath_eq_ok_iff : checkPath p = .ok () ↔
    '\x00' ∉ p.text ∧ p.text ≠ [] ∧ Text.byteLength p.text ≤ maxPathLength := by
  unfold checkPath
  grind

theorem not_isFile_of_isDirectory {t : Tree} (h : t.isDirectory p = true) : t.isFile p = false := by
  obtain ⟨l, hl, hdir⟩ := isDirectory_iff.1 h
  simp [isFile, entry?, hl, hdir]

/-- A path that is part of one that can be taken can be taken. -/
theorem checkPath_of_sublist (h : p.text.Sublist q.text) (hne : p.text ≠ [])
    (hq : checkPath q = .ok ()) : checkPath p = .ok () := by
  rw [checkPath_eq_ok_iff] at hq ⊢
  obtain ⟨hnul, -, hlength⟩ := hq
  exact ⟨fun hmem => hnul (h.subset hmem), hne, (Text.byteLength_le_of_sublist h).trans hlength⟩

end Tree

namespace Glob

open PlaybookTidy.Path (IsName joinPieces isVoid ofPieces)

variable {t : Tree} {v : View} {front ns m : List Name} {p : Path} {n : Name}
  {ss : List Segment}

theorem Spells.steps (h : Spells front p) : p.steps = front.filter fun n => !isVoid n := by
  by_cases hne : front = []
  · subst hne
    rcases h.text with ⟨-, hp | hp⟩ | ⟨hne, -⟩ | ⟨hne, -⟩
    · rw [Path.steps, hp]
      rfl
    · rw [Path.steps, hp]
      rfl
    · exact absurd rfl hne
    · exact absurd rfl hne
  · rcases h.splitOn hne with hcut | hcut
    · simp [Path.steps, hcut]
    · rw [Path.steps, hcut]

/-- A path is absolute if the first of its pieces is empty. -/
theorem Spells.isAbsolute_iff (h : Spells front p) (hne : front ≠ []) :
    p.isAbsolute = true ↔ front.head? = some [] := by
  constructor
  · intro habs
    obtain ⟨s, -, hs⟩ := Path.splitOn_absolute habs
    obtain ⟨m, ms, rfl⟩ := List.exists_cons_of_ne_nil hne
    rcases h.splitOn hne with hcut | hcut
    · rw [hs, List.cons_append] at hcut
      rw [← (List.cons.inj hcut).1]
      rfl
    · rw [hs] at hcut
      rw [← (List.cons.inj hcut).1]
      rfl
  · intro hhead
    obtain ⟨ms, rfl⟩ := List.head?_eq_some_iff.1 hhead
    -- An empty piece at the front is followed by a slash, or by nothing at all.
    rcases h.text with ⟨hnil, -⟩ | ⟨-, htext⟩ | ⟨-, htext, hp, -⟩
    · exact absurd hnil hne
    · rw [List.cons_append, Path.joinPieces_cons (by simp)] at htext
      simp [Path.isAbsolute, htext]
    · by_cases hms : ms = []
      · rw [hms] at htext
        exact absurd htext hp
      · rw [Path.joinPieces_cons hms] at htext
        simp [Path.isAbsolute, htext]

theorem Spells.text_ne_nil (h : Spells front p) (hne : front ≠ []) : p.text ≠ [] := by
  rcases h.text with ⟨hnil, -⟩ | ⟨-, htext⟩ | ⟨-, -, hp, -⟩
  · exact absurd hnil hne
  · rw [htext, Path.joinPieces_append hne]
    simp
  · exact hp

theorem child_eq (hp : Spells (front ++ ns) p) (hn : '/' ∉ n) :
    child p n = ofPieces (front ++ (ns ++ [n])) := by
  rw [← List.append_assoc]
  exact congrArg Path.mk (child_text hp hn)

theorem spells_name (hp : Spells (front ++ ns) p) (hn : IsName n) :
    Spells (front ++ (ns ++ [n])) (ofPieces (front ++ (ns ++ [n]))) := by
  rw [← child_eq hp hn.slash, ← List.append_assoc]
  have hchild := spells_child hp hn.slash
  rwa [grow, if_neg (by simp [hn.ne_nil, hn.ne_dot])] at hchild

def fits (front ns : List Name) : Bool := Tree.checkPath (ofPieces (front ++ ns)) = .ok ()

/-- On the way to something whose path can be taken all paths can be taken, those with a slash at the
end too. -/
theorem Spells.checkPath (h : Spells (front ++ ns) p) (hne : front ≠ []) (hpre : ns <+: m)
    (hlong : m ≠ ns ∨ p = ofPieces (front ++ ns)) (hm : fits front m = true) :
    Tree.checkPath p = .ok () := by
  have hfront : front ++ ns ≠ [] := List.append_ne_nil_of_left_ne_nil hne ns
  obtain ⟨rest, rfl⟩ := hpre
  have hlength : (ofPieces (front ++ (ns ++ rest))).text =
      joinPieces (front ++ ns) ++ rest.flatMap ('/' :: ·) := by
    rw [← List.append_assoc]
    exact Path.joinPieces_append hfront rest
  -- The text of the path is part of the longer one, which fits.
  refine Tree.checkPath_of_sublist ?_ ?_ (by simpa [fits] using hm)
  · rw [hlength]
    rcases hlong with hmore | rfl
    · obtain ⟨k, ks, rfl⟩ := List.exists_cons_of_ne_nil (l := rest) (by simpa using hmore)
      rcases h.text with ⟨hnil, -⟩ | ⟨-, htext⟩ | ⟨-, htext, -⟩
      · exact absurd hnil hfront
      · rw [htext, Path.joinPieces_append hfront]
        apply List.Sublist.append_left
        simp
      · rw [htext]
        exact List.sublist_append_left _ _
    · exact List.sublist_append_left _ _
  · exact h.text_ne_nil hfront

def descend (v : View) (visit : List Name → Name → List (List Name)) :
    Nat → List Name → List (List Name)
  | 0, _ => []
  | fuel + 1, ns =>
    if v.isDirectory ns then
      (v.names ns).flatMap fun n => visit (ns ++ [n]) n ++ descend v visit fuel (ns ++ [n])
    else []

/-- What segments find from names on, by names. A last segment for any depth finds no files. -/
def seek (v : View) : List Segment → List Name → List (List Name)
  | [], ns => [ns]
  | .literal n :: ss, ns =>
    if v.isDirectory ns && (v.entry (grow ns n)).isSome then seek v ss (grow ns n) else []
  | .wild ts :: ss, ns =>
    if v.isDirectory ns then
      (v.names ns).flatMap fun n => if accepts ts n then seek v ss (ns ++ [n]) else []
    else []
  | [.anyDepth], _ => []
  | .anyDepth :: s :: ss, ns =>
    descend v (fun ms n => if s.admits n then seek v ss ms else []) (v.depth + 1) ns

theorem prefix_grow (ns : List Name) (n : Name) : ns <+: grow ns n := by
  unfold grow
  split
  · exact List.prefix_rfl
  · exact List.prefix_append ns [n]

theorem longer_of_prefix (h : ns ++ [n] <+: m) : ns <+: m ∧ m ≠ ns := by
  refine ⟨(List.prefix_append ns [n]).trans h, ?_⟩
  rintro rfl
  have hlength := h.length_le
  rw [List.length_append, List.length_singleton] at hlength
  omega

/-- What lies below a directory has its names in front, and some more. -/
theorem prefix_of_descend {visit : List Name → Name → List (List Name)}
    (hvisit : ∀ ms n, m ∈ visit ms n → ms <+: m) {fuel : Nat} (hm : m ∈ descend v visit fuel ns) :
    ns <+: m ∧ m ≠ ns := by
  induction fuel generalizing ns with
  | zero => simp [descend] at hm
  | succ fuel ih =>
    rw [descend, List.mem_ite_nil_right] at hm
    obtain ⟨n, -, hm⟩ := List.mem_flatMap.1 hm.2
    apply longer_of_prefix (n := n)
    rcases List.mem_append.1 hm with hm | hm
    · exact hvisit _ _ hm
    · exact (ih hm).1

/-- What holds of the names from which a search starts, and is kept by the names of its literals and
of the view, holds of all that it finds. -/
theorem seek_induction {motive : List Name → Prop}
    (hliteral : ∀ n ms, .literal n ∈ ss → motive ms → motive (grow ms n))
    (hname : ∀ n ms, n ∈ v.names ms → motive ms → motive (ms ++ [n])) (hns : motive ns)
    (hm : m ∈ seek v ss ns) : motive m := by
  -- A search at any depth goes down by names of the view, and on from each place it gets to.
  have hdescend : ∀ (visit : List Name → Name → List (List Name)) (fuel : Nat) (ns : List Name),
      (∀ ms n, motive ms → m ∈ visit ms n → motive m) → motive ns →
      m ∈ descend v visit fuel ns → motive m := by
    intro visit fuel ns hvisit hns hm
    induction fuel generalizing ns with
    | zero => simp [descend] at hm
    | succ fuel ih =>
      rw [descend, List.mem_ite_nil_right] at hm
      obtain ⟨n, hn, hm⟩ := List.mem_flatMap.1 hm.2
      rcases List.mem_append.1 hm with hm | hm
      · exact hvisit _ n (hname n ns hn hns) hm
      · exact ih _ (hname n ns hn hns) hm
  fun_induction seek v ss ns with
  | case1 ns => exact List.mem_singleton.1 hm ▸ hns
  | case2 n ss ns _ ih =>
    refine ih (fun k ms hk => hliteral k ms (List.mem_cons_of_mem _ hk)) ?_ hm
    exact hliteral n ns List.mem_cons_self hns
  | case3 => simp at hm
  | case4 ts ss ns _ ih =>
    obtain ⟨n, hn, hm⟩ := List.mem_flatMap.1 hm
    rw [List.mem_ite_nil_right] at hm
    exact ih n (fun k ms hk => hliteral k ms (List.mem_cons_of_mem _ hk)) (hname n ns hn hns) hm.2
  | case5 => simp at hm
  | case6 => simp at hm
  | case7 s ss ns ih =>
    refine hdescend _ _ ns ?_ hns hm
    intro ms n hms hm
    rw [List.mem_ite_nil_right] at hm
    exact ih ms (fun k ks hk => hliteral k ks (by simp [hk])) hms hm.2

/-- A search by names goes down only. -/
theorem prefix_of_seek (hm : m ∈ seek v ss ns) : ns <+: m := by
  refine seek_induction ?_ ?_ List.prefix_rfl hm
  · intro n ms _ h
    exact h.trans (prefix_grow ms n)
  · intro n ms _ h
    exact h.trans (List.prefix_append ms [n])

theorem isName_concat (hns : ∀ m ∈ ns, IsName m) (hn : IsName n) : ∀ m ∈ ns ++ [n], IsName m := by
  simpa [or_imp, forall_and] using ⟨hns, hn⟩

theorem grow_name (hn : IsName n) : grow ns n = ns ++ [n] := by
  simp [grow, hn.ne_nil, hn.ne_dot]

theorem isName_grow (hns : ∀ m ∈ ns, IsName m) (hn : n = [] ∨ IsName n) :
    ∀ m ∈ grow ns n, IsName m := by
  rcases hn with rfl | hn
  · simpa [grow] using hns
  · rw [grow_name hn]
    exact isName_concat hns hn

/-- Plain segments lead to names. -/
theorem names_of_seek (hnames : ∀ ns, ∀ n ∈ v.names ns, IsName n) (hss : ∀ s ∈ ss, s.Plain)
    (hns : ∀ n ∈ ns, IsName n) (hm : m ∈ seek v ss ns) : ∀ n ∈ m, IsName n := by
  refine seek_induction (motive := fun ms => ∀ m ∈ ms, IsName m) ?_ ?_ hns hm
  · intro n ms hn hms
    exact isName_grow hms (hss _ hn)
  · intro n ms hn hms
    exact isName_concat hms (hnames ms n hn)

/-- A search that has to go on finds something only from a directory. -/
theorem isDirectory_of_seek (hss : ss ≠ []) (hm : m ∈ seek v ss ns) :
    v.isDirectory ns = true := by
  fun_cases seek v ss ns with
  | case1 => exact absurd rfl hss
  | case2 _ _ _ h =>
    rw [Bool.and_eq_true] at h
    exact h.1
  | case3 n ss ns h =>
    rw [seek, if_neg h] at hm
    simp at hm
  | case4 _ _ _ h => exact h
  | case5 ts ss ns h =>
    rw [seek, if_neg h] at hm
    simp at hm
  | case6 => simp [seek] at hm
  | case7 s ss ns =>
    rw [seek, descend, List.mem_ite_nil_right] at hm
    exact hm.1

def pathsOf (front : List Name) (ms : List (List Name)) : List Path :=
  (ms.filter (fits front)).map fun m => ofPieces (front ++ m)

def listed (v : View) (front : List Name) (ms : List (List Name)) : List Path :=
  pathsOf front (ms.filter v.isFile)

theorem pathsOf_append (ms ks : List (List Name)) :
    pathsOf front (ms ++ ks) = pathsOf front ms ++ pathsOf front ks := by
  simp [pathsOf]

theorem pathsOf_flatMap {α : Type} (as : List α) (f : α → List (List Name)) :
    pathsOf front (as.flatMap f) = as.flatMap fun a => pathsOf front (f a) := by
  simp [pathsOf, List.filter_flatMap, List.map_flatMap]

theorem listed_append (ms ks : List (List Name)) :
    listed v front (ms ++ ks) = listed v front ms ++ listed v front ks := by
  simp [listed, pathsOf_append]

theorem listed_flatMap {α : Type} (as : List α) (f : α → List (List Name)) :
    listed v front (as.flatMap f) = as.flatMap fun a => listed v front (f a) := by
  simp [listed, pathsOf_flatMap, List.filter_flatMap]

/-- Seen by paths that begin with the pieces `front`, the tree shows the view. -/
structure Shows (t : Tree) (front : List Name) (v : View) : Prop where
  some : front ≠ []
  named (ns : List Name) : ∀ n ∈ v.names ns, IsName n
  depth : t.depth = v.depth
  directory {p : Path} {ns : List Name} : (∀ n ∈ ns, IsName n) → Spells (front ++ ns) p →
    (t.isDirectory p = true ↔ Tree.checkPath p = .ok () ∧ v.isDirectory ns = true)
  contains {p : Path} {ns : List Name} {n : Name} : (∀ n ∈ ns, IsName n) →
    Spells (front ++ ns) p → n = [] ∨ IsName n → (t.contains (child p n) = true ↔
      Tree.checkPath (child p n) = .ok () ∧ v.isDirectory ns = true ∧
        (v.entry (grow ns n)).isSome)
  namesAt {p : Path} {ns : List Name} : (∀ n ∈ ns, IsName n) → Spells (front ++ ns) p →
    t.isDirectory p = true → t.namesAt p = v.names ns
  file {ns : List Name} : (∀ n ∈ ns, IsName n) → ns ≠ [] →
    Spells (front ++ ns) (ofPieces (front ++ ns)) →
    t.isFile (ofPieces (front ++ ns)) = (v.isFile ns && fits front ns)

/-- What begins with names whose path cannot be taken is not listed. -/
theorem Shows.listed_eq_nil (h : Shows t front v) {ms : List (List Name)}
    (hp : Spells (front ++ ns) p) (hcheck : Tree.checkPath p ≠ .ok ())
    (hms : ∀ m ∈ ms, ns <+: m ∧ (m ≠ ns ∨ v.isDirectory ns = true ∨ p = ofPieces (front ++ ns))) :
    listed v front ms = [] := by
  unfold listed pathsOf
  rw [List.map_eq_nil_iff, List.filter_eq_nil_iff]
  intro m hm hfits
  obtain ⟨hmem, hfile⟩ := List.mem_filter.1 hm
  obtain ⟨hpre, hlong⟩ := hms m hmem
  apply hcheck
  refine hp.checkPath h.some hpre ?_ hfits
  by_cases hsame : m = ns
  · rcases hlong with hne | hdir | hpath
    · exact Or.inl hne
    · rw [hsame, View.not_isFile_of_isDirectory hdir] at hfile
      simp at hfile
    · exact Or.inr hpath
  · exact Or.inl hsame

theorem Shows.isDirectory_eq (h : Shows t front v) (hns : ∀ n ∈ ns, IsName n)
    (hp : Spells (front ++ ns) p) (hcheck : Tree.checkPath p = .ok ()) :
    t.isDirectory p = v.isDirectory ns := by
  rw [Bool.eq_iff_iff, h.directory hns hp, and_iff_right hcheck]

theorem Shows.isDirectory_eq_false (h : Shows t front v) (hns : ∀ n ∈ ns, IsName n)
    (hp : Spells (front ++ ns) p)
    (hnot : Tree.checkPath p ≠ .ok () ∨ v.isDirectory ns = false) : t.isDirectory p = false := by
  rw [Bool.eq_false_iff, ne_eq, h.directory hns hp]
  rintro ⟨hcheck, hdir⟩
  rcases hnot with hlong | hfile
  · exact hlong hcheck
  · simp [hdir] at hfile

/-- Names of the view can be put after a path. -/
theorem Shows.filter_below (h : Shows t front v) {visit : Path → Name → List Path}
    {visit' : List Name → Name → List (List Name)}
    (hstarts : ∀ ms n m, m ∈ visit' ms n → ms <+: m)
    (hvisit : ∀ ms n, (∀ n ∈ ms, IsName n) → ms ≠ [] →
      Spells (front ++ ms) (ofPieces (front ++ ms)) →
      (visit (ofPieces (front ++ ms)) n).filter t.isFile = listed v front (visit' ms n))
    (fuel : Nat) (hns : ∀ n ∈ ns, IsName n) (hp : Spells (front ++ ns) p) :
    (below t visit fuel p).filter t.isFile = listed v front (descend v visit' fuel ns) := by
  -- The induction is on the depth that is left; `visit` is what is done with each name.
  induction fuel generalizing ns p with
  | zero => rfl
  | succ fuel ih =>
    by_cases hcheck : Tree.checkPath p = .ok ()
    · have hdir := h.isDirectory_eq hns hp hcheck
      rw [below, descend, hdir]
      split
      · rename_i hd
        rw [h.namesAt hns hp (hdir.trans hd), List.filter_flatMap, listed_flatMap]
        apply List.flatMap_congr
        intro n hn
        have hname := h.named ns n hn
        have hnames := isName_concat hns hname
        have hspells := spells_name hp hname
        rw [child_eq hp hname.slash, List.filter_append, listed_append,
          hvisit _ n hnames (by simp) hspells, ih hnames hspells]
      · rfl
    · -- Below a path that is too long nothing is found, and nothing is listed.
      have hnone : listed v front (descend v visit' (fuel + 1) ns) = [] := by
        apply h.listed_eq_nil hp hcheck
        intro m hm
        obtain ⟨hpre, hne⟩ := prefix_of_descend (hstarts · · m) hm
        exact ⟨hpre, Or.inl hne⟩
      rw [hnone, below, h.isDirectory_eq_false hns hp (Or.inl hcheck)]
      rfl

theorem grow_append (hn : n = [] ∨ IsName n) : grow (front ++ ns) n = front ++ grow ns n := by
  rcases hn with rfl | hn
  · simp [grow]
  · rw [grow_name hn, grow_name hn, List.append_assoc]

/-- A component without wildcards leads to the one name that it is. -/
theorem expand_literal {directoriesOnly : Bool} (hn : n = [] ∨ IsName n) :
    expand t directoriesOnly (.literal n :: ss) p =
      if t.contains (child p n) then expand t directoriesOnly ss (child p n) else [] := by
  have hplain : n ≠ Path.dot ∧ n ≠ Path.dotDot := by
    rcases hn with rfl | hn
    · simp [Path.dot, Path.dotDot]
    · exact ⟨hn.ne_dot, hn.down⟩
  rw [expand]
  simp [hplain.1, hplain.2]

theorem exists_visit_of_below {visit : Path → Name → List Path} {fuel : Nat} {q : Path}
    (hq : q ∈ below t visit fuel p) : ∃ r n, q ∈ visit r n := by
  induction fuel generalizing p with
  | zero => simp [below] at hq
  | succ fuel ih =>
    rw [below, List.mem_ite_nil_right] at hq
    obtain ⟨n, -, hq⟩ := List.mem_flatMap.1 hq.2
    rcases List.mem_append.1 hq with hq | hq
    · exact ⟨_, n, hq⟩
    · exact ih hq

/-- Where only directories are wanted, only directories are found. -/
theorem isDirectory_of_expand {q : Path} (hq : q ∈ expand t true ss p) :
    t.isDirectory q = true := by
  fun_induction expand t true ss p with
  | case1 => simp at hq
  | case2 p hp =>
    obtain rfl := List.mem_singleton.1 hq
    simpa using hp
  | case3 n ss p _ _ ih => exact ih hq
  | case4 => simp at hq
  | case5 ts ss p _ ihEntries ihNames =>
    rcases List.mem_append.1 hq with hq | hq
    · obtain ⟨n, -, hq⟩ := List.mem_flatMap.1 hq
      exact ihEntries n hq
    · obtain ⟨n, -, hq⟩ := List.mem_flatMap.1 hq
      rw [List.mem_ite_nil_right] at hq
      exact ihNames n hq.2
  | case6 => simp at hq
  | case7 p =>
    obtain ⟨r, -, hq⟩ := exists_visit_of_below hq
    rw [List.mem_ite_nil_right, List.mem_singleton] at hq
    exact hq.2 ▸ hq.1
  | case8 s ss p ih =>
    obtain ⟨r, n, hq⟩ := exists_visit_of_below hq
    rw [List.mem_ite_nil_right] at hq
    exact ih r hq.2

/-- A path that leads to a directory is not that of a file. -/
theorem Shows.isFile_eq_false (h : Shows t front v) (hns : ∀ n ∈ ns, IsName n)
    (hp : Spells (front ++ ns) p) (hdir : v.isDirectory ns = true) : t.isFile p = false := by
  rw [Bool.eq_false_iff]
  intro hfile
  have hcheck : Tree.checkPath p = .ok () := by
    obtain ⟨l, c, hl, -⟩ := Tree.isFile_iff.1 hfile
    exact (Tree.resolve_eq_ok_iff.1 hl).1
  have hboth := (h.directory hns hp).2 ⟨hcheck, hdir⟩
  rw [Tree.not_isFile_of_isDirectory hboth] at hfile
  simp at hfile

/-- A search for segments from a path of the view finds the files that are listed by names, provided
that segments are left, or the path is that of a name or leads to a directory. -/
def Lists (t : Tree) (front : List Name) (v : View) (ss : List Segment) : Prop :=
  ∀ (ns : List Name) (p : Path), (∀ n ∈ ns, IsName n) → Spells (front ++ ns) p →
    (ss = [] → v.isDirectory ns = true ∨ ns ≠ [] ∧ p = ofPieces (front ++ ns)) →
    (expand t false ss p).filter t.isFile = listed v front (seek v ss ns)

theorem Shows.lists_nil (h : Shows t front v) : Lists t front v [] := by
  intro ns p hns hp hend
  have hone : expand t false [] p = [p] := rfl
  rw [hone, seek]
  rcases hend rfl with hdir | ⟨hne, rfl⟩
  · simp [listed, pathsOf, h.isFile_eq_false hns hp hdir, View.not_isFile_of_isDirectory hdir]
  · cases hfile : v.isFile ns <;> cases hfits : fits front ns <;>
      simp [listed, pathsOf, h.file hns hne hp, hfile, hfits]

/-- A first component without wildcards lists what the others list from its name on. -/
theorem Lists.literal (hss : Lists t front v ss) (h : Shows t front v) (hn : n = [] ∨ IsName n) :
    Lists t front v (.literal n :: ss) := by
  intro ns p hns hp _
  rw [expand_literal hn, seek]
  by_cases hpresent : v.isDirectory ns = true ∧ (v.entry (grow ns n)).isSome
  · rw [if_pos (Bool.and_eq_true_iff.2 hpresent)]
    have hspells : Spells (front ++ grow ns n) (child p n) := by
      rw [← grow_append hn]
      apply spells_child hp
      rcases hn with rfl | hn
      · simp
      · exact hn.slash
    -- An empty literal stays in the directory; a name is the last one of the path.
    have hplace : v.isDirectory (grow ns n) = true ∨
        grow ns n ≠ [] ∧ child p n = ofPieces (front ++ grow ns n) := by
      rcases hn with rfl | hn
      · exact Or.inl (by simpa [grow] using hpresent.1)
      · rw [grow_name hn, child_eq hp hn.slash]
        exact Or.inr ⟨by simp, rfl⟩
    by_cases hcheck : Tree.checkPath (child p n) = .ok ()
    · rw [if_pos ((h.contains hns hp hn).2 ⟨hcheck, hpresent⟩)]
      exact hss _ _ (isName_grow hns hn) hspells fun _ => hplace
    · rw [if_neg fun hc => hcheck ((h.contains hns hp hn).1 hc).1]
      -- Nothing is listed by way of a path that is too long.
      refine (h.listed_eq_nil hspells hcheck ?_).symm
      intro m hm
      exact ⟨prefix_of_seek hm, Or.inr (hplace.imp_right And.right)⟩
  · rw [if_neg fun hc => hpresent (Bool.and_eq_true_iff.1 hc),
      if_neg fun hc => hpresent ((h.contains hns hp hn).1 hc).2]
    rfl

/-- A first component with wildcards lists what the others list from each name that it accepts. -/
theorem Lists.wild {ts : List Token} (hss : Lists t front v ss) (h : Shows t front v)
    (hts : dotEntries ts = []) : Lists t front v (.wild ts :: ss) := by
  intro ns p hns hp _
  rw [expand, seek, hts, List.flatMap_nil, List.nil_append]
  by_cases hdir : v.isDirectory ns = true
  · rw [if_pos hdir]
    by_cases hcheck : Tree.checkPath p = .ok ()
    · have hd : t.isDirectory p = true := (h.isDirectory_eq hns hp hcheck).trans hdir
      rw [if_pos hd, h.namesAt hns hp hd, List.filter_flatMap, listed_flatMap]
      apply List.flatMap_congr
      intro n hn
      have hname := h.named ns n hn
      rw [child_eq hp hname.slash]
      split
      · refine hss _ _ (isName_concat hns hname) (spells_name hp hname) fun _ => ?_
        exact Or.inr ⟨by simp, rfl⟩
      · rfl
    · -- Nothing is found below a path that is too long, and no path below it fits.
      rw [h.isDirectory_eq_false hns hp (Or.inl hcheck)]
      refine (h.listed_eq_nil hp hcheck ?_).symm
      intro m hm
      obtain ⟨n, -, hm⟩ := List.mem_flatMap.1 hm
      rw [List.mem_ite_nil_right] at hm
      obtain ⟨hpre, hne⟩ := longer_of_prefix (prefix_of_seek hm.2)
      exact ⟨hpre, Or.inl hne⟩
  · rw [if_neg hdir, h.isDirectory_eq_false hns hp (Or.inr (by simpa using hdir))]
    rfl

/-- A last segment for any depth finds directories only. -/
theorem lists_anyDepth : Lists t front v [.anyDepth] := by
  intro ns p _ _ _
  rw [expand, seek, listed, pathsOf, List.filter_nil, List.filter_nil, List.map_nil,
    List.filter_eq_nil_iff]
  intro q hq
  obtain ⟨r, -, hq⟩ := exists_visit_of_below hq
  rw [List.mem_ite_nil_right, List.mem_singleton] at hq
  simp [hq.2, Tree.not_isFile_of_isDirectory hq.1]

/-- A first component for any depth lists what the others list from each directory below. -/
theorem Lists.anyDepth {s : Segment} (hss : Lists t front v ss) (h : Shows t front v) :
    Lists t front v (.anyDepth :: s :: ss) := by
  intro ns p hns hp _
  rw [expand, seek, h.depth]
  refine h.filter_below ?_ ?_ _ hns hp
  · intro ms n m hm
    rw [List.mem_ite_nil_right] at hm
    exact prefix_of_seek hm.2
  · intro ms n hms hne hspells
    split
    · exact hss ms _ hms hspells fun _ => Or.inr ⟨hne, rfl⟩
    · rfl

/-- By induction on the components a search lists what is found by names. -/
theorem Shows.lists (h : Shows t front v) : ∀ ss : List Segment, (∀ s ∈ ss, s.Plain) →
    Lists t front v ss
  | [], _ => h.lists_nil
  | .literal _ :: ss, hss =>
    (h.lists ss fun s hs => hss s (by simp [hs])).literal h (hss _ List.mem_cons_self)
  | .wild _ :: ss, hss =>
    (h.lists ss fun s hs => hss s (by simp [hs])).wild h (hss _ List.mem_cons_self)
  | [.anyDepth], _ => lists_anyDepth
  | .anyDepth :: _ :: ss, hss => (h.lists ss fun s hs => hss s (by simp [hs])).anyDepth h

end Glob

end PlaybookTidy
