import PlaybookTidy.Proofs.Below
import PlaybookTidy.Proofs.Patterns

/-!
The names of a root are literal. A discovery lists the files below the root by what lies there, so
under a root with other names, in the tree renamed alike, it lists files with the same names below it
in the same order. Only the length of paths sets a limit: what is found by a path that is too long
is left out.
-/

namespace PlaybookTidy

namespace Discovery

open PlaybookTidy.Path (IsName joinPieces isVoid ofPieces spelling dot dotDot)
open Glob (Spells fits pathsOf seek)

variable {t : Tree} {root : Path} {l : Location} {ns m : List Name} {v : View} {pattern : String}
  {patterns exclude : List String} {ex : List (List Glob.Token)}

theorem exists_spells (htext : root.text ≠ []) (hns : ∀ n ∈ ns, IsName n) :
    ∃ p, Spells (front root ++ ns) p := by
  induction ns using List.reverseRecOn with
  | nil =>
    obtain ⟨ms, cs, hcut⟩ := exists_cut htext ""
    have hspells := Glob.spells_foldl hcut.spells_start hcut.slash
    rw [hcut.front] at hspells
    exact ⟨_, by simpa using hspells⟩
  | append_singleton ns n ih =>
    obtain ⟨p, hp⟩ := ih fun m hm => hns m (List.mem_append_left _ hm)
    exact ⟨_, Glob.spells_name hp (hns n (by simp))⟩

theorem spells_below (htext : root.text ≠ []) (hns : ∀ n ∈ ns, IsName n) (hne : ns ≠ []) :
    Spells (front root ++ ns) (ofPieces (front root ++ ns)) := by
  obtain ⟨ms, n, rfl⟩ := List.eq_nil_or_concat ns |>.resolve_left hne
  rw [List.concat_eq_append] at hns ⊢
  obtain ⟨p, hp⟩ := exists_spells htext fun m hm => hns m (List.mem_append_left _ hm)
  exact Glob.spells_name hp (hns n (by simp))

/-- A path below a root is told by its names below the root. -/
theorem relativeTo_below (htext : root.text ≠ []) (hlead : root.parts.1 ≠ .here)
    (hns : ∀ n ∈ ns, IsName n) (hne : ns ≠ []) :
    (ofPieces (front root ++ ns)).relativeTo root = spelling ns := by
  have hcut : Text.splitOn '/' (ofPieces (front root ++ ns)).text = front root ++ ns :=
    Text.splitOn_intercalate (by simp [hne]) (spells_below htext hns hne).slash
  rw [relativeTo_eq htext hns hne hcut, leading, if_neg hlead, List.nil_append]

/-- Names below a root tell its paths apart. -/
theorem eq_of_components (htext : root.text ≠ []) (hns : ∀ n ∈ ns, IsName n) (hne : ns ≠ [])
    (hm : ∀ n ∈ m, IsName n) (hm' : m ≠ [])
    (h : (ofPieces (front root ++ ns)).components = (ofPieces (front root ++ m)).components) :
    ns = m := by
  have hsteps := (Path.steps_of_components h).2
  rw [steps_of_spells hns (spells_below htext hns hne),
    steps_of_spells hm (spells_below htext hm hm')] at hsteps
  exact List.append_cancel_left hsteps

/-- What a plain pattern seeks are files, told by at least one name. -/
theorem file_of_sought (hnames : ∀ ns, ∀ n ∈ v.names ns, IsName n) (hpat : PlainPattern pattern)
    (hm : m ∈ sought v pattern) : v.isFile m = true ∧ m ≠ [] ∧ ∀ n ∈ m, IsName n := by
  unfold sought at hm
  cases hdirs : wantsDirectory pattern with
  | true => simp [hdirs] at hm
  | false =>
    rw [hdirs, if_neg (by simp)] at hm
    obtain ⟨ss, hss, hplain⟩ := hpat.exists_segments (Glob.pieces_subset pattern.toList)
    rw [hss] at hm
    obtain ⟨hmem, hfile⟩ := List.mem_filter.1 hm
    refine ⟨hfile, ?_, ?_⟩
    · rintro rfl
      have hdir := Glob.isDirectory_of_seek (segments_ne_nil hdirs hss) hmem
      rw [View.not_isFile_of_isDirectory hdir] at hfile
      simp at hfile
    · refine Glob.names_of_seek hnames ?_ (by simp) hmem
      intro s hs
      exact hplain s (Glob.collapse_subset ss hs)

/-- Each path is added once. -/
theorem foldl_addNew_pathsOf {front : List Name} {ms : List (List Name)}
    (hms : ∀ m ∈ ms, ∀ k ∈ ms,
      (ofPieces (front ++ m)).components = (ofPieces (front ++ k)).components → m = k) :
    (pathsOf front ms).foldl addNew [] = pathsOf front ms.eraseDups := by
  induction ms using List.reverseRecOn with
  | nil => rfl
  | append_singleton ms m ih =>
    have hrest := ih fun k hk j hj =>
      hms k (List.mem_append_left _ hk) j (List.mem_append_left _ hj)
    rw [Glob.pathsOf_append, List.foldl_append, hrest, eraseDups_concat]
    -- The last path is new exactly if its names are none of those before.
    cases hfits : fits front m with
    | false =>
      have hnone : pathsOf front [m] = [] := by simp [pathsOf, hfits]
      split <;> simp [Glob.pathsOf_append, hnone]
    | true =>
      have hone : pathsOf front [m] = [ofPieces (front ++ m)] := by simp [pathsOf, hfits]
      have hany : ((pathsOf front ms.eraseDups).any fun q =>
          q.components = (ofPieces (front ++ m)).components) = true ↔ m ∈ ms := by
        simp only [List.any_eq_true, decide_eq_true_eq, pathsOf, List.mem_map, List.mem_filter,
          List.mem_eraseDups]
        constructor
        · rintro ⟨q, ⟨k, ⟨hk, -⟩, rfl⟩, hcomp⟩
          obtain rfl := hms k (by simp [hk]) m (by simp) hcomp
          exact hk
        · intro hm
          exact ⟨_, ⟨m, ⟨hm, hfits⟩, rfl⟩, rfl⟩
      rw [hone, List.foldl_cons, List.foldl_nil, addNew]
      simp only [hany]
      split
      · rfl
      · rw [Glob.pathsOf_append, hone]

def excludedBelow (ex : List (List Glob.Token)) (ns : List Name) : Bool :=
  ex.any fun ts => Glob.accepts ts (spelling ns).toList

def soughtAll (v : View) (patterns : List String) (ex : List (List Glob.Token)) :
    List (List Name) :=
  ((patterns.flatMap (sought v)).filter fun ns => !excludedBelow ex ns).eraseDups

/-- The paths that are not excluded are those of the names that are not excluded. -/
theorem filter_pathsOf {ms : List (List Name)} (htext : root.text ≠ [])
    (hlead : root.parts.1 ≠ .here) (hms : ∀ m ∈ ms, m ≠ [] ∧ ∀ n ∈ m, IsName n) :
    (pathsOf (front root) ms).filter (fun p => !excluded root ex p) =
      pathsOf (front root) (ms.filter fun m => !excludedBelow ex m) := by
  unfold pathsOf
  have hkept : ms.filter ((fun p => !excluded root ex p) ∘ fun m => ofPieces (front root ++ m)) =
      ms.filter fun m => !excludedBelow ex m := by
    apply List.filter_congr
    intro m hm
    obtain ⟨hne, hnames⟩ := hms m hm
    rw [Function.comp_apply, excluded, relativeTo_below htext hlead hnames hne]
    rfl
  rw [List.filter_map, List.filter_comm, hkept]

/-- A discovery with plain patterns lists what they seek below the location of the root. -/
theorem discover_below (hnamed : t.Named) (hroot : t.resolve root = .ok l)
    (hlead : root.parts.1 ≠ .here) (hpatterns : ∀ pattern ∈ patterns, PlainPattern pattern)
    (hex : compileExcludes exclude = .ok ex) :
    discover t root patterns exclude =
      .ok (pathsOf (front root) (soughtAll (t.view l) patterns ex)) := by
  have htext : root.text ≠ [] := text_ne_nil_of_resolve hroot
  have hshows := shows_root hnamed hroot (front_ne_nil htext hlead)
  have hparse : ∀ pattern ∈ patterns, ∃ s, Glob.Search.parse (rooted root pattern) = .ok s := by
    intro pattern hpattern
    obtain ⟨s, hs, -⟩ := run_rooted hnamed htext (hpatterns pattern hpattern)
    exact ⟨s, hs⟩
  have hfiles : ∀ m ∈ patterns.flatMap (sought (t.view l)), m ≠ [] ∧ ∀ n ∈ m, IsName n := by
    intro m hm
    obtain ⟨pattern, hpattern, hm⟩ := List.mem_flatMap.1 hm
    exact (file_of_sought hshows.named (hpatterns pattern hpattern) hm).2
  have hfound : patterns.flatMap (found t root) =
      pathsOf (front root) (patterns.flatMap (sought (t.view l))) := by
    rw [Glob.pathsOf_flatMap]
    apply List.flatMap_congr
    intro pattern hpattern
    exact found_eq hnamed hroot hlead (hpatterns pattern hpattern)
  rw [discover_eq_ok_iff]
  refine ⟨ex, hex, hparse, ?_⟩
  -- Paths from one root are the same exactly if their names are: doubles drop out by names.
  rw [hfound, filter_pathsOf htext hlead hfiles, foldl_addNew_pathsOf]
  · rfl
  · intro m hm k hk
    obtain ⟨hne, hnames⟩ := hfiles m (List.mem_filter.1 hm).1
    obtain ⟨hne', hnames'⟩ := hfiles k (List.mem_filter.1 hk).1
    exact eq_of_components htext hnames hne hnames' hne'

/-- The list has the files of these names below the root, which leads to `l`, in this order, less
those by whose paths nothing can be found because they are too long. -/
structure ListsBelow (t : Tree) (root : Path) (l : Location) (nss : List (List Name))
    (ps : List Path) : Prop where
  relative : ps.map (fun p => p.relativeTo root) =
    (nss.filter (fits (front root))).map spelling
  below : ∀ p ∈ ps, ∃ ns ∈ nss, p = ofPieces (front root ++ ns) ∧ t.resolve p = .ok (l ++ ns)

/-- What plain patterns find are files that names lead to. -/
theorem mem_soughtAll (hnames : ∀ ns, ∀ n ∈ v.names ns, IsName n)
    (hpatterns : ∀ pattern ∈ patterns, PlainPattern pattern) (hm : m ∈ soughtAll v patterns ex) :
    v.isFile m = true ∧ m ≠ [] ∧ ∀ n ∈ m, IsName n := by
  rw [soughtAll, List.mem_eraseDups] at hm
  obtain ⟨pattern, hpattern, hm⟩ := List.mem_flatMap.1 (List.mem_filter.1 hm).1
  exact file_of_sought hnames (hpatterns pattern hpattern) hm

/-- What patterns find by names is listed by the paths below the root, in the same order. -/
theorem listsBelow_soughtAll (hnamed : t.Named) (hroot : t.resolve root = .ok l)
    (hlead : root.parts.1 ≠ .here) (hpatterns : ∀ pattern ∈ patterns, PlainPattern pattern)
    (ex : List (List Glob.Token)) :
    ListsBelow t root l (soughtAll (t.view l) patterns ex)
      (pathsOf (front root) (soughtAll (t.view l) patterns ex)) := by
  have htext : root.text ≠ [] := text_ne_nil_of_resolve hroot
  have hfront := front_ne_nil htext hlead
  have hshows := shows_root hnamed hroot hfront
  have hsought : ∀ m ∈ soughtAll (t.view l) patterns ex,
      (t.view l).isFile m = true ∧ m ≠ [] ∧ ∀ n ∈ m, IsName n :=
    fun _ hm => mem_soughtAll hshows.named hpatterns hm
  constructor
  · rw [pathsOf, List.map_map]
    apply List.map_congr_left
    intro m hm
    obtain ⟨-, hne, hnames⟩ := hsought m (List.mem_filter.1 hm).1
    exact relativeTo_below htext hlead hnames hne
  · intro p hp
    obtain ⟨m, hm, rfl⟩ := List.mem_map.1 hp
    obtain ⟨hmem, hfits⟩ := List.mem_filter.1 hm
    obtain ⟨hfile, hne, hnames⟩ := hsought m hmem
    refine ⟨m, hmem, rfl, ?_⟩
    have hspells := spells_below htext hnames hne
    obtain ⟨c, hc⟩ := View.isFile_iff.1 hfile
    obtain ⟨x, hx, -⟩ := (Tree.entryBelow_eq_some_iff hnames).1 hc
    rw [resolve_below hroot hfront hnames hne hspells]
    refine ⟨hfits, ?_⟩
    rw [hx, Tree.walk_eq_foldl hx, foldl_follow_names hnames]

/-- Whatever is searched, the first text that is no pattern is the same. -/
theorem exists_invalidPattern (t t' : Tree) (root root' : Path)
    (h : ¬ ((∀ y ∈ exclude, ∃ ts, Glob.parse y.toList = .ok ts) ∧
      ∀ x ∈ patterns, IsPattern x)) :
    ∃ x text text',
      discover t root patterns exclude = .error (Failure.invalidPattern x text) ∧
      discover t' root' patterns exclude = .error (Failure.invalidPattern x text') := by
  -- The excludes are read first, so a pattern is to blame only if they are all in order.
  have hfirst : ∃ x, IsFirst (fun x => ¬ ∃ ts, Glob.parse x.toList = .ok ts) exclude x ∨
      (∀ y ∈ exclude, ∃ ts, Glob.parse y.toList = .ok ts) ∧
        IsFirst (fun x => ¬ IsPattern x) patterns x := by
    by_cases hexclude : ∀ y ∈ exclude, ∃ ts, Glob.parse y.toList = .ok ts
    · have hpatterns : ∃ x ∈ patterns, ¬ IsPattern x := by
        by_contra hnone
        exact h ⟨hexclude, by simpa using hnone⟩
      obtain ⟨x, hx⟩ := exists_isFirst_iff.2 hpatterns
      exact ⟨x, Or.inr ⟨hexclude, hx⟩⟩
    · have hbad : ∃ x ∈ exclude, ¬ ∃ ts, Glob.parse x.toList = .ok ts := by
        by_contra hnone
        exact hexclude (by simpa using hnone)
      obtain ⟨x, hx⟩ := exists_isFirst_iff.2 hbad
      exact ⟨x, Or.inl hx⟩
  obtain ⟨x, hx⟩ := hfirst
  obtain ⟨text, htext⟩ := exists_invalidPattern_iff.2 hx
  obtain ⟨text', htext'⟩ := exists_invalidPattern_iff.2 hx
  exact ⟨x, text, text', htext, htext'⟩

/-- Under another name a root is searched alike. Either the discoveries fail over the same text, or
they list the files of the same names below the root in the same order, none from elsewhere, less
those by whose paths nothing can be found because they are too long. -/
theorem discover_renamed {root' : Path} {l' : Location} (exclude : List String) (hnamed : t.Named)
    (hrenames : t.Renames l l') (hroot : t.resolve root = .ok l)
    (hroot' : (t.renamed l l').resolve root' = .ok l') (hhere : Component.here ∉ root.components)
    (hhere' : Component.here ∉ root'.components)
    (hdots : ∀ pattern ∈ patterns, ∀ c ∈ Text.splitOn '/' pattern.toList, c.head? ≠ some '.') :
    (∃ x text text',
      discover t root patterns exclude = .error (Failure.invalidPattern x text) ∧
      discover (t.renamed l l') root' patterns exclude =
        .error (Failure.invalidPattern x text')) ∨
    ∃ (nss : List (List Name)) (ps ps' : List Path), nss.Nodup ∧
      (∀ ns ∈ nss, ns ≠ [] ∧ ∃ c, t.get? (l ++ ns) = some (.file c)) ∧
      discover t root patterns exclude = .ok ps ∧
      discover (t.renamed l l') root' patterns exclude = .ok ps' ∧
      ListsBelow t root l nss ps ∧ ListsBelow (t.renamed l l') root' l' nss ps' := by
  have hlead := lead_of_not_here hhere
  have hlead' := lead_of_not_here hhere'
  by_cases hgood : (∀ y ∈ exclude, ∃ ts, Glob.parse y.toList = .ok ts) ∧
      ∀ x ∈ patterns, IsPattern x
  · right
    obtain ⟨ex, hex⟩ := exists_compileExcludes_iff.2 hgood.1
    have hplain : ∀ pattern ∈ patterns, PlainPattern pattern := by
      intro pattern hpattern
      have hp := hgood.2 pattern hpattern
      exact ⟨hp.reads, fun c hc => ⟨hp.components c hc, hdots pattern hpattern c hc⟩⟩
    have hnamed' := hrenames.named hnamed
    -- Both roots show the same below them, so the same is sought.
    have hlists := listsBelow_soughtAll hnamed' hroot' hlead' hplain ex
    have hpaths := discover_below hnamed' hroot' hlead' hplain hex
    rw [hrenames.view_renamed] at hlists hpaths
    have hshows := shows_root hnamed hroot (front_ne_nil (text_ne_nil_of_resolve hroot) hlead)
    refine ⟨soughtAll (t.view l) patterns ex, _, _, nodup_eraseDups _, ?_,
      discover_below hnamed hroot hlead hplain hex, hpaths,
      listsBelow_soughtAll hnamed hroot hlead hplain ex, hlists⟩
    intro ns hns
    obtain ⟨hfile, hne, hnames⟩ := mem_soughtAll hshows.named hplain hns
    obtain ⟨c, hc⟩ := View.isFile_iff.1 hfile
    obtain ⟨x, hx, hget⟩ := (Tree.entryBelow_eq_some_iff hnames).1 hc
    refine ⟨hne, c, ?_⟩
    rwa [Tree.walk_eq_foldl hx, foldl_follow_names hnames] at hget
  · left
    exact exists_invalidPattern t (t.renamed l l') root root' hgood

/-- The tree in which the root with brackets has stars instead. -/
def starred : Tree := bracketed.renamed ["r[1]".toList] ["**!".toList]

/-- The stars find nothing but themselves. -/
theorem discover_renamed_starred :
    bracketed.Named ∧ bracketed.Renames ["r[1]".toList] ["**!".toList] ∧
      bracketed.resolve ⟨"r[1]".toList⟩ = .ok ["r[1]".toList] ∧
      starred.resolve ⟨"**!".toList⟩ = .ok ["**!".toList] ∧
      Component.here ∉ (Path.mk "r[1]".toList).components ∧
      Component.here ∉ (Path.mk "**!".toList).components ∧
      (∀ pattern ∈ ["playbooks/*.yml"], ∀ c ∈ Text.splitOn '/' pattern.toList,
        c.head? ≠ some '.') ∧
      ∃ nss : List (List Name), nss.Nodup ∧
        ListsBelow bracketed ⟨"r[1]".toList⟩ ["r[1]".toList] nss
          [⟨"r[1]/playbooks/a.yml".toList⟩] ∧
        ListsBelow starred ⟨"**!".toList⟩ ["**!".toList] nss [⟨"**!/playbooks/a.yml".toList⟩] := by
  have hrenames : bracketed.Renames ["r[1]".toList] ["**!".toList] :=
    Tree.renames_of_new rfl (by decide) (by decide)
  have hroot : bracketed.resolve ⟨"r[1]".toList⟩ = .ok ["r[1]".toList] := by cbv
  have hroot' : starred.resolve ⟨"**!".toList⟩ = .ok ["**!".toList] := by cbv
  have hhere : Component.here ∉ (Path.mk "r[1]".toList).components := by decide
  have hhere' : Component.here ∉ (Path.mk "**!".toList).components := by decide
  have hdots : ∀ pattern ∈ ["playbooks/*.yml"], ∀ c ∈ Text.splitOn '/' pattern.toList,
      c.head? ≠ some '.' := by decide
  have hps : discover bracketed ⟨"r[1]".toList⟩ ["playbooks/*.yml"] ["playbooks/b.yml"] =
      .ok [⟨"r[1]/playbooks/a.yml".toList⟩] := by cbv
  have hps' : discover starred ⟨"**!".toList⟩ ["playbooks/*.yml"] ["playbooks/b.yml"] =
      .ok [⟨"**!/playbooks/a.yml".toList⟩] := by cbv
  refine ⟨named_bracketed, hrenames, hroot, hroot', hhere, hhere', hdots, ?_⟩
  -- Both discoveries succeed, so they list the files of the same names.
  rcases discover_renamed ["playbooks/b.yml"] named_bracketed hrenames hroot hroot' hhere hhere'
    hdots with ⟨x, text, -, hfail, -⟩ | ⟨nss, qs, qs', hnss, -, hqs, hqs', hlists, hlists'⟩
  · exact absurd (hps.symm.trans hfail) (by simp)
  · obtain rfl := Except.ok.inj (hps.symm.trans hqs)
    obtain rfl := Except.ok.inj (hps'.symm.trans hqs')
    exact ⟨nss, hnss, hlists, hlists'⟩

theorem splitOn_ofPieces (hns : ∀ n ∈ ns, IsName n) (hne : ns ≠ []) :
    Text.splitOn '/' (ofPieces ns).text = ns :=
  Text.splitOn_intercalate hne fun n hn => (hns n hn).slash

theorem lead_ofPieces (hns : ∀ n ∈ ns, IsName n) (hne : ns ≠ []) :
    (ofPieces ns).parts.1 = .bare := by
  obtain ⟨n, ms, rfl⟩ := List.exists_cons_of_ne_nil hne
  have hn := hns n List.mem_cons_self
  rw [Path.parts_of_relative (splitOn_ofPieces hns hne) hn.ne_nil hn.ne_dot]

theorem isAbsolute_ofPieces (hns : ∀ n ∈ ns, IsName n) (hne : ns ≠ []) :
    (ofPieces ns).isAbsolute = false :=
  Path.isAbsolute_eq_false_iff.2 (by simp [lead_ofPieces hns hne])

/-- Names leave themselves in the paths found below them. -/
theorem front_ofPieces (hns : ∀ n ∈ ns, IsName n) (hne : ns ≠ []) : front (ofPieces ns) = ns := by
  rw [front, startFront, isAbsolute_ofPieces hns hne, if_neg (by simp), splitOn_ofPieces hns hne,
    Glob.foldl_grow fun n hn => Or.inr (hns n hn), List.nil_append, List.filter_eq_self]
  intro n hn
  simpa using (hns n hn).ne_nil

/-- A file below sixteen directories of one name, each in the one before. -/
def tower (n : Name) : Tree where
  workingDirectory := []
  entries := (List.range 16).map (fun k => (List.replicate (k + 1) n, .directory)) ++
    [(List.replicate 16 n ++ ["a.yml".toList], Tree.textFile "  k: yes\n")]

theorem lookup_map_of_mem {α : Type} {xs : List α} {x : α} (f : α → Location) (e : Entry)
    (h : x ∈ xs) : (xs.map fun y => (f y, e)).lookup (f x) = some e := by
  induction xs with
  | nil => simp at h
  | cons y xs ih =>
    rw [List.map_cons, List.lookup_cons]
    by_cases hy : f x = f y
    · simp [hy]
    · rw [beq_eq_false_iff_ne.2 hy]
      refine ih ((List.mem_cons.1 h).resolve_left ?_)
      rintro rfl
      exact hy rfl

theorem get?_tower (n : Name) {k : Nat} (hk : k ≤ 16) :
    (tower n).get? (List.replicate k n) = some .directory := by
  cases k with
  | zero => exact Tree.get?_nil _
  | succ k =>
    have hlevel : k ∈ List.range 16 := List.mem_range.2 (by omega)
    have hlookup := lookup_map_of_mem (fun k => List.replicate (k + 1) n) .directory hlevel
    rw [Tree.get?, if_neg (by simp), tower, List.lookup_append, hlookup]
    rfl

/-- Each level of the tower leads to the next one. -/
theorem walk_tower {n : Name} (hn : IsName n) (hlength : Text.byteLength n ≤ Tree.maxNameLength)
    {i j : Nat} (h : i + j ≤ 16) :
    (tower n).walk (List.replicate i n) (List.replicate j n) = .ok (List.replicate (i + j) n) := by
  induction j generalizing i with
  | zero => rfl
  | succ j ih =>
    have hnext : List.replicate i n ++ [n] = List.replicate (i + 1) n :=
      List.replicate_succ'.symm
    have hsome : ((tower n).get? (List.replicate i n ++ [n])).isSome := by
      rw [hnext, get?_tower n (by omega)]
      rfl
    rw [List.replicate_succ, Tree.walk_cons_of (get?_tower n (by omega)) fun _ _ => ⟨hlength, hsome⟩,
      Tree.follow_name hn.step hn.down, hnext, ih (by omega), Nat.add_right_comm, Nat.add_assoc]

section Tower

variable {n : Name}

theorem names_tower (hn : IsName n) : ∀ m ∈ List.replicate 16 n, IsName m :=
  fun _ hm => List.eq_of_mem_replicate hm ▸ hn

theorem named_tower (hn : IsName n) : (tower n).Named := by
  intro x hx m hm
  have hmem : m = n ∨ m = "a.yml".toList := by
    simp only [tower, List.map_append, List.map_map, List.mem_append, List.mem_map,
      Function.comp_apply, List.map_singleton, List.mem_singleton] at hx
    rcases hx with ⟨k, -, rfl⟩ | rfl
    · exact Or.inl (List.eq_of_mem_replicate hm)
    · rcases List.mem_append.1 hm with hm | hm
      · exact Or.inl (List.eq_of_mem_replicate hm)
      · exact Or.inr (List.mem_singleton.1 hm)
  rcases hmem with rfl | rfl
  · exact hn
  · decide

theorem resolve_tower (hn : IsName n) (hlength : Text.byteLength n ≤ Tree.maxNameLength)
    (hcheck : Tree.checkPath (ofPieces (List.replicate 16 n)) = .ok ()) :
    (tower n).resolve (ofPieces (List.replicate 16 n)) = .ok (List.replicate 16 n) := by
  rw [Tree.resolve_eq_ok_iff, Tree.start, isAbsolute_ofPieces (names_tower hn) (by simp),
    if_neg (by simp), splitOn_ofPieces (names_tower hn) (by simp)]
  exact ⟨hcheck, walk_tower (i := 0) hn hlength (by omega)⟩

theorem renamed_tower (n : Name) :
    (tower ['r']).renamed (List.replicate 16 ['r']) (List.replicate 16 n) = tower n := by
  rfl

theorem plainPattern_file : PlainPattern "a.yml" where
  reads := ⟨_, by cbv⟩
  components c hc := by
    obtain rfl : c = "a.yml".toList := by simpa [Text.splitOn] using hc
    exact ⟨⟨_, by cbv⟩, by decide⟩

theorem soughtAll_tower :
    soughtAll ((tower ['r']).view (List.replicate 16 ['r'])) ["a.yml"] [] = [["a.yml".toList]] := by
  cbv

/-- The file is listed if its path can be taken. -/
theorem discover_tower (hn : IsName n)
    (hroot : (tower n).resolve (ofPieces (List.replicate 16 n)) = .ok (List.replicate 16 n))
    (hview : (tower n).view (List.replicate 16 n) =
      (tower ['r']).view (List.replicate 16 ['r'])) :
    discover (tower n) (ofPieces (List.replicate 16 n)) ["a.yml"] [] =
      .ok (pathsOf (List.replicate 16 n) [["a.yml".toList]]) := by
  have hlead : (ofPieces (List.replicate 16 n)).parts.1 ≠ .here := by
    rw [lead_ofPieces (names_tower hn) (by simp)]
    simp
  have hplain : ∀ pattern ∈ ["a.yml"], PlainPattern pattern := by simpa using plainPattern_file
  have hex : compileExcludes [] = .ok [] := rfl
  rw [discover_below (named_tower hn) hroot hlead hplain hex, hview, soughtAll_tower,
    front_ofPieces (names_tower hn) (by simp)]

theorem not_dot_of_tower (hn : IsName n) :
    ∀ m ∈ Text.splitOn '/' (ofPieces (List.replicate 16 n)).text, m ≠ dot ∧ m ≠ dotDot := by
  intro m hm
  rw [splitOn_ofPieces (names_tower hn) (by simp)] at hm
  have hm' := names_tower hn m hm
  exact ⟨hm'.ne_dot, hm'.down⟩

end Tower

def longName : Name := List.replicate 255 'x'

theorem isName_longName : IsName longName := by decide

theorem checkPath_longName : Tree.checkPath (ofPieces (List.replicate 16 longName)) = .ok () := by
  decide +kernel

/-- With names of the greatest length the path of the file is too long to be taken. -/
theorem fits_longName : fits (List.replicate 16 longName) ["a.yml".toList] = false := by
  decide +kernel

theorem renames_longName :
    (tower ['r']).Renames (List.replicate 16 ['r']) (List.replicate 16 longName) := by
  have hnew : ∀ x ∈ (tower ['r']).entries.map Prod.fst, longName ∉ x := by decide
  refine Tree.renames_of_new (by simp) (names_tower isName_longName) ?_
  intro x hx n hn
  exact List.eq_of_mem_replicate hn ▸ hnew x hx

/-- Under sixteen names of the greatest length the file is not listed any more. -/
theorem discover_not_renamed :
    ¬ ∀ (t : Tree) (root root' : Path) (l l' : Location) (patterns exclude : List String),
      t.Named → t.Renames l l' → t.resolve root = .ok l →
      (t.renamed l l').resolve root' = .ok l' →
      (∀ n ∈ Text.splitOn '/' root.text, n ≠ dot ∧ n ≠ dotDot) →
      (∀ n ∈ Text.splitOn '/' root'.text, n ≠ dot ∧ n ≠ dotDot) →
      (∀ pattern ∈ patterns, ∀ c ∈ Text.splitOn '/' pattern.toList, c.head? ≠ some '.') →
      (∃ x text text',
        discover t root patterns exclude = .error (Failure.invalidPattern x text) ∧
        discover (t.renamed l l') root' patterns exclude =
          .error (Failure.invalidPattern x text')) ∨
      ∃ ps ps', discover t root patterns exclude = .ok ps ∧
        discover (t.renamed l l') root' patterns exclude = .ok ps' ∧
        ps.map (fun p => p.relativeTo root) = ps'.map (fun p => p.relativeTo root') := by
  intro h
  have hr : IsName ['r'] := by decide
  have hlength : Text.byteLength longName ≤ Tree.maxNameLength := by decide +kernel
  have hroot := resolve_tower hr (by decide) (by decide)
  have hroot' := resolve_tower isName_longName hlength checkPath_longName
  have hview := renames_longName.view_renamed
  rw [renamed_tower] at hview
  -- The same file is sought below both, but only the shorter path finds it.
  have hps := discover_tower hr hroot rfl
  have hps' := discover_tower isName_longName hroot' hview
  have hone : (pathsOf (List.replicate 16 ['r']) [["a.yml".toList]]).length = 1 := by decide
  have hnone : pathsOf (List.replicate 16 longName) [["a.yml".toList]] = [] := by
    rw [pathsOf, List.filter_cons_of_neg (by rw [fits_longName]; exact Bool.false_ne_true)]
    rfl
  rw [hnone] at hps'
  rcases h _ _ _ _ _ ["a.yml"] [] (named_tower hr) renames_longName hroot
    (renamed_tower longName ▸ hroot') (not_dot_of_tower hr) (not_dot_of_tower isName_longName)
    (by decide) with ⟨x, text, -, hfail, -⟩ | ⟨ps, ps', hok, hok', hsame⟩
  · exact absurd (hps.symm.trans hfail) (by simp)
  · rw [renamed_tower, hps', Except.ok.injEq] at hok'
    rw [hps, Except.ok.injEq] at hok
    subst hok hok'
    have hlengths := congrArg List.length hsame
    rw [List.length_map, hone] at hlengths
    simp at hlengths

end Discovery

end PlaybookTidy
