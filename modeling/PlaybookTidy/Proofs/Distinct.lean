import PlaybookTidy.Proofs.Relative
import PlaybookTidy.Proofs.Run.Batch

/-!
Whether a discovery lists a file twice. Two listed paths differ in their components, so they lead
to one file only if one of them leads up again below the root.
-/

namespace PlaybookTidy

namespace Path

variable {p root : Path} {more : List Name}

/-- After the steps of the root the path leads up. -/
def Climbs (root p : Path) : Prop := dotDot ∈ p.steps.drop root.steps.length

theorem climbs_iff (h : p.steps = root.steps ++ more) : root.Climbs p ↔ dotDot ∈ more := by
  rw [Climbs, h, List.drop_left]

end Path

namespace Glob

open PlaybookTidy.Path (dot dotDot)

variable {n : Name}

/-- A component of a pattern that finds the directory above: it begins with a dot and takes two. -/
def FindsParent (c : List Char) : Prop :=
  c.head? = some '.' ∧ ∃ ts, Glob.parse c = .ok ts ∧ accepts ts dotDot

/-- Of the two entries that begin with dots a component finds those it accepts, if it begins with a
dot itself. -/
theorem mem_dotEntries {ts : List Token} (h : n ∈ dotEntries ts) :
    (n = dotDot ∨ n = dot) ∧ accepts ts n ∧ ∃ rest, ts = .char '.' :: rest := by
  unfold dotEntries at h
  split at h
  · rename_i rest
    obtain ⟨hn, haccepts⟩ := List.mem_filter.1 h
    exact ⟨by simpa using hn, haccepts, rest, rfl⟩
  · simp at h

/-- A literal is written in its component, and finds the parent directory only by its name. -/
theorem literal_of_component {c : List Char} {ts : List Token} (hc : '/' ∉ c)
    (hts : Glob.parse c = .ok ts) (h : Segment.ofTokens ts = .literal n) :
    '/' ∉ n ∧ (n = dotDot → FindsParent c) := by
  have hchars : ts = n.map .char := by
    unfold Segment.ofTokens at h
    split at h
    · rename_i name hname
      obtain rfl := Segment.literal.inj h
      exact map_char_of_mapM hname
    · split at h <;> simp at h
  subst hchars
  have hreads := parse_eq_ok_iff.1 hts
  refine ⟨?_, ?_⟩
  · intro hmem
    exact hc (mem_of_reads hreads (List.mem_map_of_mem hmem))
  · rintro rfl
    exact ⟨head_of_reads hreads, _, hts, by decide⟩

/-- Wildcards find the parent directory only after a dot. -/
theorem findsParent_of_entry {c : List Char} {ts us : List Token} (hts : Glob.parse c = .ok ts)
    (h : Segment.ofTokens ts = .wild us) (hup : dotDot ∈ dotEntries us) : FindsParent c := by
  obtain rfl : ts = us := by
    unfold Segment.ofTokens at h
    split at h
    · simp at h
    · split at h
      · simp at h
      · exact Segment.wild.inj h
  obtain ⟨-, haccepts, rest, rfl⟩ := mem_dotEntries hup
  exact ⟨head_of_reads (parse_eq_ok_iff.1 hts), _, hts, haccepts⟩

end Glob

namespace Discovery

open PlaybookTidy.Path (dot dotDot isVoid IsName)
open Glob (child FindsParent)

variable {t : Tree} {root p q : Path} {more : List Name} {patterns exclude : List String}
  {ps : List Path}

/-- What holds of all paths that a search goes through below a root, by components `cs`: they keep
the steps of the root, a dot is left at the front only where nothing follows or the path leads up,
and it leads up only by a component that finds the parent directory. -/
structure Searched (root : Path) (cs : List Name) (p : Path) : Prop where
  absolute : p.isAbsolute = root.isAbsolute
  steps : root.steps <+: p.steps
  lead : p.parts.1 = .here → p.steps = [] ∨ root.Climbs p
  parent : root.Climbs p → ∃ c ∈ cs, FindsParent c

variable {cs : List Name} {n : Name}

/-- A path with one more name leads up where the one before did, or by that name. -/
theorem Searched.climbs_iff (h : Searched root cs p)
    (hsteps : q.steps = p.steps ++ [n].filter fun n => !isVoid n) :
    root.Climbs q ↔ root.Climbs p ∨ n = dotDot := by
  obtain ⟨rest, hrest⟩ := h.steps
  rw [← hrest, List.append_assoc] at hsteps
  rw [Path.climbs_iff hsteps, Path.climbs_iff hrest.symm, List.mem_append]
  have hone : dotDot ∈ [n].filter (fun n => !isVoid n) ↔ n = dotDot := by
    constructor
    · intro hmem
      exact (List.mem_singleton.1 (List.mem_filter.1 hmem).1).symm
    · rintro rfl
      simp
  rw [hone]

theorem Searched.extend (h : Searched root cs p) (habs : q.isAbsolute = p.isAbsolute)
    (hsteps : q.steps = p.steps ++ [n].filter fun n => !isVoid n)
    (hlead : q.parts.1 = .here → q.steps = [] ∨ root.Climbs p ∨ n = dotDot)
    (hup : n = dotDot → ∃ c ∈ cs, FindsParent c) : Searched root cs q where
  absolute := habs.trans h.absolute
  steps := hsteps ▸ h.steps.trans (List.prefix_append _ _)
  lead := by rwa [h.climbs_iff hsteps]
  parent := by
    rw [h.climbs_iff hsteps]
    rintro (hclimbs | hn)
    · exact h.parent hclimbs
    · exact hup hn

/-- Entering a name keeps what holds of the paths of a search. -/
theorem Searched.child (h : Searched root cs p) (hn : '/' ∉ n)
    (hup : n = dotDot → ∃ c ∈ cs, FindsParent c) : Searched root cs (child p n) := by
  refine h.extend (Glob.isAbsolute_child hn) (Glob.steps_child hn) ?_ hup
  intro hlead
  rcases Glob.lead_child hn hlead with hnil | ⟨hhere, hne⟩
  · exact Or.inl hnil
  · exact Or.inr (Or.inl ((h.lead hhere).resolve_left hne))

/-- Taking one of the two entries that begin with dots keeps what holds of the paths of a search. -/
theorem Searched.entry (h : Searched root cs p) (hn : n = dotDot ∨ n = dot)
    (hup : n = dotDot → ∃ c ∈ cs, FindsParent c) : Searched root cs (p.join ⟨n⟩) := by
  have hslash : '/' ∉ n := by rcases hn with rfl | rfl <;> decide
  have hrel := Path.isAbsolute_mk hslash
  have hsteps : (p.join ⟨n⟩).steps = p.steps ++ [n].filter fun n => !isVoid n := by
    rw [Path.steps_join hrel, Path.steps_mk hslash]
  refine h.extend (Path.isAbsolute_join hrel) hsteps ?_ hup
  intro hlead
  rcases hn with rfl | rfl
  · exact Or.inr (Or.inr rfl)
  · -- The dot adds no step, so the path still leads nowhere if it did before.
    have hsame : (p.join ⟨dot⟩).steps = p.steps := by simpa using hsteps
    rw [hsame]
    rcases Path.lead_join hslash hlead with hhere | ⟨hempty, -⟩
    · exact (h.lead hhere).imp_right Or.inl
    · exact Or.inl (by rw [Path.steps, hempty]; rfl)

/-- The search comes to the root itself first. -/
theorem searched_root {pattern : String} {ns : List Name} (hcut : Cut root pattern ns cs)
    (ds : List Name) : Searched root ds (ns.foldl child (searchStart root pattern)) := by
  have hnone := steps_searchStart root pattern
  have hpieces : ns.filter (fun n => !isVoid n) = root.steps := by
    have hfront := Glob.filter_foldl_grow ns (startFront root)
    rw [hcut.front, filter_front] at hfront
    rw [hfront, startFront]
    split <;> simp
  obtain ⟨hkept, hsteps, hlead⟩ := Glob.foldl_child hcut.slash fun _ => hnone
  rw [hnone, List.nil_append, hpieces] at hsteps
  refine ⟨hkept.trans hcut.isAbsolute_searchStart, hsteps ▸ List.prefix_rfl, fun h => Or.inl (hlead h), ?_⟩
  intro hclimbs
  rw [Path.Climbs, hsteps, List.drop_length] at hclimbs
  exact absurd hclimbs List.not_mem_nil

/-- The paths that a pattern finds below a root. -/
theorem searched_of_found (hnamed : t.Named) (hroot : root.text ≠ []) {pattern : String}
    (hp : p ∈ found t root pattern) : Searched root (Text.splitOn '/' pattern.toList) p := by
  unfold found at hp
  split at hp
  case h_2 => simp at hp
  case h_1 search hsearch =>
    obtain ⟨ns, cs, hcut⟩ := exists_cut hroot pattern
    obtain ⟨ts, all, -, hall, rfl⟩ := Glob.Search.parse_eq_ok_iff.1 hsearch
    rw [hcut.searched, List.mapM_append, Glob.mapM_escape] at hall
    obtain ⟨ss, hss, rfl⟩ := Glob.bind_ok (f := (ns.map Glob.quotedSegment ++ ·)) hall
    have hrun := (List.mem_filter.1 hp).1
    simp only [Glob.Search.run, Glob.collapse_append] at hrun
    have hafterRoot := Glob.expand_quoted_append hrun
    -- A segment was read from a component of the pattern.
    have hread : ∀ s ∈ Glob.Segment.collapse ss, ∃ c ∈ Text.splitOn '/' pattern.toList, ∃ ts,
        Glob.parse c = .ok ts ∧ Glob.Segment.ofTokens ts = s := by
      intro s hs
      obtain ⟨c, hc, hf⟩ := (mem_mapM_iff hss).1 (Glob.collapse_subset ss hs)
      cases hts : Glob.parse c with
      | error e => simp [hts, Except.map] at hf
      | ok ts => exact ⟨c, hcut.subset hc, ts, hts, by simpa [hts, Except.map] using hf⟩
    refine Glob.expand_induction hnamed ?_ ?_ ?_ ?_ hafterRoot
    · intro n r hn h
      obtain ⟨c, hc, ts, hts, hs⟩ := hread _ hn
      obtain ⟨hslash, hup⟩ := Glob.literal_of_component (Text.not_mem_of_mem_splitOn hc) hts hs
      exact h.child hslash fun hn => ⟨c, hc, hup hn⟩
    · intro us n r hus hn h
      obtain ⟨c, hc, ts, hts, hs⟩ := hread _ hus
      refine h.entry (Glob.mem_dotEntries hn).1 ?_
      rintro rfl
      exact ⟨c, hc, Glob.findsParent_of_entry hts hs hn⟩
    · intro n r hn h
      exact h.child hn.slash fun hup => absurd hup hn.down
    · exact searched_root hcut _

theorem steps_ne_nil_of_isFile (h : t.isFile p = true) : p.steps ≠ [] := by
  intro hnil
  obtain ⟨l, content, hl, hfile⟩ := Tree.isFile_iff.1 h
  rcases List.eq_nil_or_concat (Text.splitOn '/' p.text) with hcut | ⟨front, last, hcut⟩
  · exact Text.splitOn_ne_nil '/' p.text hcut
  · rw [List.concat_eq_append] at hcut
    have hv : isVoid last = true := by
      have hall := List.filter_eq_nil_iff.1 hnil last (by simp [hcut])
      simpa using hall
    rw [directory_of_void hv hcut hl] at hfile
    simp at hfile

/-- After the root a path that does not lead up names what lies below. -/
theorem Searched.exists_names (h : Searched root cs p) (hdown : ¬ root.Climbs p) :
    ∃ ns, p.steps = root.steps ++ ns ∧ ∀ n ∈ ns, IsName n := by
  obtain ⟨ns, hns⟩ := h.steps
  refine ⟨ns, hns.symm, ?_⟩
  rw [Path.climbs_iff hns.symm] at hdown
  intro n hn
  have hstep : n ∈ p.steps := hns ▸ List.mem_append_right _ hn
  obtain ⟨hpiece, hv⟩ := List.mem_filter.1 hstep
  refine ⟨by simpa using hv, ?_, Text.not_mem_of_mem_splitOn hpiece⟩
  rintro rfl
  exact hdown hn

/-- Two files below a root that are one have the same components, unless a path leads up. -/
theorem Searched.components_eq {ds : List Name} {t₁ t₂ : Tree} {l : Location}
    (hp : Searched root cs p) (hq : Searched root ds q) (hpfile : t.isFile p = true)
    (hqfile : t.isFile q = true) (hpdown : ¬ root.Climbs p) (hqdown : ¬ root.Climbs q)
    (hw : t₁.workingDirectory = t₂.workingDirectory) (hpl : t₁.resolve p = .ok l)
    (hql : t₂.resolve q = .ok l) : p.components = q.components := by
  have habs : p.isAbsolute = q.isAbsolute := hp.absolute.trans hq.absolute.symm
  have hstart : t₁.start p = t₂.start q := by rw [Tree.start, Tree.start, habs, hw]
  have hsteps : p.steps = q.steps := by
    obtain ⟨ns, hns, hnames⟩ := hp.exists_names hpdown
    obtain ⟨ms, hms, hnames'⟩ := hq.exists_names hqdown
    have hlocation := Tree.location_of_resolve hpl
    rw [Tree.location_of_resolve hql, hns, hms, List.foldl_append, List.foldl_append, hstart,
      foldl_follow_names hnames, foldl_follow_names hnames'] at hlocation
    rw [hns, hms, List.append_cancel_left hlocation]
  -- Neither has a dot at its front, so what is absolute tells the leads.
  have hphere : p.parts.1 ≠ .here := fun h =>
    (hp.lead h).elim (steps_ne_nil_of_isFile hpfile) hpdown
  have hqhere : q.parts.1 ≠ .here := fun h =>
    (hq.lead h).elim (steps_ne_nil_of_isFile hqfile) hqdown
  have hlead : p.parts.1 = q.parts.1 := by
    rw [Bool.eq_iff_iff, Path.isAbsolute_iff, Path.isAbsolute_iff] at habs
    cases hpl : p.parts.1 <;> cases hql : q.parts.1 <;> simp_all
  rw [Path.components_eq_steps, Path.components_eq_steps, hlead, hsteps]

/-- Paths that are added have components that no path before them has. -/
theorem pairwise_foldl_addNew {qs : List Path}
    (h : ps.Pairwise fun p q => p.components ≠ q.components) :
    (qs.foldl addNew ps).Pairwise fun p q => p.components ≠ q.components := by
  induction qs generalizing ps with
  | nil => exact h
  | cons r qs ih =>
    apply ih
    unfold addNew
    split
    · exact h
    · rename_i hnew
      rw [List.pairwise_append]
      refine ⟨h, List.pairwise_singleton _ _, ?_⟩
      intro p hp q hq
      obtain rfl := List.mem_singleton.1 hq
      exact fun heq => hnew (List.any_eq_true.2 ⟨p, hp, by simpa using heq⟩)

/-- The paths lead to one file in trees with the same working directory. -/
def Meet (p q : Path) : Prop :=
  ∃ (t₁ t₂ : Tree) (l : Location), t₁.workingDirectory = t₂.workingDirectory ∧
    t₁.resolve p = .ok l ∧ t₂.resolve q = .ok l

/-- Whatever a run does to the tree, it finds no file a second time. -/
theorem run_finds_once {fx : Fixer} {dryRun : Bool} {res : FixResult} {t' : Tree}
    (hps : ps.Pairwise fun p q => ¬ Meet p q) (h : fx.runFiles root dryRun ps t = (.ok res, t')) :
    ∃ trees, fx.Stages root dryRun ps t trees ∧
      (ps.zip trees).Pairwise fun a b => ∀ l, a.2.resolve a.1 = .ok l → b.2.resolve b.1 ≠ .ok l := by
  obtain ⟨os, hos, -⟩ := Fixer.runFiles_eq_ok h
  obtain ⟨trees, hstages, -⟩ := Fixer.outcomes_eq hos
  have hkept : ∀ tk ∈ trees, tk.workingDirectory = t.workingDirectory := by
    intro tk htk
    obtain ⟨k, hk⟩ := List.mem_iff_getElem?.1 htk
    obtain ⟨res', hres'⟩ := hstages.runs k tk hk
    exact Fixer.workingDirectory_of_runFiles hres'
  have hzip : ((ps.zip trees).map Prod.fst).Pairwise fun p q => ¬ Meet p q := by
    rwa [List.map_fst_zip hstages.length_eq.ge]
  refine ⟨trees, hstages, (List.pairwise_map.1 hzip).imp_of_mem ?_⟩
  intro a b ha hb hab l hla hlb
  have hwa := hkept _ (List.of_mem_zip ha).2
  have hwb := hkept _ (List.of_mem_zip hb).2
  exact hab ⟨a.2, b.2, l, hwa.trans hwb.symm, hla, hlb⟩

/-- Listed paths differ in their components. Two of them lead to one file only if one leads up below
the root, which takes a component of a pattern that finds the parent directory. Without such a
component no file is listed twice, and a run finds each file once. -/
theorem discover_distinct (hnamed : t.Named) (h : discover t root patterns exclude = .ok ps) :
    ps.Pairwise (fun p q => p.components ≠ q.components) ∧
    ps.Pairwise (fun p q => Meet p q → root.Climbs p ∨ root.Climbs q) ∧
    (∀ p ∈ ps, root.Climbs p →
      ∃ pattern ∈ patterns, ∃ c ∈ Text.splitOn '/' pattern.toList, FindsParent c) ∧
    ((∀ pattern ∈ patterns, ∀ c ∈ Text.splitOn '/' pattern.toList, ¬ FindsParent c) →
      ps.Pairwise (fun p q => ¬ Meet p q) ∧
      ∀ (fx : Fixer) (dryRun : Bool) (res : FixResult) (t' : Tree),
        fx.runFiles root dryRun ps t = (.ok res, t') →
        ∃ trees, fx.Stages root dryRun ps t trees ∧ (ps.zip trees).Pairwise fun a b =>
          ∀ l, a.2.resolve a.1 = .ok l → b.2.resolve b.1 ≠ .ok l) := by
  -- An empty root is searched as the root of the file system, which has no steps either.
  obtain ⟨top, htop, hsteps, hrooted⟩ := exists_root root
  have hclimbs : ∀ p, root.Climbs p ↔ top.Climbs p := by
    intro p
    rw [Path.Climbs, Path.Climbs, hsteps]
  have hsearched : ∀ p ∈ ps, ∃ pattern ∈ patterns,
      Searched top (Text.splitOn '/' pattern.toList) p := by
    intro p hp
    obtain ⟨ex, -, -, hlists⟩ := lists_of_discover h
    obtain ⟨-, pattern, hpattern, hfound⟩ := hlists.sound p hp
    rw [found, ← hrooted, ← found] at hfound
    exact ⟨pattern, hpattern, searched_of_found hnamed htop hfound⟩
  have hcomponents : ps.Pairwise fun p q => p.components ≠ q.components := by
    obtain ⟨ex, -, -, rfl⟩ := discover_eq_ok_iff.1 h
    exact pairwise_foldl_addNew List.Pairwise.nil
  have hmeet : ps.Pairwise fun p q => Meet p q → root.Climbs p ∨ root.Climbs q := by
    refine hcomponents.imp_of_mem ?_
    rintro p q hp hq hne ⟨t₁, t₂, l, hw, hpl, hql⟩
    obtain ⟨_, -, hps⟩ := hsearched p hp
    obtain ⟨_, -, hqs⟩ := hsearched q hq
    by_contra hnone
    rw [not_or, hclimbs, hclimbs] at hnone
    exact hne (hps.components_eq hqs (isFile_of_mem_discover h hp) (isFile_of_mem_discover h hq)
      hnone.1 hnone.2 hw hpl hql)
  have hparent : ∀ p ∈ ps, root.Climbs p →
      ∃ pattern ∈ patterns, ∃ c ∈ Text.splitOn '/' pattern.toList, FindsParent c := by
    intro p hp hup
    obtain ⟨pattern, hpattern, hs⟩ := hsearched p hp
    exact ⟨pattern, hpattern, hs.parent ((hclimbs p).1 hup)⟩
  refine ⟨hcomponents, hmeet, hparent, fun hnone => ?_⟩
  have hdown : ∀ p ∈ ps, ¬ root.Climbs p := by
    intro p hp hup
    obtain ⟨pattern, hpattern, c, hc, hfinds⟩ := hparent p hp hup
    exact hnone pattern hpattern c hc hfinds
  have hapart : ps.Pairwise fun p q => ¬ Meet p q := by
    refine hmeet.imp_of_mem ?_
    intro p q hp hq hup hpq
    exact (hup hpq).elim (hdown p hp) (hdown q hq)
  exact ⟨hapart, fun fx dryRun res t' hrun => run_finds_once hapart hrun⟩

/-- Two patterns that find one file, which is listed once. -/
theorem discover_distinct_overlapping :
    let root : Path := ⟨"r[1]".toList⟩
    let patterns := ["playbooks/*.yml", "./playbooks//a.*"]
    let ps : List Path := [⟨"r[1]/playbooks/a.yml".toList⟩, ⟨"r[1]/playbooks/b.yml".toList⟩]
    bracketed.Named ∧ discover bracketed root patterns [] = .ok ps ∧
      (∀ pattern ∈ patterns, ∀ c ∈ Text.splitOn '/' pattern.toList, ¬ FindsParent c) ∧
      ps.Pairwise fun p q => ¬ Meet p q := by
  intro root patterns ps
  have hps : discover bracketed root patterns [] = .ok ps := by cbv
  have hnone : ∀ pattern ∈ patterns, ∀ c ∈ Text.splitOn '/' pattern.toList, ¬ FindsParent c := by
    have honly : ∀ pattern ∈ patterns, ∀ c ∈ Text.splitOn '/' pattern.toList,
        c.head? = some '.' → c = dot := by decide
    have hdot : Glob.parse dot = .ok [.char '.'] := by cbv
    rintro pattern hpattern c hc ⟨hhead, ts, hts, haccepts⟩
    obtain rfl := honly pattern hpattern c hc hhead
    obtain rfl := Except.ok.inj (hdot.symm.trans hts)
    exact absurd haccepts (by decide)
  obtain ⟨-, -, -, hapart⟩ := discover_distinct named_bracketed hps
  exact ⟨named_bracketed, hps, hnone, (hapart hnone).1⟩

/-- By way of the parent directory a file is listed a second time. -/
theorem discover_not_distinct :
    ¬ ∀ (t : Tree) (root : Path) (patterns exclude : List String) (ps : List Path),
      t.Named → discover t root patterns exclude = .ok ps →
      ps.Pairwise fun p q => ∀ l, t.resolve p = .ok l → t.resolve q ≠ .ok l := by
  intro h
  have hps : discover bracketed ⟨"r[1]".toList⟩
      ["playbooks/a.yml", "playbooks/../playbooks/a.yml"] [] =
        .ok [⟨"r[1]/playbooks/a.yml".toList⟩, ⟨"r[1]/playbooks/../playbooks/a.yml".toList⟩] := by
    cbv
  have hpair := h bracketed _ _ _ _ named_bracketed hps
  have hfirst : bracketed.resolve ⟨"r[1]/playbooks/a.yml".toList⟩ =
      .ok ["r[1]".toList, "playbooks".toList, "a.yml".toList] := by cbv
  have hsecond : bracketed.resolve ⟨"r[1]/playbooks/../playbooks/a.yml".toList⟩ =
      .ok ["r[1]".toList, "playbooks".toList, "a.yml".toList] := by cbv
  exact (List.pairwise_cons.1 hpair).1 _ (List.mem_singleton_self _) _ hfirst hsecond

end Discovery

end PlaybookTidy
