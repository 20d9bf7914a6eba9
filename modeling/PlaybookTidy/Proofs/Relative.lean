import Mathlib
import PlaybookTidy.Proofs.Joined
import PlaybookTidy.Proofs.Rooted

/-!
Paths relative to a root. A path found below a root is told by the names below it, unless the root
begins with a dot and goes on: found paths lose that dot, so they are not below the root as it is
written, and are told whole.
-/

namespace PlaybookTidy

namespace Path

variable {p root : Path} {front ns : List Name}

def spelling (ns : List Name) : String :=
  String.ofList ((joinPieces ns).map fun c => if c = '\\' then '/' else c)

/-- The path begins with a dot and goes on. -/
def DotFirst (p : Path) : Prop := ∃ c cs, p.components = .here :: c :: cs

theorem trimmed_names (hns : ∀ n ∈ ns, IsName n) : trimmed ns = ns := by
  have hfirst : ns.dropWhile isVoid = ns := by
    cases ns with
    | nil => rfl
    | cons n ns => simp [(hns n List.mem_cons_self).step]
  rw [trimmed, hfirst]
  apply List.rdropWhile_eq_self_iff.2
  intro hl
  simp [(hns _ (List.getLast_mem hl)).step]

theorem below?_of_parts (hparts : p.parts = (root.parts.1, front ++ ns))
    (hfront : front.filter (fun n => !isVoid n) = root.steps) (hroot : root.text ≠ [])
    (hns : ∀ n ∈ ns, IsName n) : below? root p = some ⟨joinPieces ns⟩ := by
  rw [below?_of_cut hparts hfront hroot, trimmed_names hns]
  rfl

theorem relativeTo_of_below? {ns : List Name} (h : below? root p = some ⟨joinPieces ns⟩) :
    p.relativeTo root = spelling ns := by
  rw [relativeTo, h]
  rfl

/-- A path that is not below the root is told with all its pieces. -/
theorem relativeTo_of_not_below (h : ¬ root.components <+: p.components) {ps : List Name}
    (hps : Text.splitOn '/' p.text = ps) : p.relativeTo root = spelling ps := by
  have htext : p.text = joinPieces ps := by
    rw [← hps]
    exact (Text.intercalate_splitOn '/' p.text).symm
  rw [relativeTo_of_not_isPrefix h, htext]
  rfl

theorem length_spelling (ns : List Name) : (spelling ns).length = (joinPieces ns).length := by
  simp [spelling]

theorem length_joinPieces_lt (hfront : front ≠ []) (hns : ns ≠ []) :
    (joinPieces ns).length < (joinPieces (front ++ ns)).length := by
  induction front with
  | nil => exact absurd rfl hfront
  | cons n front ih =>
    have hcons : joinPieces (n :: (front ++ ns)) = n ++ '/' :: joinPieces (front ++ ns) :=
      joinPieces_cons (by simp [hns])
    rw [List.cons_append, hcons, List.length_append, List.length_cons]
    by_cases hnil : front = []
    · simp only [hnil, List.nil_append]
      omega
    · have hlt := ih hnil
      omega

/-- A root begins with a dot and goes on if it names the current directory and steps from there. -/
theorem dotFirst_iff : root.DotFirst ↔ root.parts.1 = .here ∧ root.steps ≠ [] := by
  unfold DotFirst
  rw [components_eq_steps]
  cases hlead : root.parts.1 with
  | root => simp [Lead.components]
  | here =>
    cases root.steps <;> simp [Lead.components]
  | bare =>
    have hne := fun n => (stepComponent_ne n).2
    cases root.steps <;> simp [Lead.components, hne]

end Path

namespace Discovery

open PlaybookTidy.Path (IsName dot isVoid spelling)

variable {p root : Path} {ns : List Name}

/-- A relative root leaves no lead in the paths found below it. -/
theorem parts_of_front (hrel : root.isAbsolute = false) (hns : ∀ n ∈ ns, IsName n) (hne : ns ≠ [])
    (hp : Text.splitOn '/' p.text = front root ++ ns) : p.parts = (.bare, front root ++ ns) := by
  have hnil := head_front_relative hrel
  have hdot := head_front_ne_dot root
  cases hfront : front root with
  | nil =>
    obtain ⟨n, rest, rfl⟩ := List.exists_cons_of_ne_nil hne
    have hn := hns n List.mem_cons_self
    rw [hfront] at hp
    exact Path.parts_of_relative hp hn.ne_nil hn.ne_dot
  | cons n rest =>
    rw [hfront] at hp hnil hdot
    exact Path.parts_of_relative hp (by simpa using hnil) (by simpa using hdot)

/-- What stands before the names below a root where paths are told: nothing, but for a root that
begins with a dot all that it says after the dot. -/
def leading (root : Path) : List Name := if root.parts.1 = .here then front root else []

/-- Nothing stands before the names below a root unless it begins with a dot. -/
theorem leading_eq_nil_iff : leading root = [] ↔ ¬ root.DotFirst := by
  rw [Path.dotFirst_iff, leading]
  by_cases hlead : root.parts.1 = .here
  · have hrel : root.isAbsolute = false := Path.isAbsolute_eq_false_iff.2 (by simp [hlead])
    have hfilter := filter_front root
    have hnil := head_front_relative hrel
    have hdot := head_front_ne_dot root
    simp only [hlead, if_true, true_and, not_not, ← hfilter]
    constructor
    · intro h
      rw [h]
      rfl
    · intro h
      -- If the front begins with anything, it is a step, so without steps it is empty.
      cases hfront : front root with
      | nil => rfl
      | cons n rest =>
        rw [hfront] at hnil hdot h
        have hv : isVoid n = false := by
          simp only [List.head?_cons, ne_eq, Option.some.injEq] at hnil hdot
          simp [isVoid, hnil, hdot]
        simp [hv] at h
  · simp [hlead]

/-- How the path of a file found below a root is told. -/
theorem relativeTo_eq (hroot : root.text ≠ []) (hns : ∀ n ∈ ns, IsName n) (hne : ns ≠ [])
    (hp : Text.splitOn '/' p.text = front root ++ ns) :
    p.relativeTo root = spelling (leading root ++ ns) := by
  have hbelow : ∀ rest : List Name, p.parts = (root.parts.1, rest ++ ns) →
      rest.filter (fun n => !isVoid n) = root.steps → p.relativeTo root = spelling ns := by
    intro rest hparts hsteps
    exact Path.relativeTo_of_below? (Path.below?_of_parts hparts hsteps hroot hns)
  have hrelative : root.parts.1 ≠ .root → root.isAbsolute = false :=
    Path.isAbsolute_eq_false_iff.2
  unfold leading
  cases hlead : root.parts.1 with
  | root =>
    -- The first piece of an absolute path is empty and is its lead.
    obtain ⟨rest, hrest⟩ := List.head?_eq_some_iff.1
      (head_front_absolute (Path.isAbsolute_iff.2 hlead))
    have hsteps := filter_front root
    rw [hrest] at hp hsteps
    have hparts : p.parts = (root.parts.1, rest ++ ns) := by
      rw [hlead]
      exact Path.parts_of_absolute hp (by simp [hne])
    simpa using hbelow rest hparts (by simpa using hsteps)
  | bare =>
    have hparts : p.parts = (root.parts.1, front root ++ ns) := by
      rw [hlead]
      exact parts_of_front (hrelative (by simp [hlead])) hns hne hp
    simpa using hbelow (front root) hparts (filter_front root)
  | here =>
    have hparts := parts_of_front (hrelative (by simp [hlead])) hns hne hp
    -- The found path has lost the dot with which the root begins.
    have hnot : ¬ root.components <+: p.components := by
      intro hprefix
      obtain ⟨first, rest, hcut, -⟩ := Path.exists_cut_of_isPrefix hprefix hroot
      rw [hparts, hlead] at hcut
      simp at hcut
    simpa using Path.relativeTo_of_not_below hnot hp

/-- Without what stands before them, names below a root are told alike. -/
theorem spelling_leading_iff (hne : ns ≠ []) :
    spelling (leading root ++ ns) = spelling ns ↔ ¬ root.DotFirst := by
  rw [← leading_eq_nil_iff]
  constructor
  · intro h
    by_contra hlong
    have hlength := Path.length_joinPieces_lt hlong hne
    have hlen := congrArg String.length h
    rw [Path.length_spelling, Path.length_spelling] at hlen
    omega
  · intro h
    rw [h, List.nil_append]

/-- A path whose last piece says nothing leads to a directory. -/
theorem directory_of_void {t : Tree} {l : Location} {n : Name} (hn : isVoid n = true)
    (hp : Text.splitOn '/' p.text = ns ++ [n]) (hl : t.resolve p = .ok l) :
    t.get? l = some .directory := by
  have hwalk := (Tree.resolve_eq_ok_iff.1 hl).2
  rw [hp] at hwalk
  obtain ⟨hdir, hlast, -⟩ := Tree.walk_cons (Tree.walk_append hwalk).2
  obtain rfl : ns.foldl Tree.follow (t.start p) = l := by
    simpa [Tree.follow, hn, Tree.walk] using hlast
  exact hdir

/-- The path of a file ends with a name, so its pieces are those that it spells. -/
theorem splitOn_of_file {t : Tree} {l : Location} {c : ByteArray} {front : List Name}
    (hspells : Glob.Spells front p) (hl : t.resolve p = .ok l) (hc : t.get? l = some (.file c)) :
    Text.splitOn '/' p.text = front ∧ front ≠ [[]] := by
  -- A path to a file ends neither with a slash nor with a dot.
  have hlast : ∀ (rest : List Name) (n : Name), Text.splitOn '/' p.text = rest ++ [n] →
      isVoid n = false := by
    intro rest n hcut
    rw [Bool.eq_false_iff]
    intro hv
    rw [directory_of_void hv hcut hl] at hc
    simp at hc
  have hsome : front ≠ [] := by
    intro hnil
    rcases hspells.text with ⟨-, hempty | hhere⟩ | ⟨hne, -⟩ | ⟨hne, -⟩
    · have hv := hlast [] [] (by rw [hempty]; rfl)
      simp at hv
    · have hv := hlast [] dot (by rw [hhere]; rfl)
      simp at hv
    · exact hne hnil
    · exact hne hnil
  have hcut : Text.splitOn '/' p.text = front := by
    rcases hspells.splitOn hsome with hslash | hcut
    · have hv := hlast _ _ hslash
      simp at hv
    · exact hcut
  refine ⟨hcut, ?_⟩
  intro hempty
  have hv := hlast [] [] (hcut.trans hempty)
  simp at hv

theorem foldl_follow_names (hns : ∀ n ∈ ns, IsName n) (l : Location) :
    ns.foldl Tree.follow l = l ++ ns := by
  induction ns generalizing l with
  | nil => simp
  | cons n ns ih =>
    rw [List.forall_mem_cons] at hns
    rw [List.foldl_cons, ih hns.2, Tree.follow_name hns.1.step hns.1.down]
    simp

theorem isAbsolute_of_front (hns : ∀ n ∈ ns, IsName n)
    (hp : Text.splitOn '/' p.text = front root ++ ns) (hlong : front root ++ ns ≠ [[]]) :
    p.isAbsolute = root.isAbsolute := by
  -- The first piece tells: it is that of the root or, after an empty front, a name.
  cases habs : root.isAbsolute with
  | true =>
    obtain ⟨rest, hrest⟩ := List.head?_eq_some_iff.1 (head_front_absolute habs)
    rw [hrest] at hp hlong
    have hne : rest ++ ns ≠ [] := by
      intro h
      exact hlong (by rw [List.cons_append, h])
    rw [Path.isAbsolute_iff, Path.parts_of_absolute hp hne]
  | false =>
    rw [Bool.eq_false_iff]
    intro h
    have hnil := head_front_relative habs
    obtain ⟨s, -, hs⟩ := Path.splitOn_absolute h
    rw [hp] at hs
    cases hfront : front root with
    | nil =>
      rw [hfront, List.nil_append] at hs
      exact (hns [] (by simp [hs])).ne_nil rfl
    | cons n rest =>
      rw [hfront] at hs hnil
      exact hnil (congrArg some (List.cons.inj hs).1)

theorem text_ne_nil_of_resolve {t : Tree} {l : Location} (h : t.resolve p = .ok l) :
    p.text ≠ [] := by
  intro htext
  have hcheck := (Tree.resolve_eq_ok_iff.1 h).1
  simp [Tree.checkPath, htext] at hcheck

/-- Every file that a plain pattern finds lies below the root. -/
theorem found_below {t : Tree} {l : Location} (hnamed : t.Named) (hroot : t.resolve root = .ok l)
    (hdir : t.get? l = some .directory) {pattern : String} (hpat : PlainPattern pattern)
    (hp : p ∈ found t root pattern) :
    ∃ ns, ns ≠ [] ∧ t.resolve p = .ok (l ++ ns) ∧
      p.relativeTo root = spelling (leading root ++ ns) := by
  have htext := text_ne_nil_of_resolve hroot
  obtain ⟨s, hs, hrun⟩ := run_rooted hnamed htext hpat
  simp only [found, hs] at hp
  obtain ⟨hmem, hfile⟩ := List.mem_filter.1 hp
  obtain ⟨ns, hns, hspells⟩ := hrun p hmem
  obtain ⟨k, c, hk, hc⟩ := Tree.isFile_iff.1 hfile
  obtain ⟨hcut, hlong⟩ := splitOn_of_file hspells hk hc
  have hstart : t.start p = t.start root := by
    simp only [Tree.start, isAbsolute_of_front hns hcut hlong]
  -- The steps of the path are those of the root, followed by the names.
  have hlocation : k = l ++ ns := by
    rw [Tree.location_of_resolve hk, Tree.location_of_resolve hroot, hstart, Path.steps, hcut,
      List.filter_append, filter_front, Path.filter_names hns, List.foldl_append,
      foldl_follow_names hns]
  have hne : ns ≠ [] := by
    intro hnil
    rw [hlocation, hnil, List.append_nil, hdir] at hc
    simp at hc
  exact ⟨ns, hne, hlocation ▸ hk, relativeTo_eq htext hns hne hcut⟩

theorem compileExcludes_eq {exclude : List String}
    (h : ∀ e ∈ exclude, ∃ ts, Glob.parse e.toList = .ok ts) :
    ∃ ex, compileExcludes exclude = .ok ex ∧
      ∀ ts, ts ∈ ex ↔ ∃ e ∈ exclude, Glob.parse e.toList = .ok ts := by
  induction exclude with
  | nil => exact ⟨[], rfl, by simp⟩
  | cons e exclude ih =>
    rw [List.forall_mem_cons] at h
    obtain ⟨ts, hts⟩ := h.1
    obtain ⟨ex, hex, hmem⟩ := ih h.2
    unfold compileExcludes at hex ⊢
    refine ⟨ts :: ex, ?_, ?_⟩
    · rw [List.mapM_cons, hex, hts]
      rfl
    · intro us
      simp [hmem, hts, eq_comm]

theorem excluded_eq_false_iff {exclude : List String} {ex : List (List Glob.Token)}
    (hmem : ∀ ts, ts ∈ ex ↔ ∃ e ∈ exclude, Glob.parse e.toList = .ok ts) :
    excluded root ex p = false ↔ ∀ e ∈ exclude, ∀ ts, Glob.parse e.toList = .ok ts →
      Glob.accepts ts (p.relativeTo root).toList = false := by
  simp only [excluded, List.any_eq_false, hmem, Bool.not_eq_true]
  constructor
  · intro h e he ts hts
    exact h ts ⟨e, he, hts⟩
  · rintro h ts ⟨e, he, hts⟩
    exact h e he ts hts

/-- Paths below a root are reported and excluded by their names, with what the root says after a
dot at its front before them: by the names below it unless it begins with a dot and goes on. -/
theorem discover_relative {t : Tree} {l : Location} {patterns exclude : List String}
    (hnamed : t.Named) (hroot : t.resolve root = .ok l) (hdir : t.get? l = some .directory)
    (hpatterns : ∀ pattern ∈ patterns, PlainPattern pattern)
    (hexclude : ∀ e ∈ exclude, ∃ ts, Glob.parse e.toList = .ok ts) :
    ∃ ps, discover t root patterns exclude = .ok ps ∧
      (∀ p ∈ ps, ∃ ns, ns ≠ [] ∧ t.resolve p = .ok (l ++ ns) ∧
        p.relativeTo root = spelling (leading root ++ ns)) ∧
      (∀ ns, (∃ p ∈ ps, t.resolve p = .ok (l ++ ns)) ↔
        (∃ pattern ∈ patterns, ∃ cs, candidates t root pattern = .ok cs ∧
          ∃ p ∈ cs, t.resolve p = .ok (l ++ ns)) ∧
        ∀ e ∈ exclude, ∀ ts, Glob.parse e.toList = .ok ts →
          Glob.accepts ts (spelling (leading root ++ ns)).toList = false) ∧
      ∀ ns, ns ≠ [] → (spelling (leading root ++ ns) = spelling ns ↔ ¬ root.DotFirst) := by
  have htext := text_ne_nil_of_resolve hroot
  obtain ⟨ex, hex, hmem⟩ := compileExcludes_eq hexclude
  have hparse : ∀ pattern ∈ patterns, ∃ s, Glob.Search.parse (rooted root pattern) = .ok s := by
    intro pattern hpattern
    obtain ⟨s, hs, -⟩ := run_rooted hnamed htext (hpatterns pattern hpattern)
    exact ⟨s, hs⟩
  obtain ⟨ps, hps, hlists⟩ := exists_discover (t := t) hex hparse
  have hbelow := fun pattern hpattern {p} =>
    found_below (p := p) hnamed hroot hdir (hpatterns pattern hpattern)
  have htold : ∀ pattern ∈ patterns, ∀ p ∈ found t root pattern, ∀ ns,
      t.resolve p = .ok (l ++ ns) → p.relativeTo root = spelling (leading root ++ ns) := by
    intro pattern hpattern p hp ns hl
    obtain ⟨ms, -, hms, htold⟩ := hbelow pattern hpattern hp
    obtain rfl : ns = ms := by simpa [hl] using hms
    exact htold
  refine ⟨ps, hps, ?_, ?_, fun ns => spelling_leading_iff⟩
  · intro p hp
    obtain ⟨-, pattern, hpattern, hfound⟩ := hlists.sound p hp
    exact hbelow pattern hpattern hfound
  · intro ns
    constructor
    · rintro ⟨p, hp, hl⟩
      obtain ⟨hkept, pattern, hpattern, hfound⟩ := hlists.sound p hp
      obtain ⟨s, hs⟩ := hparse pattern hpattern
      rw [excluded_eq_false_iff hmem, htold pattern hpattern p hfound ns hl] at hkept
      exact ⟨⟨pattern, hpattern, _, candidates_eq t root pattern hs, p, hfound, hl⟩, hkept⟩
    · rintro ⟨⟨pattern, hpattern, cs, hcs, p, hp, hl⟩, hkept⟩
      obtain ⟨s, hs⟩ := hparse pattern hpattern
      obtain rfl : found t root pattern = cs := by
        simpa [candidates_eq t root pattern hs] using hcs
      rw [← htold pattern hpattern p hp ns hl, ← excluded_eq_false_iff hmem] at hkept
      -- The listed path may be spelled another way, but it leads to the same file.
      obtain ⟨q, hq, hcomp⟩ := hlists.complete pattern p hpattern hp hkept
      obtain ⟨-, pattern', hpattern', hfound⟩ := hlists.sound q hq
      obtain ⟨ms, -, hms, -⟩ := hbelow pattern' hpattern' hfound
      refine ⟨q, hq, ?_⟩
      rw [hms, Tree.location_of_components hcomp hms hl]

/-- A root whose name has brackets, and two playbooks. -/
def bracketed : Tree where
  workingDirectory := []
  entries := [(["r[1]".toList], .directory), (["r[1]".toList, "playbooks".toList], .directory),
    (["r[1]".toList, "playbooks".toList, "a.yml".toList], Tree.textFile "  k: yes\n"),
    (["r[1]".toList, "playbooks".toList, "b.yml".toList], Tree.textFile "  k: yes\n")]

theorem named_bracketed : bracketed.Named := by decide

theorem plainPattern_playbooks : PlainPattern "playbooks/*.yml" where
  reads := ⟨_, by cbv⟩
  components c hc := by
    have hcut : Text.splitOn '/' "playbooks/*.yml".toList =
        ["playbooks".toList, "*.yml".toList] := by cbv
    rw [hcut, List.mem_cons, List.mem_singleton] at hc
    rcases hc with rfl | rfl
    · exact ⟨⟨_, by cbv⟩, by decide⟩
    · exact ⟨⟨_, by cbv⟩, by decide⟩

theorem plain_patterns : ∀ pattern ∈ ["playbooks/*.yml"], PlainPattern pattern := by
  simpa using plainPattern_playbooks

theorem parse_second :
    Glob.parse "playbooks/b.yml".toList = .ok ("playbooks/b.yml".toList.map Glob.Token.char) := by
  cbv

theorem parse_excludes : ∀ e ∈ ["playbooks/b.yml"], ∃ ts, Glob.parse e.toList = .ok ts := by
  simpa only [List.forall_mem_singleton] using ⟨_, parse_second⟩

/-- The exclude takes the second playbook away, however the root goes on in place. -/
theorem discover_relative_bracketed :
    bracketed.Named ∧ bracketed.resolve ⟨"r[1]/.".toList⟩ = .ok ["r[1]".toList] ∧
      bracketed.get? ["r[1]".toList] = some .directory ∧
      (∀ pattern ∈ ["playbooks/*.yml"], PlainPattern pattern) ∧
      (∀ e ∈ ["playbooks/b.yml"], ∃ ts, Glob.parse e.toList = .ok ts) ∧
      ∃ ps, discover bracketed ⟨"r[1]/.".toList⟩ ["playbooks/*.yml"] ["playbooks/b.yml"] = .ok ps ∧
        (∃ p ∈ ps, bracketed.resolve p =
          .ok (["r[1]".toList] ++ ["playbooks".toList, "a.yml".toList])) ∧
        ¬ ∃ p ∈ ps, bracketed.resolve p =
          .ok (["r[1]".toList] ++ ["playbooks".toList, "b.yml".toList]) := by
  have hroot : bracketed.resolve ⟨"r[1]/.".toList⟩ = .ok ["r[1]".toList] := by cbv
  have hdir : bracketed.get? ["r[1]".toList] = some .directory := by cbv
  have hleading : leading ⟨"r[1]/.".toList⟩ = [] := by cbv
  have hcandidates : candidates bracketed ⟨"r[1]/.".toList⟩ "playbooks/*.yml" =
      .ok [⟨"r[1]/./playbooks/a.yml".toList⟩, ⟨"r[1]/./playbooks/b.yml".toList⟩] := by cbv
  have hfirst : bracketed.resolve ⟨"r[1]/./playbooks/a.yml".toList⟩ =
      .ok (["r[1]".toList] ++ ["playbooks".toList, "a.yml".toList]) := by cbv
  have hkept : ∀ e ∈ ["playbooks/b.yml"], ∀ ts, Glob.parse e.toList = .ok ts →
      Glob.accepts ts (spelling ["playbooks".toList, "a.yml".toList]).toList = false := by
    intro e he ts hts
    obtain rfl : e = "playbooks/b.yml" := by simpa using he
    obtain rfl := Except.ok.inj (parse_second.symm.trans hts)
    decide
  obtain ⟨ps, hps, -, hlisted, -⟩ :=
    discover_relative named_bracketed hroot hdir plain_patterns parse_excludes
  rw [hleading] at hlisted
  refine ⟨named_bracketed, hroot, hdir, plain_patterns, parse_excludes, ps, hps, ?_, ?_⟩
  · rw [hlisted]
    exact ⟨⟨_, List.mem_singleton_self _, _, hcandidates, _, List.mem_cons_self, hfirst⟩, hkept⟩
  · rw [hlisted]
    rintro ⟨-, hkept⟩
    have hfree := hkept "playbooks/b.yml" (by simp) _ parse_second
    revert hfree
    decide

/-- With a dot before the root, an excluded file is listed and reported by the path from above. -/
theorem discover_not_relative :
    ¬ ∀ (t : Tree) (root : Path) (l : Location) (patterns exclude : List String) (ps : List Path),
      t.Named → t.resolve root = .ok l → t.get? l = some .directory →
      (∀ pattern ∈ patterns, PlainPattern pattern) →
      (∀ e ∈ exclude, ∃ ts, Glob.parse e.toList = .ok ts) →
      discover t root patterns exclude = .ok ps → ∀ p ∈ ps, ∀ ns, t.resolve p = .ok (l ++ ns) →
        p.relativeTo root = spelling ns ∧
          ∀ e ∈ exclude, ∀ ts, Glob.parse e.toList = .ok ts →
            Glob.accepts ts (spelling ns).toList = false := by
  intro h
  have hroot : bracketed.resolve ⟨"./r[1]".toList⟩ = .ok ["r[1]".toList] := by cbv
  have hdir : bracketed.get? ["r[1]".toList] = some .directory := by cbv
  have hps : discover bracketed ⟨"./r[1]".toList⟩ ["playbooks/*.yml"] ["playbooks/b.yml"] =
      .ok [⟨"r[1]/playbooks/a.yml".toList⟩, ⟨"r[1]/playbooks/b.yml".toList⟩] := by cbv
  have hsecond : bracketed.resolve ⟨"r[1]/playbooks/b.yml".toList⟩ =
      .ok (["r[1]".toList] ++ ["playbooks".toList, "b.yml".toList]) := by cbv
  obtain ⟨-, hkept⟩ := h bracketed _ _ _ _ _ named_bracketed hroot hdir plain_patterns
    parse_excludes hps _ (by simp) _ hsecond
  have hfree := hkept "playbooks/b.yml" (by simp) _ parse_second
  revert hfree
  decide

end Discovery

end PlaybookTidy
