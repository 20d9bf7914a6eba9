import PlaybookTidy.Proofs.Run.Spared

/-!
Dry runs. A dry run says what the real one will do, as long as no file is in the way of a later
one: each file is read in the tree as it was before the run.
-/

namespace PlaybookTidy

/-- The same with nothing applied. -/
def FileReport.dry (r : FileReport) : FileReport := { r with applied := false }

def Outcome.dry : Outcome → Outcome
  | .report r => .report r.dry
  | .skip s => .skip s

def FixResult.dry (r : FixResult) : FixResult :=
  { r with dryRun := true, files := r.files.map FileReport.dry }

namespace Outcome

theorem filterMap_report?_dry (os : List Outcome) :
    (os.map Outcome.dry).filterMap Outcome.report? =
      (os.filterMap Outcome.report?).map FileReport.dry := by
  rw [List.filterMap_map, List.map_filterMap]
  apply List.filterMap_congr
  intro o _
  cases o <;> rfl

theorem filterMap_skip?_dry (os : List Outcome) :
    (os.map Outcome.dry).filterMap Outcome.skip? = os.filterMap Outcome.skip? := by
  rw [List.filterMap_map]
  apply List.filterMap_congr
  intro o _
  cases o <;> rfl

/-- Nothing in a summary tells whether anything was applied. -/
theorem ofOutcomes_dry (os : List Outcome) :
    Summary.ofOutcomes (os.map Outcome.dry) = Summary.ofOutcomes os := by
  unfold Summary.ofOutcomes
  simp only [filterMap_report?_dry, filterMap_skip?_dry, List.length_map, List.countP_map,
    List.foldl_map]
  rfl

end Outcome

namespace Fixer

open PlaybookTidy.Tree (textFile tempLocation SameAt)

variable {fx : Fixer} {root p q : Path} {t t' : Tree} {ps : List Path} {o : Outcome}
  {os : List Outcome}

/-- A dry visit says what it finds and leaves the tree alone. -/
theorem visit_dry (fx : Fixer) (root p : Path) (t : Tree) :
    fx.visit root true p t = (.ok (fx.outcome root true t p), t) := by
  cases hread : t.readText p with
  | error e => rw [outcome_of_error hread, visit_of_error hread]
  | ok s =>
    rw [outcome_of_readText hread]
    by_cases hs : (fx.fixText s).1 = s
    · simp [visit_of_settled hread hs, hs]
    · simp [visit, hread, rewriteFile, hs, Except.map]

theorem visitAll_dry (fx : Fixer) (root : Path) (ps : List Path) (t : Tree) :
    fx.visitAll root true ps t = (.ok (ps.map (fx.outcome root true t)), t) := by
  induction ps with
  | nil => rfl
  | cons p ps ih => simp only [visitAll, visit_dry, ih, Except.map, List.map_cons]

/-- A dry run says of each file what it finds in the tree as it was. -/
theorem runFiles_dry (fx : Fixer) (root : Path) (ps : List Path) (t : Tree) :
    fx.runFiles root true ps t =
      (.ok (fx.resultOf root true (ps.map (fx.outcome root true t))), t) := by
  simp only [runFiles_eq, visitAll_dry, Except.map]

/-- A dry run changes nothing, however it ends. -/
theorem snd_run_dry (fx : Fixer) (root : Path) (d : Defaults) (t : Tree) :
    (fx.run root d true t).2 = t := by
  unfold run
  cases Discovery.discover t root d.patterns d.exclude with
  | error e => rfl
  | ok ps => simp only [runFiles_dry]

/-- What a dry run says of a file is what the real one would say, with nothing applied. -/
theorem outcome_dry (fx : Fixer) (root : Path) (t : Tree) (p : Path) :
    fx.outcome root true t p = (fx.outcome root false t p).dry := by
  cases hread : t.readText p with
  | error e =>
    rw [outcome_of_error hread, outcome_of_error hread]
    rfl
  | ok s =>
    rw [outcome_of_readText hread, outcome_of_readText hread]
    simp [Outcome.dry, FileReport.dry]

theorem resultOf_dry (fx : Fixer) (root : Path) (os : List Outcome) :
    fx.resultOf root true (os.map Outcome.dry) = (fx.resultOf root false os).dry := by
  simp only [resultOf, FixResult.dry, Outcome.filterMap_report?_dry,
    Outcome.filterMap_skip?_dry, Outcome.ofOutcomes_dry]

/-- Every change is applied unless the run is dry. -/
theorem applied_of_outcome {dryRun : Bool} {r : FileReport}
    (h : r ∈ (ps.map (fx.outcome root dryRun t)).filterMap Outcome.report?) :
    r.applied = (r.changed && !dryRun) := by
  obtain ⟨o, ho, hr⟩ := List.mem_filterMap.1 h
  obtain ⟨p, -, rfl⟩ := List.mem_map.1 ho
  cases hread : t.readText p with
  | error e => simp [outcome_of_error hread, Outcome.report?] at hr
  | ok s =>
    simp only [outcome_of_readText hread, Outcome.report?, Option.some.injEq] at hr
    rw [← hr]

theorem runFiles_crowded :
    truthyOnly.runFiles ⟨Path.dot⟩ false
      [⟨"playbooks/a.yml".toList⟩, ⟨"playbooks/b.yml".toList⟩, ⟨"playbooks".toList⟩] crowded =
      (.ok (truthyOnly.resultOf ⟨Path.dot⟩ false
        [.report ⟨"playbooks/a.yml", true, true, { truthy := 1 }⟩,
          .skip ⟨"playbooks/b.yml", "No such file or directory (os error 2)"⟩,
          .skip ⟨"playbooks", "Is a directory (os error 21)"⟩]), crowdedAfter) := by
  cbv

/-- Replacing the first file takes away the file by which the second path comes. -/
theorem runFiles_below_temporary :
    truthyOnly.runFiles ⟨Path.dot⟩ false
      [⟨"playbooks/a.yml".toList⟩, ⟨"playbooks/.a.yml.tmp/b.yml".toList⟩] crowded =
      (.ok (truthyOnly.resultOf ⟨Path.dot⟩ false
        [.report ⟨"playbooks/a.yml", true, true, { truthy := 1 }⟩,
          .skip ⟨"playbooks/.a.yml.tmp/b.yml", "No such file or directory (os error 2)"⟩]),
        crowdedAfter) := by
  cbv

/-- What two runs over the same paths skip: the same files in the same order, each for the same
reason unless its path is hindered. -/
inductive SkipsAlike (root : Path) (hindered : Path → Prop) :
    List Path → List SkippedFile → List SkippedFile → Prop
  | nil : SkipsAlike root hindered [] [] []
  | report {p : Path} {ps : List Path} {ss ss' : List SkippedFile} :
      SkipsAlike root hindered ps ss ss' → SkipsAlike root hindered (p :: ps) ss ss'
  | skip {p : Path} {ps : List Path} {ss ss' : List SkippedFile} {reason reason' : String} :
      (reason = reason' ∨ hindered p) → SkipsAlike root hindered ps ss ss' →
      SkipsAlike root hindered (p :: ps) (⟨p.relativeTo root, reason⟩ :: ss)
        (⟨p.relativeTo root, reason'⟩ :: ss')

/-- A run that ends well skips the files that a dry run skips, and for the reasons that it gives but
for paths that are hindered. -/
theorem skipsAlike_of_visitAll (hps : ps.Pairwise t.Spares)
    (h : fx.visitAll root false ps t = (.ok os, t')) :
    SkipsAlike root (t.Hindered ps) ps
      ((ps.map (fx.outcome root true t)).filterMap Outcome.skip?)
      (os.filterMap Outcome.skip?) := by
  have hsame := outcomes_of_visitAll hps h
  -- Which paths are hindered depends on all of them, and stays as the induction takes them one by
  -- one.
  generalize t.Hindered ps = hindered at hsame ⊢
  clear hps h
  induction hsame with
  | nil => exact .nil
  | @cons o q os qs hone _ ih =>
    obtain ⟨hsilent, hreason⟩ := hone
    cases hread : t.readText q with
    | ok s =>
      rw [outcome_of_readText hread] at hsilent
      obtain ⟨r, rfl⟩ : ∃ r, o = .report r := by
        cases o with
        | report r => exact ⟨r, rfl⟩
        | skip s' => simp [Outcome.silent] at hsilent
      rw [List.map_cons, outcome_of_readText hread]
      exact .report ih
    | error e =>
      rw [outcome_of_error hread] at hsilent hreason
      obtain ⟨reason, rfl⟩ : ∃ reason, o = .skip ⟨q.relativeTo root, reason⟩ := by
        cases o with
        | report r => simp [Outcome.silent] at hsilent
        | skip s' =>
          have hfile : s'.file = q.relativeTo root := by simpa [Outcome.silent] using hsilent
          exact ⟨s'.reason, by rw [← hfile]⟩
      rw [List.map_cons, outcome_of_error hread]
      refine .skip (hreason.imp_left fun heq => ?_) ih
      simpa [eq_comm] using heq

/-- Outcomes that differ in reasons make results that differ in them. -/
theorem resultOf_of_silent {os' : List Outcome} (fx : Fixer) (root : Path) (dryRun : Bool)
    (h : os.map Outcome.silent = os'.map Outcome.silent) :
    fx.resultOf root dryRun os' =
      { fx.resultOf root dryRun os with skipped := os'.filterMap Outcome.skip? } := by
  have hfiles : os'.filterMap Outcome.report? = os.filterMap Outcome.report? := by
    rw [← Outcome.filterMap_report?_silent, ← h, Outcome.filterMap_report?_silent]
  have hsummary : Summary.ofOutcomes os' = Summary.ofOutcomes os := by
    rw [← Outcome.ofOutcomes_silent, ← h, Outcome.ofOutcomes_silent]
  simp only [resultOf, hfiles, hsummary]

/-- A dry run changes nothing, and if the real one ends well it is the same but for what was
applied: nothing in the one, each changed file in the other. No path may lead to the file of an
earlier one or to its temporary file. Where a path comes by a file that has the name of the
temporary one, the real run takes that file away and may skip the path for another reason. -/
theorem dry_run_predicts (fx : Fixer) (root : Path) (hps : ps.Pairwise t.Spares) :
    ∃ preview, fx.runFiles root true ps t = (.ok preview, t) ∧ preview.dryRun = true ∧
      (∀ r ∈ preview.files, r.applied = false) ∧
      ∀ res t', fx.runFiles root false ps t = (.ok res, t') →
        res.dryRun = false ∧ (∀ r ∈ res.files, r.applied = r.changed) ∧
        preview = { res with
          dryRun := true
          files := res.files.map fun r => { r with applied := false }
          skipped := preview.skipped } ∧
        SkipsAlike root (t.Hindered ps) ps preview.skipped res.skipped := by
  refine ⟨_, runFiles_dry fx root ps t, rfl, ?_, ?_⟩
  · intro r hr
    simpa using applied_of_outcome hr
  · intro res t' hrun
    obtain ⟨os, hos, rfl⟩ := runFiles_eq_ok hrun
    have hsilent := silent_outcomes hps hos
    -- What a dry run says is what the real one would say of the same tree, with nothing applied.
    have hmap : ps.map (fx.outcome root true t) =
        (ps.map (fx.outcome root false t)).map Outcome.dry := by
      rw [List.map_map]
      exact List.map_congr_left fun p _ => outcome_dry fx root t p
    refine ⟨rfl, ?_, ?_, skipsAlike_of_visitAll hps hos⟩
    · intro r hr
      have hr' : r ∈ (ps.map (fx.outcome root false t)).filterMap Outcome.report? := by
        rw [← Outcome.filterMap_report?_silent, ← hsilent, Outcome.filterMap_report?_silent]
        exact hr
      simpa using applied_of_outcome hr'
    · have hskipped : (fx.resultOf root true (ps.map (fx.outcome root true t))).skipped =
          (ps.map (fx.outcome root false t)).filterMap Outcome.skip? := by
        rw [hmap]
        exact Outcome.filterMap_skip?_dry _
      rw [hskipped, hmap, resultOf_dry, resultOf_of_silent fx root false hsilent]
      rfl

/-- A file to fix, beside an unlisted one with the name of its temporary file, and a path that comes
by the latter. -/
theorem dry_run_predicts_crowded :
    let ps : List Path := [⟨"playbooks/a.yml".toList⟩, ⟨"playbooks/.a.yml.tmp/b.yml".toList⟩]
    ps.Pairwise crowded.Spares ∧
      ∃ preview, truthyOnly.runFiles ⟨Path.dot⟩ true ps crowded = (.ok preview, crowded) ∧
        preview.dryRun = true ∧ (∀ r ∈ preview.files, r.applied = false) ∧
        ∃ res, truthyOnly.runFiles ⟨Path.dot⟩ false ps crowded = (.ok res, crowdedAfter) ∧
          res.dryRun = false ∧ (∀ r ∈ res.files, r.applied = r.changed) ∧
          preview = { res with
            dryRun := true
            files := res.files.map fun r => { r with applied := false }
            skipped := preview.skipped } ∧
          SkipsAlike ⟨Path.dot⟩ (crowded.Hindered ps) ps preview.skipped res.skipped := by
  intro ps
  have hmissing : crowded.resolve ⟨"playbooks/.a.yml.tmp/b.yml".toList⟩ =
      .error .notDirectory := by decide
  have hps : ps.Pairwise crowded.Spares := by
    refine List.pairwise_pair.2 ?_
    intro l m c d _ hm
    rw [hmissing] at hm
    exact absurd hm nofun
  obtain ⟨preview, hdry, hflag, happlied, hreal⟩ := dry_run_predicts truthyOnly ⟨Path.dot⟩ hps
  exact ⟨hps, preview, hdry, hflag, happlied, _, runFiles_below_temporary,
    hreal _ _ runFiles_below_temporary⟩

/-- A path below the temporary file of an earlier one is skipped for another reason in the real
run, which takes that file away. -/
theorem dry_run_misses_reason :
    ¬ ∀ (d : Defaults) (only : Option (List Rule)) (fx : Fixer) (root : Path) (ps : List Path)
      (t t' : Tree) (preview res : FixResult), ofDefaults d only = .ok fx →
      (ps.Pairwise fun p q => t.destination p ≠ t.destination q ∧
        t.destination q ≠ tempLocation (t.destination p) ∧
        t.destination p ≠ tempLocation (t.destination q)) →
      fx.runFiles root true ps t = (.ok preview, t) → fx.runFiles root false ps t = (.ok res, t') →
      preview.skipped = res.skipped := by
  intro h
  have hdry := runFiles_dry truthyOnly ⟨Path.dot⟩
    [⟨"playbooks/a.yml".toList⟩, ⟨"playbooks/.a.yml.tmp/b.yml".toList⟩] crowded
  have hsame := h {} (some [.truthy]) truthyOnly _ _ _ _ _ _ ofDefaults_truthyOnly (by decide) hdry
    runFiles_below_temporary
  have hbefore : (truthyOnly.resultOf ⟨Path.dot⟩ true
      ([⟨"playbooks/a.yml".toList⟩, ⟨"playbooks/.a.yml.tmp/b.yml".toList⟩].map
        (truthyOnly.outcome ⟨Path.dot⟩ true crowded))).skipped =
      [⟨"playbooks/.a.yml.tmp/b.yml", "Not a directory (os error 20)"⟩] := by
    cbv
  rw [hbefore] at hsame
  exact absurd hsame (by decide)

end Fixer

end PlaybookTidy
