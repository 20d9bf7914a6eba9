import PlaybookTidy.Run

/-!
The loop of a run in terms of what its visits end in: the outcomes one after the other, and the
result and the counts that can be read off them.
-/

namespace PlaybookTidy

def Summary.ofOutcomes (os : List Outcome) : Summary :=
  let reports := os.filterMap Outcome.report?
  { total := os.length
    changed := reports.countP FileReport.changed
    unchanged := reports.countP fun r => !r.changed
    skipped := (os.filterMap Outcome.skip?).length
    replacements := reports.foldl (fun n r => n + r.replacements) {} }

/-- One report more in front of others that are already counted. -/
theorem Summary.add_eq (n : Summary) (r : FileReport) :
    n.add r = ⟨n.total, n.changed + [r].countP FileReport.changed,
      n.unchanged + [r].countP (fun r => !r.changed), n.skipped,
      n.replacements + r.replacements⟩ := by
  cases h : r.changed <;> simp [add, h]

/-- What a run has gathered after some outcomes: their reports and skipped files in order behind
those that it had, and the counts that it had with those of the reports on top. -/
theorem Progress.foldl_add (os : List Outcome) (g : Progress) :
    os.foldl add g =
      let reports := os.filterMap Outcome.report?
      { files := g.files ++ reports
        skipped := g.skipped ++ os.filterMap Outcome.skip?
        summary :=
          { total := g.summary.total
            changed := g.summary.changed + reports.countP FileReport.changed
            unchanged := g.summary.unchanged + reports.countP fun r => !r.changed
            skipped := g.summary.skipped
            replacements := reports.foldl (fun n r => n + r.replacements) g.summary.replacements } }
    := by
  induction os generalizing g with
  | nil => simp
  | cons o os ih =>
    rw [List.foldl_cons, ih]
    cases o with
    | report r =>
      simp [add, Summary.add_eq, Outcome.report?, Outcome.skip?, List.filterMap_cons,
        List.countP_cons, Nat.add_assoc, Nat.add_comm]
    | skip s => simp [add, Outcome.report?, Outcome.skip?, List.filterMap_cons]

namespace Fixer

variable {fx : Fixer} {root p : Path} {dryRun : Bool} {t t' : Tree} {ps : List Path}
  {os : List Outcome}

def visitAll (fx : Fixer) (root : Path) (dryRun : Bool) :
    List Path → Tree → Except Failure (List Outcome) × Tree
  | [], t => (.ok [], t)
  | p :: ps, t =>
    match fx.visit root dryRun p t with
    | (.error e, t) => (.error e, t)
    | (.ok o, t) =>
      let (os, t) := fx.visitAll root dryRun ps t
      (os.map (o :: ·), t)

def resultOf (fx : Fixer) (root : Path) (dryRun : Bool) (os : List Outcome) : FixResult :=
  { root := toString root
    dryRun
    rules := fx.rules
    files := os.filterMap Outcome.report?
    skipped := os.filterMap Outcome.skip?
    summary := Summary.ofOutcomes os }

/-- The loop gathers the outcomes of its visits, one after the other. -/
theorem gather_eq (fx : Fixer) (root : Path) (dryRun : Bool) (g : Progress) (ps : List Path)
    (t : Tree) :
    fx.gather root dryRun g ps t =
      ((fx.visitAll root dryRun ps t).1.map fun os => os.foldl Progress.add g,
        (fx.visitAll root dryRun ps t).2) := by
  induction ps generalizing g t with
  | nil => rfl
  | cons p ps ih =>
    rw [gather, visitAll]
    cases hvisit : fx.visit root dryRun p t with
    | mk r t₁ =>
      cases r with
      | error e => rfl
      | ok o =>
        simp only [ih]
        cases (fx.visitAll root dryRun ps t₁).1 <;> rfl

theorem visitAll_cons_eq_ok (h : fx.visitAll root dryRun (p :: ps) t = (.ok os, t')) :
    ∃ o rest t₁, fx.visit root dryRun p t = (.ok o, t₁) ∧
      fx.visitAll root dryRun ps t₁ = (.ok rest, t') ∧ os = o :: rest := by
  rw [visitAll] at h
  cases hvisit : fx.visit root dryRun p t with
  | mk r t₁ =>
    cases r with
    | error e => simp [hvisit] at h
    | ok o =>
      cases hrest : fx.visitAll root dryRun ps t₁ with
      | mk r t₂ =>
        cases r with
        | error e => simp [hvisit, hrest, Except.map] at h
        | ok rest =>
          simp only [hvisit, hrest, Except.map, Prod.mk.injEq, Except.ok.injEq] at h
          exact ⟨o, rest, t₁, rfl, by rw [hrest, h.2], h.1.symm⟩

/-- Each file has its outcome. -/
theorem length_of_visitAll (h : fx.visitAll root dryRun ps t = (.ok os, t')) :
    os.length = ps.length := by
  induction ps generalizing t os with
  | nil =>
    simp only [visitAll, Prod.mk.injEq, Except.ok.injEq] at h
    rw [← h.1, List.length_nil, List.length_nil]
  | cons p ps ih =>
    obtain ⟨o, rest, t₁, -, hrest, rfl⟩ := visitAll_cons_eq_ok h
    rw [List.length_cons, List.length_cons, ih hrest]

/-- With as many files to come as there are outcomes, the loop ends in the result that can be read
off the outcomes. -/
theorem conclude_foldl_add (fx : Fixer) (root : Path) (dryRun : Bool) (os : List Outcome) :
    fx.conclude root dryRun (os.foldl Progress.add (.start os.length)) =
      fx.resultOf root dryRun os := by
  rw [Progress.foldl_add]
  simp [conclude, resultOf, Progress.start, Summary.ofOutcomes]

theorem runFiles_eq (fx : Fixer) (root : Path) (dryRun : Bool) (ps : List Path) (t : Tree) :
    fx.runFiles root dryRun ps t =
      ((fx.visitAll root dryRun ps t).1.map (fx.resultOf root dryRun),
        (fx.visitAll root dryRun ps t).2) := by
  simp only [runFiles, gather_eq]
  cases hvisit : fx.visitAll root dryRun ps t with
  | mk r t₁ =>
    cases r with
    | error e => rfl
    | ok os =>
      simp only [Except.map]
      rw [← length_of_visitAll hvisit, conclude_foldl_add]

end Fixer

end PlaybookTidy
