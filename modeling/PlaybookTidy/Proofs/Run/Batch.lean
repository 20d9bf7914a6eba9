import Mathlib.Algebra.BigOperators.Group.List.Basic
import PlaybookTidy.Proofs.Run.DryRun

/-!
How a run accounts for its files. Each file is reported or skipped, by what the run finds when it
reaches it, and the runs over two lists one after the other make up the run over both.
-/

namespace PlaybookTidy

def Summary.plus (a b : Summary) : Summary where
  total := a.total + b.total
  changed := a.changed + b.changed
  unchanged := a.unchanged + b.unchanged
  skipped := a.skipped + b.skipped
  replacements := a.replacements + b.replacements

def FixResult.andThen (r s : FixResult) : FixResult :=
  { r with
    files := r.files ++ s.files
    skipped := r.skipped ++ s.skipped
    summary := r.summary.plus s.summary }

namespace Outcome

/-- An outcome is a report or a skipped file. -/
theorem length_eq (os : List Outcome) :
    os.length = (os.filterMap Outcome.report?).length + (os.filterMap Outcome.skip?).length := by
  induction os with
  | nil => rfl
  | cons o os ih =>
    cases o with
    | report r => simp only [List.filterMap_cons, report?, skip?, List.length_cons, ih]; omega
    | skip s => simp only [List.filterMap_cons, report?, skip?, List.length_cons, ih]; omega

/-- A count that adds up over two reports adds up over all of them. -/
theorem count_foldl {f : Replacements → ℕ} (hf : ∀ a b, f (a + b) = f a + f b)
    (rs : List FileReport) (n : Replacements) :
    f (rs.foldl (fun n r => n + r.replacements) n) =
      f n + (rs.map fun r => f r.replacements).sum := by
  induction rs generalizing n with
  | nil => rfl
  | cons r rs ih => rw [List.foldl_cons, ih, hf, List.map_cons, List.sum_cons, Nat.add_assoc]

theorem count_replacements {f : Replacements → ℕ} (hf : ∀ a b, f (a + b) = f a + f b)
    (hzero : f {} = 0) (os : List Outcome) :
    f (Summary.ofOutcomes os).replacements =
      ((os.filterMap Outcome.report?).map fun r => f r.replacements).sum := by
  rw [Summary.ofOutcomes, count_foldl hf, hzero, Nat.zero_add]

/-- The summary of two runs adds up what each of them sums up to. -/
theorem ofOutcomes_append (os os' : List Outcome) :
    Summary.ofOutcomes (os ++ os') = (Summary.ofOutcomes os).plus (Summary.ofOutcomes os') := by
  have hcount : ∀ {f : Replacements → ℕ}, (∀ a b, f (a + b) = f a + f b) → f {} = 0 →
      f (Summary.ofOutcomes (os ++ os')).replacements =
        f ((Summary.ofOutcomes os).plus (Summary.ofOutcomes os')).replacements := by
    intro f hf hzero
    rw [Summary.plus, hf, count_replacements hf hzero, count_replacements hf hzero,
      count_replacements hf hzero, List.filterMap_append, List.map_append, List.sum_append]
  have hreplacements : (Summary.ofOutcomes (os ++ os')).replacements =
      ((Summary.ofOutcomes os).plus (Summary.ofOutcomes os')).replacements :=
    Replacements.eq_of_counts (hcount Replacements.fqcn_add rfl)
      (hcount Replacements.truthy_add rfl) (hcount Replacements.names_add rfl)
  rw [Summary.mk.injEq]
  refine ⟨?_, ?_, ?_, ?_, hreplacements⟩ <;>
    simp [Summary.ofOutcomes, Summary.plus]

end Outcome

namespace Fixer

variable {fx : Fixer} {root p : Path} {dryRun : Bool} {t t' : Tree} {ps : List Path}
  {o : Outcome} {os : List Outcome}

theorem resultOf_append (fx : Fixer) (root : Path) (dryRun : Bool) (os os' : List Outcome) :
    fx.resultOf root dryRun (os ++ os') =
      (fx.resultOf root dryRun os).andThen (fx.resultOf root dryRun os') := by
  simp [resultOf, FixResult.andThen, Outcome.ofOutcomes_append]

/-- A visit that ends well says what there was to say of the file. -/
theorem outcome_of_visit (h : fx.visit root dryRun p t = (.ok o, t')) :
    o = fx.outcome root dryRun t p := by
  cases dryRun with
  | false => exact (visited_of_visit h).outcome_eq
  | true =>
    rw [visit_dry, Prod.mk.injEq, Except.ok.injEq] at h
    exact h.1.symm

/-- A run over two lists is one over the first and then one over the second, unless the first is
aborted. -/
theorem visitAll_append (fx : Fixer) (root : Path) (dryRun : Bool) (ps qs : List Path) (t : Tree) :
    fx.visitAll root dryRun (ps ++ qs) t =
      match fx.visitAll root dryRun ps t with
      | (.error e, t₁) => (.error e, t₁)
      | (.ok os, t₁) =>
        ((fx.visitAll root dryRun qs t₁).1.map (os ++ ·), (fx.visitAll root dryRun qs t₁).2) := by
  -- The induction is for every tree, since the rest finds the one that the first visit left.
  induction ps generalizing t with
  | nil =>
    show fx.visitAll root dryRun qs t = _
    cases hqs : fx.visitAll root dryRun qs t with
    | mk r t₁ => cases r <;> simp [visitAll, hqs, Except.map]
  | cons p ps ih =>
    rw [List.cons_append, visitAll, visitAll]
    cases hvisit : fx.visit root dryRun p t with
    | mk r t₁ =>
      cases r with
      | error e => rfl
      | ok o =>
        simp only [ih]
        cases hps : fx.visitAll root dryRun ps t₁ with
        | mk r t₂ =>
          cases r with
          | error e => rfl
          | ok os =>
            simp only [Except.map]
            cases hqs : fx.visitAll root dryRun qs t₂ with
            | mk r t₃ => cases r <;> rfl

/-- The trees in which a run finds its files, one for each: what the files before leave. -/
structure Stages (fx : Fixer) (root : Path) (dryRun : Bool) (ps : List Path) (t : Tree)
    (trees : List Tree) : Prop where
  length_eq : trees.length = ps.length
  runs (k : ℕ) (tk : Tree) :
    trees[k]? = some tk → ∃ res, fx.runFiles root dryRun (ps.take k) t = (.ok res, tk)

/-- The outcomes of a run are what there is to say of its files as it finds them. -/
theorem outcomes_eq (h : fx.visitAll root dryRun ps t = (.ok os, t')) :
    ∃ trees, fx.Stages root dryRun ps t trees ∧
      os = (ps.zip trees).map fun q => fx.outcome root dryRun q.2 q.1 := by
  induction ps generalizing t os with
  | nil =>
    simp only [visitAll, Prod.mk.injEq, Except.ok.injEq] at h
    obtain ⟨rfl, rfl⟩ := h
    exact ⟨[], ⟨rfl, by simp⟩, rfl⟩
  | cons p ps ih =>
    obtain ⟨o, rest, t₁, hvisit, hrest, rfl⟩ := visitAll_cons_eq_ok h
    obtain ⟨trees, hstages, rfl⟩ := ih hrest
    refine ⟨t :: trees, ⟨by rw [List.length_cons, hstages.length_eq, List.length_cons], ?_⟩, ?_⟩
    · intro k tk htk
      cases k with
      | zero =>
        obtain rfl : t = tk := by simpa using htk
        exact ⟨fx.resultOf root dryRun [], rfl⟩
      | succ k =>
        -- The run over one file more is the visit of the first one and then the run over the rest.
        obtain ⟨res, hres⟩ := hstages.runs k tk (by simpa using htk)
        obtain ⟨os, hos, -⟩ := runFiles_eq_ok hres
        refine ⟨fx.resultOf root dryRun (o :: os), ?_⟩
        simp only [runFiles_eq, List.take_succ_cons, visitAll, hvisit, hos, Except.map]
    · rw [List.zip_cons_cons, List.map_cons, ← outcome_of_visit hvisit]

/-- A run does not leave the working directory. -/
theorem workingDirectory_of_runFiles {res : FixResult}
    (h : fx.runFiles root dryRun ps t = (.ok res, t')) :
    t'.workingDirectory = t.workingDirectory := by
  obtain ⟨os, hos, -⟩ := runFiles_eq_ok h
  cases dryRun with
  | true =>
    rw [visitAll_dry, Prod.mk.injEq] at hos
    rw [hos.2]
  | false =>
    refine visitAll_induction (motive := fun _ _ t₁ => t₁.workingDirectory = t.workingDirectory)
      rfl ?_ hos
    intro done outcomes p o t₁ t₂ hkept hv
    cases hv with
    | skipped => exact hkept
    | settled => exact hkept
    | replaced => exact (Tree.workingDirectory_set _ _ _).trans hkept

/-- The result of a run over two lists is the first result and then the second. -/
theorem runFiles_append (fx : Fixer) (root : Path) (dryRun : Bool) (ps qs : List Path) (t : Tree) :
    fx.runFiles root dryRun (ps ++ qs) t =
      match fx.runFiles root dryRun ps t with
      | (.error e, t₁) => (.error e, t₁)
      | (.ok res, t₁) => ((fx.runFiles root dryRun qs t₁).1.map res.andThen,
        (fx.runFiles root dryRun qs t₁).2) := by
  simp only [runFiles_eq]
  rw [visitAll_append]
  cases hps : fx.visitAll root dryRun ps t with
  | mk r t₁ =>
    cases r with
    | error e => rfl
    | ok os =>
      simp only [Except.map]
      cases hqs : fx.visitAll root dryRun qs t₁ with
      | mk r t₂ =>
        cases r with
        | error e => rfl
        | ok os' => simp only [resultOf_append]

/-- A run over one file that can be read is the fixing of that file. -/
theorem runFiles_singleton {s : String} (h : t.readText p = .ok s) :
    fx.runFiles root dryRun [p] t =
      ((fx.fixFile root dryRun p t).1.map fun r => fx.resultOf root dryRun [.report r],
        (fx.fixFile root dryRun p t).2) := by
  have hread : t.read p ("read " ++ p.relativeTo root) = .ok s := by
    simp [Tree.read, h, Except.mapError]
  simp only [runFiles_eq, visitAll, visit, fixFile, h, hread]
  cases hfix : fx.rewriteFile dryRun p (p.relativeTo root) s t with
  | mk r t₁ => cases r <;> rfl

def reportOf? (fx : Fixer) (root : Path) (dryRun : Bool) (t : Tree) (p : Path) :
    Option FileReport :=
  match t.readText p with
  | .error _ => none
  | .ok s =>
    let changed := decide ((fx.fixText s).1 ≠ s)
    some ⟨p.relativeTo root, changed, changed && !dryRun, (fx.fixText s).2⟩

def skipOf? (root : Path) (t : Tree) (p : Path) : Option SkippedFile :=
  match t.readText p with
  | .error e => some ⟨p.relativeTo root, e.text⟩
  | .ok _ => none

theorem report?_outcome (fx : Fixer) (root : Path) (dryRun : Bool) (t : Tree) (p : Path) :
    (fx.outcome root dryRun t p).report? = fx.reportOf? root dryRun t p := by
  unfold outcome reportOf?
  cases t.readText p <;> rfl

theorem skip?_outcome (fx : Fixer) (root : Path) (dryRun : Bool) (t : Tree) (p : Path) :
    (fx.outcome root dryRun t p).skip? = skipOf? root t p := by
  unfold outcome skipOf?
  cases t.readText p <;> rfl

theorem applied_of_reportOf? {r : FileReport} (h : fx.reportOf? root dryRun t p = some r) :
    r.applied = (r.changed && !dryRun) := by
  unfold reportOf? at h
  split at h
  · exact absurd h nofun
  · rw [← Option.some.inj h]

/-- How a result accounts for the files of its run: as many as were given, each of them either
reported or skipped, as the trees tell in which the run finds them. -/
structure Accounts (fx : Fixer) (root : Path) (dryRun : Bool) (ps : List Path) (t : Tree)
    (res : FixResult) : Prop where
  total : res.summary.total = ps.length
  parts : ps.length = res.summary.changed + res.summary.unchanged + res.summary.skipped
  changed : res.summary.changed = res.files.countP FileReport.changed
  applied : ∀ r ∈ res.files, r.applied = (r.changed && !dryRun)
  fqcn : res.summary.replacements.fqcn = (res.files.map fun r => r.replacements.fqcn).sum
  truthy : res.summary.replacements.truthy = (res.files.map fun r => r.replacements.truthy).sum
  names : res.summary.replacements.names = (res.files.map fun r => r.replacements.names).sum
  entries : ∃ trees, fx.Stages root dryRun ps t trees ∧
    res.files = (ps.zip trees).filterMap (fun q => fx.reportOf? root dryRun q.2 q.1) ∧
    res.skipped = (ps.zip trees).filterMap (fun q => skipOf? root q.2 q.1)

/-- By induction on the paths, each file is reported or skipped as the tree tells in which the run
finds it. -/
theorem accounts_of_runFiles {res : FixResult}
    (h : fx.runFiles root dryRun ps t = (.ok res, t')) : fx.Accounts root dryRun ps t res := by
  obtain ⟨os, hos, rfl⟩ := runFiles_eq_ok h
  obtain ⟨trees, hstages, heq⟩ := outcomes_eq hos
  have hcount : os.length = ps.length := by
    rw [heq, List.length_map, List.length_zip, hstages.length_eq, Nat.min_self]
  -- Reports and skips are read off the trees that the run goes through.
  have hfiles : os.filterMap Outcome.report? =
      (ps.zip trees).filterMap (fun q => fx.reportOf? root dryRun q.2 q.1) := by
    rw [heq, List.filterMap_map]
    exact List.filterMap_congr fun q _ => report?_outcome fx root dryRun q.2 q.1
  have hskipped : os.filterMap Outcome.skip? =
      (ps.zip trees).filterMap (fun q => skipOf? root q.2 q.1) := by
    rw [heq, List.filterMap_map]
    exact List.filterMap_congr fun q _ => skip?_outcome fx root dryRun q.2 q.1
  refine ⟨hcount, ?_, rfl, ?_, Outcome.count_replacements Replacements.fqcn_add rfl os,
    Outcome.count_replacements Replacements.truthy_add rfl os,
    Outcome.count_replacements Replacements.names_add rfl os,
    ⟨trees, hstages, hfiles, hskipped⟩⟩
  · have hreports : (os.filterMap Outcome.report?).length =
        (os.filterMap Outcome.report?).countP FileReport.changed +
          (os.filterMap Outcome.report?).countP fun r => !r.changed := by
      simpa using List.length_eq_countP_add_countP FileReport.changed
        (l := os.filterMap Outcome.report?)
    rw [← hcount, Outcome.length_eq, hreports]
    rfl
  · intro r hr
    have hmem : r ∈ os.filterMap Outcome.report? := hr
    rw [hfiles] at hmem
    obtain ⟨q, -, hq⟩ := List.mem_filterMap.1 hmem
    exact applied_of_reportOf? hq

/-- A run accounts for its files, a run over two lists ends well exactly if the one over the first
does and then the one over the second, and a run over one file that can be read is the fixing of
that file. -/
theorem runs_compose (fx : Fixer) (root : Path) (dryRun : Bool) :
    (∀ (ps : List Path) (t t' : Tree) (res : FixResult),
      fx.runFiles root dryRun ps t = (.ok res, t') → fx.Accounts root dryRun ps t res) ∧
    (∀ (ps qs : List Path) (t t' : Tree) (res : FixResult),
      fx.runFiles root dryRun (ps ++ qs) t = (.ok res, t') ↔
        ∃ r₁ t₁ r₂, fx.runFiles root dryRun ps t = (.ok r₁, t₁) ∧
          fx.runFiles root dryRun qs t₁ = (.ok r₂, t') ∧ res = r₁.andThen r₂) ∧
    ∀ (p : Path) (t : Tree) (s : String), t.readText p = .ok s →
      (∀ r t', fx.fixFile root dryRun p t = (.ok r, t') ↔
        ∃ res, fx.runFiles root dryRun [p] t = (.ok res, t') ∧ res.files = [r]) ∧
      ∀ e t', fx.fixFile root dryRun p t = (.error e, t') ↔
        fx.runFiles root dryRun [p] t = (.error e, t') := by
  refine ⟨fun ps t t' res h => accounts_of_runFiles h, fun ps qs t t' res => ?_, ?_⟩
  · rw [runFiles_append]
    cases hps : fx.runFiles root dryRun ps t with
    | mk r t₁ =>
      cases r with
      | error e => simp
      | ok r₁ =>
        -- The second list finds the tree that the first one left.
        cases hqs : fx.runFiles root dryRun qs t₁ with
        | mk r t₂ =>
          cases r with
          | error e => simp [hqs, Except.map]
          | ok r₂ =>
            simp only [hqs, Except.map, Prod.mk.injEq, Except.ok.injEq]
            constructor
            · rintro ⟨rfl, rfl⟩
              exact ⟨r₁, t₁, r₂, ⟨rfl, rfl⟩, by rw [hqs], rfl⟩
            · rintro ⟨_, _, s, ⟨rfl, rfl⟩, hs, rfl⟩
              rw [hqs, Prod.mk.injEq, Except.ok.injEq] at hs
              exact ⟨by rw [hs.1], hs.2⟩
  · intro p t s hs
    rw [runFiles_singleton hs]
    cases hfix : fx.fixFile root dryRun p t with
    | mk r t₁ =>
      cases r with
      | error e => simp [Except.map]
      | ok r => simp [Except.map, resultOf, Outcome.report?, and_comm]

end Fixer

end PlaybookTidy
