import PlaybookTidy.Proofs.Run.DryRun
import PlaybookTidy.Proofs.Run.Rerun

/-!
Whether a run has anything to write. A dry run counts a change exactly if some file needs one, and
then the real run replaces a file or fails in writing one.
-/

namespace PlaybookTidy

def Failure.OfWrite (e : Failure) : Prop :=
  ∃ error place, e.cause = .io error (some ("write " ++ place))

namespace Fixer

variable {fx : Fixer} {root p : Path} {t t' : Tree} {ps : List Path} {os : List Outcome}

/-- A path is clean if its text, when it has one, is fixed. -/
theorem clean_iff : fx.Clean t p ↔ ∀ s, t.readText p = .ok s → (fx.fixText s).1 = s := by
  constructor
  · intro h s hs
    obtain ⟨l, hl, hfile⟩ := Tree.readText_eq_ok_iff.1 hs
    exact h l s hl hfile
  · intro h l s hl hfile
    exact h s (Tree.readText_eq_ok_iff.2 ⟨l, hl, hfile⟩)

/-- A dry run counts a change exactly if a listed file is not clean. -/
theorem changed_pos_iff (fx : Fixer) (root : Path) (t : Tree) (ps : List Path) :
    0 < (fx.resultOf root true (ps.map (fx.outcome root true t))).summary.changed ↔
      ∃ p ∈ ps, ¬ fx.Clean t p := by
  have hone : ∀ p, (∃ r, (fx.outcome root true t p).report? = some r ∧ r.changed = true) ↔
      ¬ fx.Clean t p := by
    intro p
    rw [clean_iff, outcome]
    cases t.readText p with
    | error e => simp [Outcome.report?]
    | ok s => simp [Outcome.report?]
  simp only [resultOf, Summary.ofOutcomes, List.countP_pos_iff, List.mem_filterMap, List.mem_map]
  constructor
  · rintro ⟨r, ⟨o, ⟨p, hp, rfl⟩, hr⟩, hchanged⟩
    exact ⟨p, hp, (hone p).1 ⟨r, hr, hchanged⟩⟩
  · rintro ⟨p, hp, hclean⟩
    obtain ⟨r, hr, hchanged⟩ := (hone p).2 hclean
    exact ⟨r, ⟨_, ⟨p, hp, rfl⟩, hr⟩, hchanged⟩

/-- A run that applied nothing found every file clean, and in the tree it began with. -/
theorem clean_of_visitAll (h : fx.visitAll root false ps t = (.ok os, t'))
    (hos : ∀ r ∈ os.filterMap Outcome.report?, r.applied = false) : ∀ p ∈ ps, fx.Clean t p := by
  -- By induction on the visits done: as long as none applied a change, the tree is the first one.
  have hrun := visitAll_induction (motive := fun done outcomes t₁ =>
    (∀ r ∈ outcomes.filterMap Outcome.report?, r.applied = false) →
      t₁ = t ∧ ∀ p ∈ done, fx.Clean t p) ?_ ?_ h
  · exact (hrun hos).2
  · exact fun _ => ⟨rfl, by simp⟩
  · intro done outcomes p o t₁ t₂ hm hv hnone
    rw [List.filterMap_append, List.forall_mem_append] at hnone
    obtain ⟨rfl, hclean⟩ := hm hnone.1
    have hlast : t₂ = t₁ ∧ fx.Clean t₁ p := by
      rw [clean_iff]
      cases hv with
      | skipped e he => simp [he]
      | settled l s hl hs hfix =>
        have hread := Tree.readText_eq_ok_iff.2 ⟨l, hl, hs⟩
        simp [hread, hfix]
      | replaced l s hl hs hne hdir =>
        -- This visit reports that it applied the change.
        have happ := hnone.2
        simp [Outcome.report?] at happ
    refine ⟨hlast.1, ?_⟩
    rw [List.forall_mem_append]
    exact ⟨hclean, by simpa using hlast.2⟩

/-- A run over given files fails only in writing one of them. -/
theorem ofWrite_of_runFiles {e : Failure} (h : fx.runFiles root false ps t = (.error e, t')) :
    e.OfWrite := by
  obtain ⟨done, p, rest, os, t₁, -, -, hfail⟩ := visitAll_eq_error (runFiles_eq_error h)
  obtain ⟨s, -, -, hwrite⟩ := writeAtomic_of_visit hfail
  obtain ⟨error, stage, hcause⟩ := Tree.cause_of_writeAtomic hwrite
  exact ⟨error, p.relativeTo root ++ stage, by rw [hcause, String.append_assoc]⟩

/-- If all files are clean, the run ends well and applies nothing. -/
theorem runFiles_clean (ha : fx.Accepted) (root : Path) (h : ∀ p ∈ ps, fx.Clean t p) :
    ∃ res, fx.runFiles root false ps t = (.ok res, t) ∧ ∀ r ∈ res.files, r.applied = false := by
  obtain ⟨os, hvisit, hos⟩ := visitAll_clean ha root h
  refine ⟨fx.resultOf root false os, by simp only [runFiles_eq, hvisit, Except.map], ?_⟩
  intro r hr
  exact (hos r hr).2.1

/-- If some file is not clean, the run applies a change or fails in writing. -/
theorem runFiles_pending (root : Path) (h : ∃ p ∈ ps, ¬ fx.Clean t p) :
    (∃ res t', fx.runFiles root false ps t = (.ok res, t') ∧ ∃ r ∈ res.files, r.applied = true) ∨
      ∃ e t', fx.runFiles root false ps t = (.error e, t') ∧ e.OfWrite := by
  cases hrun : fx.runFiles root false ps t with
  | mk r t' =>
    cases r with
    | error e => exact Or.inr ⟨e, t', rfl, ofWrite_of_runFiles hrun⟩
    | ok res =>
      refine Or.inl ⟨res, t', rfl, ?_⟩
      obtain ⟨os, hos, rfl⟩ := runFiles_eq_ok hrun
      obtain ⟨p, hp, hclean⟩ := h
      by_contra hnone
      -- With nothing applied all files would be clean.
      apply hclean
      apply clean_of_visitAll hos _ p hp
      intro r hr
      by_contra happ
      exact hnone ⟨r, hr, by simpa using happ⟩

end Fixer

end PlaybookTidy
