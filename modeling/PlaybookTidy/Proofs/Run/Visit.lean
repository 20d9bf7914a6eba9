import PlaybookTidy.Proofs.Run.Loop
import PlaybookTidy.Proofs.Tree.Replace

/-!
The steps of a run that is not dry. A file is skipped, found in order, or replaced; what each of
these steps preserves holds after the run.
-/

namespace PlaybookTidy

namespace Fixer

open PlaybookTidy.Tree (textFile tempLocation)

inductive Visited (fx : Fixer) (root p : Path) (t : Tree) : Outcome → Tree → Prop
  | skipped (e : IoError) : t.readText p = .error e →
      Visited fx root p t (.skip ⟨p.relativeTo root, e.text⟩) t
  | settled (l : Location) (s : String) : t.resolve p = .ok l → t.get? l = some (textFile s) →
      (fx.fixText s).1 = s →
      Visited fx root p t (.report ⟨p.relativeTo root, false, false, (fx.fixText s).2⟩) t
  | replaced (l : Location) (s : String) : t.resolve p = .ok l → t.get? l = some (textFile s) →
      (fx.fixText s).1 ≠ s → t.get? (tempLocation l) ≠ some .directory →
      Visited fx root p t (.report ⟨p.relativeTo root, true, true, (fx.fixText s).2⟩)
        ((t.erase (tempLocation l)).set l (textFile (fx.fixText s).1))

variable {fx : Fixer} {root p : Path} {dryRun : Bool} {t t' : Tree} {ps : List Path} {o : Outcome}
  {os : List Outcome} {e : Failure} {s : String}

theorem visit_of_error {e : IoError} (h : t.readText p = .error e) :
    fx.visit root dryRun p t = (.ok (.skip ⟨p.relativeTo root, e.text⟩), t) := by
  simp only [visit, h]

theorem visit_of_settled (h : t.readText p = .ok s) (hs : (fx.fixText s).1 = s) :
    fx.visit root dryRun p t =
      (.ok (.report ⟨p.relativeTo root, false, false, (fx.fixText s).2⟩), t) := by
  simp only [visit, h, rewriteFile, if_pos hs, Except.map]

/-- A text that fixing changes is written, and that decides how the visit ends. -/
theorem visit_of_pending (h : t.readText p = .ok s) (hs : (fx.fixText s).1 ≠ s) :
    fx.visit root false p t =
      ((t.writeAtomic p (fx.fixText s).1 ("write " ++ p.relativeTo root)).1.map fun _ =>
          .report ⟨p.relativeTo root, true, true, (fx.fixText s).2⟩,
        (t.writeAtomic p (fx.fixText s).1 ("write " ++ p.relativeTo root)).2) := by
  simp only [visit, h, rewriteFile, if_neg hs]
  cases hwrite : t.writeAtomic p (fx.fixText s).1 ("write " ++ p.relativeTo root) with
  | mk r t₁ => cases r <;> simp [Except.map]

/-- A visit that ends well skips the file, leaves it or replaces it. -/
theorem visited_of_visit (h : fx.visit root false p t = (.ok o, t')) :
    Visited fx root p t o t' := by
  cases hread : t.readText p with
  | error e =>
    rw [visit_of_error hread, Prod.mk.injEq, Except.ok.injEq] at h
    obtain ⟨rfl, rfl⟩ := h
    exact .skipped e hread
  | ok s =>
    obtain ⟨l, hl, hfile⟩ := Tree.readText_eq_ok_iff.1 hread
    by_cases hs : (fx.fixText s).1 = s
    · rw [visit_of_settled hread hs, Prod.mk.injEq, Except.ok.injEq] at h
      obtain ⟨rfl, rfl⟩ := h
      exact .settled l s hl hfile hs
    · rw [visit_of_pending hread hs] at h
      cases hwrite : t.writeAtomic p (fx.fixText s).1 ("write " ++ p.relativeTo root) with
      | mk r t₁ =>
        cases r with
        | error e => simp [hwrite, Except.map] at h
        | ok u =>
          simp only [hwrite, Except.map, Prod.mk.injEq, Except.ok.injEq] at h
          obtain ⟨rfl, rfl⟩ := h
          obtain ⟨hdir, rfl⟩ := Tree.writeAtomic_ok (Tree.location_of_resolve hl) hwrite
          exact .replaced l s hl hfile hs hdir

/-- A visit fails only in writing a text that fixing changed. -/
theorem writeAtomic_of_visit (h : fx.visit root false p t = (.error e, t')) :
    ∃ s, t.readText p = .ok s ∧ (fx.fixText s).1 ≠ s ∧
      t.writeAtomic p (fx.fixText s).1 ("write " ++ p.relativeTo root) = (.error e, t') := by
  cases hread : t.readText p with
  | error e => simp [visit_of_error hread] at h
  | ok s =>
    by_cases hs : (fx.fixText s).1 = s
    · simp [visit_of_settled hread hs] at h
    · refine ⟨s, rfl, hs, ?_⟩
      rw [visit_of_pending hread hs] at h
      cases hwrite : t.writeAtomic p (fx.fixText s).1 ("write " ++ p.relativeTo root) with
      | mk r t₁ =>
        cases r with
        | ok u => simp [hwrite, Except.map] at h
        | error e' =>
          simp only [hwrite, Except.map, Prod.mk.injEq, Except.error.injEq] at h
          rw [h.1, h.2]

/-- A run fails at its first file or at a later one, after the first was visited. -/
theorem visitAll_cons_eq_error (h : fx.visitAll root dryRun (p :: ps) t = (.error e, t')) :
    fx.visit root dryRun p t = (.error e, t') ∨
      ∃ o t₁, fx.visit root dryRun p t = (.ok o, t₁) ∧
        fx.visitAll root dryRun ps t₁ = (.error e, t') := by
  rw [visitAll] at h
  cases hvisit : fx.visit root dryRun p t with
  | mk r t₁ =>
    cases r with
    | error e' =>
      simp only [hvisit, Prod.mk.injEq, Except.error.injEq] at h
      exact Or.inl (by rw [h.1, h.2])
    | ok o =>
      cases hrest : fx.visitAll root dryRun ps t₁ with
      | mk r t₂ =>
        cases r with
        | ok rest => simp [hvisit, hrest, Except.map] at h
        | error e' =>
          simp only [hvisit, hrest, Except.map, Prod.mk.injEq, Except.error.injEq] at h
          exact Or.inr ⟨o, t₁, rfl, by rw [hrest, h.1, h.2]⟩

/-- What no visit breaks holds after all of them. -/
theorem visitAll_induction {motive : List Path → List Outcome → Tree → Prop}
    (hnil : motive [] [] t)
    (hstep : ∀ done outcomes p o t₁ t₂, motive done outcomes t₁ → Visited fx root p t₁ o t₂ →
      motive (done ++ [p]) (outcomes ++ [o]) t₂)
    (h : fx.visitAll root false ps t = (.ok os, t')) : motive ps os t' := by
  -- Over the paths that are left, with what was done before them general.
  have hrun : ∀ (ps done : List Path) (os outcomes : List Outcome) (t₁ : Tree),
      motive done outcomes t₁ → fx.visitAll root false ps t₁ = (.ok os, t') →
      motive (done ++ ps) (outcomes ++ os) t' := by
    intro ps
    induction ps with
    | nil =>
      intro done os outcomes t₁ hm h
      simp only [visitAll, Prod.mk.injEq, Except.ok.injEq] at h
      obtain ⟨rfl, rfl⟩ := h
      simpa using hm
    | cons p ps ih =>
      intro done os outcomes t₁ hm h
      obtain ⟨o, rest, t₂, hvisit, hrest, rfl⟩ := visitAll_cons_eq_ok h
      have hnext := ih (done ++ [p]) rest (outcomes ++ [o]) t₂
        (hstep done outcomes p o t₁ t₂ hm (visited_of_visit hvisit)) hrest
      simpa using hnext
  simpa using hrun ps [] os [] t hnil h

/-- The visits before the one that fails end well. -/
theorem visitAll_eq_error (h : fx.visitAll root dryRun ps t = (.error e, t')) :
    ∃ done p rest os t₁, ps = done ++ p :: rest ∧
      fx.visitAll root dryRun done t = (.ok os, t₁) ∧
      fx.visit root dryRun p t₁ = (.error e, t') := by
  induction ps generalizing t with
  | nil => simp [visitAll] at h
  | cons p ps ih =>
    rcases visitAll_cons_eq_error h with hfail | ⟨o, t₁, hvisit, hrest⟩
    · exact ⟨[], p, ps, [], t, rfl, rfl, hfail⟩
    · obtain ⟨done, q, rest, os, t₂, rfl, hdone, hfail⟩ := ih hrest
      refine ⟨p :: done, q, rest, o :: os, t₂, rfl, ?_, hfail⟩
      simp only [visitAll, hvisit, hdone, Except.map]

theorem runFiles_eq_ok {res : FixResult} (h : fx.runFiles root dryRun ps t = (.ok res, t')) :
    ∃ os, fx.visitAll root dryRun ps t = (.ok os, t') ∧ res = fx.resultOf root dryRun os := by
  rw [runFiles_eq] at h
  cases hos : fx.visitAll root dryRun ps t with
  | mk r t₁ =>
    cases r with
    | error e => simp [hos, Except.map] at h
    | ok os =>
      simp only [hos, Except.map, Prod.mk.injEq, Except.ok.injEq] at h
      obtain ⟨rfl, rfl⟩ := h
      exact ⟨os, rfl, rfl⟩

/-- A run over files fails where a visit does, and leaves the tree of that moment. -/
theorem runFiles_eq_error (h : fx.runFiles root dryRun ps t = (.error e, t')) :
    fx.visitAll root dryRun ps t = (.error e, t') := by
  rw [runFiles_eq] at h
  cases hos : fx.visitAll root dryRun ps t with
  | mk r t₁ =>
    cases r with
    | error e' => simpa [hos, Except.map] using h
    | ok os => simp [hos, Except.map] at h

end Fixer

end PlaybookTidy
