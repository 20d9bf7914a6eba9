import PlaybookTidy.Proofs.Discovery
import PlaybookTidy.Proofs.Run.Frame

/-!
Running a second time. The first run leaves nothing to fix in the files it listed, and the second
one lists no others.
-/

namespace PlaybookTidy.Fixer

open PlaybookTidy.Tree (textFile)

variable {fx : Fixer} {root : Path} {t t' : Tree} {ps : List Path}

/-- A path leads to no text that fixing would change. -/
def Clean (fx : Fixer) (t : Tree) (p : Path) : Prop :=
  ∀ l s, t.resolve p = .ok l → t.get? l = some (textFile s) → (fx.fixText s).1 = s

/-- Visits of clean files do nothing and count nothing. -/
theorem visitAll_clean (ha : fx.Accepted) (root : Path) (hps : ∀ p ∈ ps, fx.Clean t p) :
    ∃ os, fx.visitAll root false ps t = (.ok os, t) ∧
      ∀ r ∈ os.filterMap Outcome.report?,
        r.changed = false ∧ r.applied = false ∧ r.replacements = {} := by
  induction ps with
  | nil => exact ⟨[], rfl, by simp⟩
  | cons p ps ih =>
    rw [List.forall_mem_cons] at hps
    obtain ⟨os, hvisit, hos⟩ := ih hps.2
    cases hread : t.readText p with
    | error e =>
      refine ⟨.skip ⟨p.relativeTo root, e.text⟩ :: os, ?_, hos⟩
      simp only [visitAll, visit_of_error hread, hvisit, Except.map]
    | ok s =>
      obtain ⟨l, hl, hs⟩ := Tree.readText_eq_ok_iff.1 hread
      have hsame : (fx.fixText s).1 = s := hps.1 l s hl hs
      -- The text is a fixed point; that it also counts nothing comes from fixing it twice.
      have hfix : fx.fixText s = (s, {}) := by
        have hagain := fixText_fixText ha s
        rwa [hsame] at hagain
      refine ⟨.report ⟨p.relativeTo root, false, false, {}⟩ :: os, ?_, ?_⟩
      · simp only [visitAll, visit_of_settled hread hsame, hfix, hvisit, Except.map]
      · simpa [Outcome.report?] using hos

theorem replacements_foldl {rs : List FileReport} (h : ∀ r ∈ rs, r.replacements = {}) :
    rs.foldl (fun n r => n + r.replacements) {} = ({} : Replacements) := by
  induction rs with
  | nil => rfl
  | cons r rs ih =>
    rw [List.forall_mem_cons] at h
    have hzero : ({} : Replacements) + {} = {} := rfl
    rw [List.foldl_cons, h.1, hzero, ih h.2]

/-- What a run lists afterwards it listed before, and that is clean. -/
theorem clean_of_framed (ha : fx.Accepted) {patterns exclude : List String}
    {reports : List FileReport} (hps : Discovery.discover t root patterns exclude = .ok ps)
    (h : Framed fx root t ps reports t') :
    ∃ ps', Discovery.discover t' root patterns exclude = .ok ps' ∧ ∀ p ∈ ps', fx.Clean t' p := by
  obtain ⟨ps', hps', hsame⟩ := Discovery.discover_shrinks h.shrinks hps
  refine ⟨ps', hps', ?_⟩
  intro p hp l s hl hs
  -- The first discovery listed `q` for this path, maybe spelled otherwise.
  obtain ⟨q, hq, hcomp⟩ := hsame p hp
  obtain ⟨k, c, hk, -⟩ := Tree.isFile_iff.1 (Discovery.isFile_of_mem_discover hps hq)
  have hlt : t.resolve p = .ok l := h.shrinks.resolve hl (by simp [hs])
  obtain rfl : k = l := Tree.location_of_components hcomp hk hlt
  have hfixed : ∀ r, t'.get? k = some (textFile (fx.fixText r).1) → (fx.fixText s).1 = s := by
    intro r hr
    rw [Tree.text_unique hs hr, fixText_fixText ha]
  obtain ⟨c, hc⟩ := h.shrinks.file hs
  -- A file that is as it was needs that its path was listed; one that was rewritten does not.
  rcases h.files k c hc with hkept | ⟨r, -, hr⟩ | ⟨hgone, -⟩
  · have hformer : t.get? k = some (textFile s) := by rw [hc, ← hkept, hs]
    rcases h.listed q k s hq hk hformer with hr | hgone
    · exact hfixed s hr
    · simp [hgone] at hs
  · exact hfixed r hr
  · simp [hgone] at hs

/-- Running again with the same settings finds nothing to change and leaves the tree as it is. -/
theorem rerun_changes_nothing [Regex.Compiler] {d : Defaults} {only : Option (List Rule)}
    {res : FixResult} (hfx : ofDefaults d only = .ok fx)
    (hrun : fx.run root d false t = (.ok res, t')) :
    ∃ again, fx.run root d false t' = (.ok again, t') ∧
      again.summary.changed = 0 ∧
      again.summary.replacements = { fqcn := 0, truthy := 0, names := 0 } ∧
      ∀ r ∈ again.files, r.changed = false ∧ r.applied = false ∧
        r.replacements = { fqcn := 0, truthy := 0, names := 0 } := by
  have ha := accepted_of_ofDefaults hfx
  obtain ⟨ps, os, hps, hvisit, rfl⟩ := run_eq_ok hrun
  obtain ⟨ps', hps', hclean⟩ := clean_of_framed ha hps (framed_of_visitAll ha hvisit)
  obtain ⟨os', hvisit', hos'⟩ := visitAll_clean ha root hclean
  refine ⟨fx.resultOf root false os', ?_, ?_, ?_, hos'⟩
  · simp only [run, hps', runFiles_eq, hvisit', Except.map]
  · apply List.countP_eq_zero.2
    intro r hr
    simp [(hos' r hr).1]
  · apply replacements_foldl
    intro r hr
    exact (hos' r hr).2.2

/-- After the first run on a playbook whose temporary file has the name of another file. -/
theorem rerun_changes_nothing_crowded :
    ofDefaults {} none = .ok builtin ∧
      (∃ res, builtin.run ⟨Path.dot⟩ {} false crowded = (.ok res, crowdedAfter)) ∧
      ∃ again, builtin.run ⟨Path.dot⟩ {} false crowdedAfter = (.ok again, crowdedAfter) ∧
        again.summary.changed = 0 ∧
        again.summary.replacements = { fqcn := 0, truthy := 0, names := 0 } ∧
        ∀ r ∈ again.files, r.changed = false ∧ r.applied = false ∧
          r.replacements = { fqcn := 0, truthy := 0, names := 0 } :=
  ⟨ofDefaults_builtin, ⟨_, run_crowded⟩, rerun_changes_nothing ofDefaults_builtin run_crowded⟩

end PlaybookTidy.Fixer
