import Mathlib
import PlaybookTidy.Proofs.Pipeline
import PlaybookTidy.Proofs.Run.Visit

/-!
What a run leaves as it was. Beside the files that its reports name, only files with the name of a
temporary file can be affected: replacing the file beside them takes them away.
-/

namespace PlaybookTidy.Fixer

open PlaybookTidy.Tree (textFile tempLocation Shrinks)

/-- A path leads to the file, fixing changes its text, and a report says that this was applied. -/
structure Rewritten (fx : Fixer) (root : Path) (t : Tree) (ps : List Path)
    (reports : List FileReport) (l : Location) (s : String) : Prop where
  text : t.get? l = some (textFile s)
  changed : (fx.fixText s).1 ≠ s
  reported : ∃ p ∈ ps, t.resolve p = .ok l ∧
    ⟨p.relativeTo root, true, true, (fx.fixText s).2⟩ ∈ reports

/-- How a tree compares with the one before the visits of `ps`. -/
structure Framed (fx : Fixer) (root : Path) (t : Tree) (ps : List Path)
    (reports : List FileReport) (t' : Tree) : Prop where
  shrinks : Shrinks t t'
  /-- A file is as it was, was rewritten, or was in the way of a rewritten one. -/
  files (l : Location) (c : ByteArray) : t.get? l = some (.file c) →
    t'.get? l = some (.file c) ∨
    (∃ s, Rewritten fx root t ps reports l s ∧ t'.get? l = some (textFile (fx.fixText s).1)) ∨
    (t'.get? l = none ∧ ∃ k s, Rewritten fx root t ps reports k s ∧ l = tempLocation k)
  listed (p : Path) (l : Location) (s : String) : p ∈ ps → t.resolve p = .ok l →
    t.get? l = some (textFile s) →
    t'.get? l = some (textFile (fx.fixText s).1) ∨ t'.get? l = none
  applied (r : FileReport) : r ∈ reports → r.applied = true →
    ∃ p ∈ ps, ∃ l s, t.resolve p = .ok l ∧ Rewritten fx root t ps reports l s ∧
      r = ⟨p.relativeTo root, true, true, (fx.fixText s).2⟩

variable {fx : Fixer} {root p : Path} {t t₁ t₂ t' : Tree} {ps : List Path}
  {reports : List FileReport} {o : Outcome}

theorem Rewritten.mono {ps' : List Path} {reports' : List FileReport} {l : Location} {s : String}
    (h : Rewritten fx root t ps reports l s) (hps : ps ⊆ ps') (hreports : reports ⊆ reports') :
    Rewritten fx root t ps' reports' l s := by
  obtain ⟨p, hp, hl, hr⟩ := h.reported
  exact ⟨h.text, h.changed, p, hps hp, hl, hreports hr⟩

theorem framed_nil (t : Tree) : Framed fx root t [] [] t where
  shrinks := Shrinks.refl t
  files _ _ h := Or.inl h
  listed _ _ _ h := absurd h List.not_mem_nil
  applied _ h := absurd h List.not_mem_nil

/-- A text that was there is still there, is fixed, or is gone. -/
theorem Framed.states (h : Framed fx root t ps reports t₁) {l : Location} {s : String}
    (hs : t.get? l = some (textFile s)) :
    t₁.get? l = some (textFile s) ∨ t₁.get? l = some (textFile (fx.fixText s).1) ∨
      t₁.get? l = none := by
  rcases h.files l _ hs with hsame | ⟨r, hr, hfix⟩ | ⟨hgone, -⟩
  · exact Or.inl hsame
  · have hrs : r = s := Tree.text_unique hr.text hs
    exact Or.inr (Or.inl (hrs ▸ hfix))
  · exact Or.inr (Or.inr hgone)

/-- What still has to be fixed was not touched. -/
theorem Framed.untouched (ha : fx.Accepted) (h : Framed fx root t ps reports t₁) {l : Location}
    {s : String} (hs : t₁.get? l = some (textFile s)) (hne : (fx.fixText s).1 ≠ s) :
    t.get? l = some (textFile s) := by
  obtain ⟨c, hc⟩ := h.shrinks.file hs
  rcases h.files l c hc with hsame | ⟨r, -, hfix⟩ | ⟨hgone, -⟩
  · rw [hc, ← hsame, hs]
  · rw [hs] at hfix
    obtain rfl := Tree.textFile_injective (Option.some.inj hfix)
    exact absurd (congrArg Prod.fst (fixText_fixText ha r)) hne
  · simp [hgone] at hs

/-- What is known of a file is not changed by further visits and reports. -/
theorem Framed.files_mono (h : Framed fx root t ps reports t₁) {ps' : List Path}
    {reports' : List FileReport} (hps : ps ⊆ ps') (hreports : reports ⊆ reports') {l : Location}
    {c : ByteArray} (hc : t.get? l = some (.file c)) :
    t₁.get? l = some (.file c) ∨
    (∃ s, Rewritten fx root t ps' reports' l s ∧ t₁.get? l = some (textFile (fx.fixText s).1)) ∨
    (t₁.get? l = none ∧ ∃ k s, Rewritten fx root t ps' reports' k s ∧ l = tempLocation k) := by
  rcases h.files l c hc with hsame | ⟨s, hs, hfix⟩ | ⟨hgone, k, s, hs, hk⟩
  · exact Or.inl hsame
  · exact Or.inr (Or.inl ⟨s, hs.mono hps hreports, hfix⟩)
  · exact Or.inr (Or.inr ⟨hgone, k, s, hs.mono hps hreports, hk⟩)

/-- Reports are accounted for if the new ones among them are. -/
theorem Framed.applied_append (h : Framed fx root t ps reports t₁) {ps' : List Path}
    {new : List FileReport} (hps : ps ⊆ ps')
    (hnew : ∀ r ∈ new, r.applied = true →
      ∃ p ∈ ps', ∃ l s, t.resolve p = .ok l ∧ Rewritten fx root t ps' (reports ++ new) l s ∧
        r = ⟨p.relativeTo root, true, true, (fx.fixText s).2⟩) :
    ∀ r ∈ reports ++ new, r.applied = true →
      ∃ p ∈ ps', ∃ l s, t.resolve p = .ok l ∧ Rewritten fx root t ps' (reports ++ new) l s ∧
        r = ⟨p.relativeTo root, true, true, (fx.fixText s).2⟩ := by
  intro r hr happ
  rcases List.mem_append.1 hr with hr | hr
  · obtain ⟨q, hq, l, s, hl, hs, heq⟩ := h.applied r hr happ
    exact ⟨q, hps hq, l, s, hl, hs.mono hps (List.subset_append_left reports new), heq⟩
  · exact hnew r hr happ

/-- A visit that leaves the tree as it is, of a file that is fixed or gone. -/
theorem Framed.extend (h : Framed fx root t ps reports t₁) {new : List FileReport}
    (hp : ∀ l s, t.resolve p = .ok l → t.get? l = some (textFile s) →
      t₁.get? l = some (textFile (fx.fixText s).1) ∨ t₁.get? l = none)
    (hnew : ∀ r ∈ new, r.applied = false) :
    Framed fx root t (ps ++ [p]) (reports ++ new) t₁ := by
  have hps : ps ⊆ ps ++ [p] := List.subset_append_left ps [p]
  refine ⟨h.shrinks, ?_, ?_, ?_⟩
  · intro l c hc
    exact h.files_mono hps (List.subset_append_left reports new) hc
  · intro q l s hq hl hs
    rcases List.mem_append.1 hq with hq | hq
    · exact h.listed q l s hq hl hs
    · obtain rfl : q = p := by simpa using hq
      exact hp l s hl hs
  · apply h.applied_append hps
    intro r hr happ
    simp [hnew r hr] at happ

/-- Writing a file that fixing changes keeps what holds of the tree, with one more report. -/
theorem Framed.replace (ha : fx.Accepted) (h : Framed fx root t ps reports t₁) {l : Location}
    {s : String} (hl : t₁.resolve p = .ok l) (hs : t₁.get? l = some (textFile s))
    (hne : (fx.fixText s).1 ≠ s) (hdir : t₁.get? (tempLocation l) ≠ some .directory) :
    Framed fx root t (ps ++ [p])
      (reports ++ [⟨p.relativeTo root, true, true, (fx.fixText s).2⟩])
      ((t₁.erase (tempLocation l)).set l (textFile (fx.fixText s).1)) := by
  -- Fixing changes this text, so no earlier visit wrote it: it stood here before all of them.
  have hformer := h.untouched ha hs hne
  have hnil : l ≠ [] := Tree.ne_nil_of_file hs
  have hlt : t.resolve p = .ok l := h.shrinks.resolve hl (by simp [hs])
  have hps : ps ⊆ ps ++ [p] := List.subset_append_left ps [p]
  have hnew : Rewritten fx root t (ps ++ [p])
      (reports ++ [⟨p.relativeTo root, true, true, (fx.fixText s).2⟩]) l s :=
    ⟨hformer, hne, p, by simp, hlt, by simp⟩
  refine ⟨h.shrinks.trans (Tree.shrinks_replaced hs hdir _), ?_, ?_, ?_⟩
  · intro k c hc
    rcases Tree.replaced_cases hnil k with ⟨hkl, hfix⟩ | ⟨htemp, hgone⟩ | ⟨-, hsame⟩
    · exact Or.inr (Or.inl ⟨s, hkl ▸ hnew, hfix⟩)
    · exact Or.inr (Or.inr ⟨hgone, l, s, hnew, htemp⟩)
    · rw [hsame]
      exact h.files_mono hps (List.subset_append_left reports _) hc
  · intro q k r hq hk hr
    rcases Tree.replaced_cases hnil k with ⟨hkl, hfix⟩ | ⟨-, hgone⟩ | ⟨hkl, hsame⟩
    · rw [Tree.text_unique hr (hkl ▸ hformer)]
      exact Or.inl hfix
    · exact Or.inr hgone
    · rw [hsame]
      rcases List.mem_append.1 hq with hq | hq
      · exact h.listed q k r hq hk hr
      · obtain rfl : q = p := by simpa using hq
        exact absurd (Except.ok.inj (hk.symm.trans hlt)) hkl
  · apply h.applied_append hps
    intro r hr _
    exact ⟨p, by simp, l, s, hlt, hnew, by simpa using hr⟩

/-- Every visit that ends well keeps what holds of the tree, with what it reports. -/
theorem Framed.visit (ha : fx.Accepted) (h : Framed fx root t ps reports t₁)
    (hv : Visited fx root p t₁ o t₂) :
    Framed fx root t (ps ++ [p]) (reports ++ o.report?.toList) t₂ := by
  cases hv with
  | skipped e he =>
    apply h.extend _ (by simp [Outcome.report?])
    intro l s hl hs
    rcases h.states hs with hsame | hfix
    · -- A text that is still there would have been read.
      have hread := Tree.readText_eq_ok_iff.2 ⟨l, h.shrinks.resolve_of hl (by simp [hsame]), hsame⟩
      simp [he] at hread
    · exact hfix
  | settled k r hk hr hfixed =>
    apply h.extend _ (by simp [Outcome.report?])
    intro l s hl hs
    have hkl : k = l := Except.ok.inj ((h.shrinks.resolve hk (by simp [hr])).symm.trans hl)
    rcases h.states hs with hsame | hfix
    · have hrs : r = s := Tree.text_unique hr (hkl ▸ hsame)
      rw [hsame, ← hrs, hfixed]
      exact Or.inl rfl
    · exact hfix
  | replaced l s hl hs hne hdir => exact h.replace ha hl hs hne hdir

theorem run_eq_ok {d : Defaults} {dryRun : Bool} {res : FixResult}
    (h : fx.run root d dryRun t = (.ok res, t')) :
    ∃ ps os, Discovery.discover t root d.patterns d.exclude = .ok ps ∧
      fx.visitAll root dryRun ps t = (.ok os, t') ∧ res = fx.resultOf root dryRun os := by
  unfold run at h
  cases hps : Discovery.discover t root d.patterns d.exclude with
  | error e => simp [hps] at h
  | ok ps =>
    simp only [hps] at h
    obtain ⟨os, hos, hres⟩ := runFiles_eq_ok h
    exact ⟨ps, os, rfl, hos, hres⟩

/-- By induction on the paths, a run that ends well leaves a tree that compares with the one before
it as its reports say. -/
theorem framed_of_visitAll (ha : fx.Accepted) {os : List Outcome}
    (h : fx.visitAll root false ps t = (.ok os, t')) :
    Framed fx root t ps (os.filterMap Outcome.report?) t' := by
  -- The induction is on the visits done so far; `t` stays the tree before all of them.
  refine visitAll_induction (motive := fun ps os t' =>
    Framed fx root t ps (os.filterMap Outcome.report?) t') (framed_nil t) ?_ h
  intro done outcomes p o t₁ t₂ hm hv
  have hreports : (outcomes ++ [o]).filterMap Outcome.report? =
      outcomes.filterMap Outcome.report? ++ o.report?.toList := by
    cases ho : o.report? <;> simp [ho]
  rw [hreports]
  exact hm.visit ha hv

/-- After a run the directories are the former ones and no file is new. A file that differs was
rewritten by a report that says so; one that is gone had the name of such a file's temporary one. -/
theorem run_frame [Regex.Compiler] {d : Defaults} {only : Option (List Rule)} {res : FixResult}
    (hfx : ofDefaults d only = .ok fx) (hrun : fx.run root d false t = (.ok res, t')) :
    ∃ ps, Discovery.discover t root d.patterns d.exclude = .ok ps ∧
      (∀ l, t'.get? l = some .directory ↔ t.get? l = some .directory) ∧
      (∀ l, t.get? l = none → t'.get? l = none) ∧
      (∀ l c, t.get? l = some (.file c) →
        t'.get? l = some (.file c) ∨
        (∃ s, Rewritten fx root t ps res.files l s ∧
          t'.get? l = some (textFile (fx.fixText s).1)) ∨
        (t'.get? l = none ∧ ∃ k s, Rewritten fx root t ps res.files k s ∧ l = tempLocation k)) ∧
      (∀ p ∈ ps, ∀ l s, t.resolve p = .ok l → t.get? l = some (textFile s) →
        t'.get? l = some (textFile (fx.fixText s).1) ∨ t'.get? l = none) ∧
      ∀ r ∈ res.files, r.applied = true →
        ∃ p ∈ ps, ∃ l s, t.resolve p = .ok l ∧ Rewritten fx root t ps res.files l s ∧
          r = ⟨p.relativeTo root, true, true, (fx.fixText s).2⟩ := by
  obtain ⟨ps, os, hps, hvisit, rfl⟩ := run_eq_ok hrun
  have hframe := framed_of_visitAll (accepted_of_ofDefaults hfx) hvisit
  have hnew : ∀ l, t.get? l = none → t'.get? l = none := by
    intro l hl
    rw [← Option.not_isSome_iff_eq_none] at hl ⊢
    intro hsome
    exact hl (hframe.shrinks.isSome hsome)
  have hlisted : ∀ p ∈ ps, ∀ l s, t.resolve p = .ok l → t.get? l = some (textFile s) →
      t'.get? l = some (textFile (fx.fixText s).1) ∨ t'.get? l = none := by
    intro p hp l s
    exact hframe.listed p l s hp
  exact ⟨ps, hps, hframe.shrinks.directory, hnew, hframe.files, hlisted, hframe.applied⟩

/-- A playbook to fix, and beside it a file with the name of its temporary one. -/
def crowded : Tree where
  workingDirectory := []
  entries := [(["playbooks".toList], .directory),
    (["playbooks".toList, "a.yml".toList], textFile "  k: yes\n"),
    (["playbooks".toList, ".a.yml.tmp".toList], textFile "mine\n")]

/-- What a run with the built-in settings makes of it. -/
def crowdedAfter : Tree where
  workingDirectory := []
  entries := [(["playbooks".toList], .directory),
    (["playbooks".toList, "a.yml".toList], textFile "  k: true\n")]

theorem run_crowded :
    builtin.run ⟨Path.dot⟩ {} false crowded =
      (.ok (builtin.resultOf ⟨Path.dot⟩ false
        [.report ⟨"playbooks/a.yml", true, true, { truthy := 1 }⟩]), crowdedAfter) := by
  cbv

/-- The playbook differs afterwards, so a report says that it was rewritten. -/
theorem run_frame_crowded :
    ofDefaults {} none = .ok builtin ∧
      ∃ res, builtin.run ⟨Path.dot⟩ {} false crowded = (.ok res, crowdedAfter) ∧
        ∃ ps, Discovery.discover crowded ⟨Path.dot⟩ ({} : Defaults).patterns [] = .ok ps ∧
          ∃ s, Rewritten builtin ⟨Path.dot⟩ crowded ps res.files
              ["playbooks".toList, "a.yml".toList] s ∧
            crowdedAfter.get? ["playbooks".toList, "a.yml".toList] =
              some (textFile (builtin.fixText s).1) := by
  have hbefore : crowded.get? ["playbooks".toList, "a.yml".toList] =
      some (textFile "  k: yes\n") := by cbv
  have hafter : crowdedAfter.get? ["playbooks".toList, "a.yml".toList] =
      some (textFile "  k: true\n") := by cbv
  obtain ⟨ps, hps, -, -, hfiles, -⟩ := run_frame ofDefaults_builtin run_crowded
  refine ⟨ofDefaults_builtin, _, run_crowded, ps, hps, ?_⟩
  rcases hfiles _ _ hbefore with hsame | hrewritten | ⟨hgone, -⟩
  · rw [hafter] at hsame
    exact absurd (Tree.textFile_injective (Option.some.inj hsame)) (by decide)
  · exact hrewritten
  · rw [hafter] at hgone
    exact absurd hgone (by simp)

/-- A run does not keep every file: the temporary file takes the place of one with its name. -/
theorem run_loses_file :
    ¬ ∀ (d : Defaults) (only : Option (List Rule)) (fx : Fixer) (root : Path) (t t' : Tree)
      (res : FixResult), ofDefaults d only = .ok fx → fx.run root d false t = (.ok res, t') →
      ∀ l, (t'.get? l).isSome ↔ (t.get? l).isSome := by
  intro h
  have hkept := h {} none builtin ⟨Path.dot⟩ crowded crowdedAfter _ ofDefaults_builtin run_crowded
    ["playbooks".toList, ".a.yml.tmp".toList]
  have hbefore : (crowded.get? ["playbooks".toList, ".a.yml.tmp".toList]).isSome = true := by cbv
  have hafter : (crowdedAfter.get? ["playbooks".toList, ".a.yml.tmp".toList]).isSome = false := by
    cbv
  rw [hbefore, hafter] at hkept
  simp at hkept

end PlaybookTidy.Fixer
