import PlaybookTidy.Proofs.Relative

/-!
Further patterns only add to what a discovery lists: the files that they find and that are not there
yet come after those of the patterns before them. A discovery that fails names the first text that
is no pattern, and whether a text is one does not depend on the root.
-/

namespace PlaybookTidy.Discovery

variable {t : Tree} {root : Path} {patterns more exclude : List String} {ps qs : List Path}

def without (listed ps : List Path) : List Path :=
  ps.filter fun q => listed.all fun p => p.components ≠ q.components

/-- A path is added to both parts of a list as it is to the second alone. -/
theorem addNew_append_without (listed ps : List Path) (q : Path) :
    addNew (listed ++ without listed ps) q = listed ++ without listed (addNew ps q) := by
  have hadded : ∀ b : Bool, without listed (if b then ps else ps ++ [q]) =
      if b then without listed ps else without listed ps ++ without listed [q] := by
    intro b
    cases b <;> simp [without]
  unfold addNew
  rw [hadded, List.any_append]
  by_cases hold : ∃ p ∈ listed, p.components = q.components
  · -- What is listed already is not new after it.
    obtain ⟨p, hp, hcomp⟩ := hold
    have hany : listed.any (fun p => p.components = q.components) = true :=
      List.any_eq_true.2 ⟨p, hp, by simpa using hcomp⟩
    have hnone : without listed [q] = [] := by
      simpa [without] using ⟨p, hp, hcomp⟩
    simp [hany, hnone]
  · have hnew : ∀ p ∈ listed, p.components ≠ q.components := by simpa using hold
    have hany : listed.any (fun p => p.components = q.components) = false := by
      simpa using hnew
    have hone : without listed [q] = [q] := by
      simpa [without] using hnew
    -- The paths that were left out have other components than this one.
    have hrest : (without listed ps).any (fun p => p.components = q.components) =
        ps.any fun p => p.components = q.components := by
      rw [Bool.eq_iff_iff]
      simp only [without, List.any_filter, List.any_eq_true, Bool.and_eq_true, decide_eq_true_eq,
        List.all_eq_true]
      constructor
      · rintro ⟨p, hp, -, hcomp⟩
        exact ⟨p, hp, hcomp⟩
      · rintro ⟨p, hp, hcomp⟩
        exact ⟨p, hp, fun r hr => hcomp ▸ hnew r hr, hcomp⟩
    rw [hany, hone, hrest, Bool.false_or]
    split <;> simp

/-- Paths that were listed before only take away from those that are added. -/
theorem foldl_addNew_append (listed : List Path) (qs ps : List Path) :
    qs.foldl addNew (listed ++ without listed ps) =
      listed ++ without listed (qs.foldl addNew ps) := by
  induction qs generalizing ps with
  | nil => rfl
  | cons q qs ih => rw [List.foldl_cons, List.foldl_cons, addNew_append_without, ih]

/-- Two lists of patterns are accepted together if each of them is. -/
theorem exists_discover_append_iff :
    (∃ ps, discover t root (patterns ++ more) exclude = .ok ps) ↔
      (∃ ps, discover t root patterns exclude = .ok ps) ∧
        ∃ ps, discover t root more exclude = .ok ps := by
  simp only [exists_discover_iff, List.forall_mem_append]
  tauto

/-- More patterns add what was not found before, at the end. -/
theorem discover_append_eq (hps : discover t root patterns exclude = .ok ps)
    (hqs : discover t root more exclude = .ok qs) :
    discover t root (patterns ++ more) exclude = .ok (ps ++ without ps qs) := by
  obtain ⟨ex, hex, hpatterns, rfl⟩ := discover_eq_ok_iff.1 hps
  obtain ⟨ex', hex', hmore, rfl⟩ := discover_eq_ok_iff.1 hqs
  obtain rfl : ex = ex' := Except.ok.inj (hex.symm.trans hex')
  rw [discover_eq_ok_iff]
  refine ⟨ex, hex, List.forall_mem_append.2 ⟨hpatterns, hmore⟩, ?_⟩
  rw [List.flatMap_append, List.filter_append, List.foldl_append, ← foldl_addNew_append]
  simp [without]

/-- A discovery fails over a text that is no pattern if the text is the first of the excludes, or
the first of the file patterns where all excludes are patterns. -/
theorem exists_invalidPattern_iff {x : String} :
    (∃ text, discover t root patterns exclude = .error (Failure.invalidPattern x text)) ↔
      IsFirst (fun x => ¬ ∃ ts, Glob.parse x.toList = .ok ts) exclude x ∨
      (∀ y ∈ exclude, ∃ ts, Glob.parse y.toList = .ok ts) ∧
        IsFirst (fun x => ¬ IsPattern x) patterns x := by
  have hexclude : (fun x : String => ∀ ts, Glob.parse x.toList ≠ .ok ts) =
      fun x => ¬ ∃ ts, Glob.parse x.toList = .ok ts := by
    funext x
    rw [not_exists]
  have hpattern : (fun x => ∀ s, Glob.Search.parse (rooted root x) ≠ .ok s) =
      fun x => ¬ IsPattern x := by
    funext x
    rw [← exists_search_iff root, not_exists]
  -- The error names the pattern, whatever else it says.
  have hname : ∀ y (err : Glob.PatternError) text,
      Failure.invalidPattern x text = Failure.invalidPattern y err.text → x = y := by
    intro y err text h
    exact (Cause.invalidPattern.inj (congrArg Failure.cause h)).1
  simp only [discover_eq_error_iff, hexclude, hpattern]
  constructor
  · rintro ⟨text, ⟨y, err, hfirst, -, he⟩ | ⟨hall, y, err, hfirst, -, he⟩⟩
    · exact Or.inl (hname y err text he ▸ hfirst)
    · exact Or.inr ⟨hall, hname y err text he ▸ hfirst⟩
  · rintro (hfirst | ⟨hall, hfirst⟩)
    · have hbad := hfirst.bad
      cases hparse : Glob.parse x.toList with
      | error err => exact ⟨err.text, Or.inl ⟨x, err, hfirst, hparse, rfl⟩⟩
      | ok ts => exact absurd ⟨ts, hparse⟩ hbad
    · have hbad := hfirst.bad
      rw [← exists_search_iff root] at hbad
      cases hparse : Glob.Search.parse (rooted root x) with
      | error err => exact ⟨err.text, Or.inr ⟨hall, x, err, hfirst, hparse, rfl⟩⟩
      | ok s => exact absurd ⟨s, hparse⟩ hbad

/-- The files of further patterns come after those of the patterns before them, less those that are
listed already. It fails where one of the two parts fails, over the first exclude that is no
pattern, else over the first file pattern that is none. -/
theorem discover_append (t : Tree) (root : Path) (patterns more exclude : List String) :
    ((∃ ps, discover t root (patterns ++ more) exclude = .ok ps) ↔
      (∃ ps, discover t root patterns exclude = .ok ps) ∧
        ∃ qs, discover t root more exclude = .ok qs) ∧
    (∀ ps qs, discover t root patterns exclude = .ok ps →
      discover t root more exclude = .ok qs →
      discover t root (patterns ++ more) exclude =
        .ok (ps ++ qs.filter fun q => ps.all fun p => p.components ≠ q.components)) ∧
    (∀ e, discover t root (patterns ++ more) exclude = .error e →
      ∃ x text, e = Failure.invalidPattern x text) ∧
    ∀ x, (∃ text, discover t root (patterns ++ more) exclude =
        .error (Failure.invalidPattern x text)) ↔
      IsFirst (fun x => ¬ ∃ ts, Glob.parse x.toList = .ok ts) exclude x ∨
      (∀ y ∈ exclude, ∃ ts, Glob.parse y.toList = .ok ts) ∧
        IsFirst (fun x => ¬ IsPattern x) (patterns ++ more) x :=
  ⟨exists_discover_append_iff, fun _ _ => discover_append_eq, fun _ => discover_eq_error,
    fun _ => exists_invalidPattern_iff⟩

/-- The second pattern finds the listed playbook again and one more. -/
theorem discover_append_bracketed :
    let root : Path := ⟨"r[1]".toList⟩
    discover bracketed root (["playbooks/b.yml"] ++ ["playbooks//*.yml"]) [] =
        .ok [⟨"r[1]/playbooks/b.yml".toList⟩, ⟨"r[1]/playbooks/a.yml".toList⟩] ∧
      ∃ text, discover bracketed root (["playbooks/*.yml"] ++ ["a**", "[b"]) ["x"] =
        .error (Failure.invalidPattern "a**" text) := by
  intro root
  have hfirst : discover bracketed root ["playbooks/b.yml"] [] =
      .ok [⟨"r[1]/playbooks/b.yml".toList⟩] := by cbv
  have hsecond : discover bracketed root ["playbooks//*.yml"] [] =
      .ok [⟨"r[1]/playbooks/a.yml".toList⟩, ⟨"r[1]/playbooks/b.yml".toList⟩] := by cbv
  obtain ⟨-, hlist, -⟩ := discover_append bracketed root ["playbooks/b.yml"]
    ["playbooks//*.yml"] []
  obtain ⟨-, -, -, herror⟩ := discover_append bracketed root ["playbooks/*.yml"] ["a**", "[b"] ["x"]
  have hbad : ¬ IsPattern "a**" := by
    rintro ⟨⟨ts, hts⟩, -⟩
    have hparse : Glob.parse "a**".toList = .error ⟨0, .recursiveWildcards⟩ := by cbv
    exact absurd (hparse.symm.trans hts) (by simp)
  refine ⟨(hlist _ _ hfirst hsecond).trans (by cbv), (herror "a**").2 (Or.inr ⟨?_, ?_⟩)⟩
  · rw [List.forall_mem_singleton]
    exact ⟨_, by cbv⟩
  · refine ⟨["playbooks/*.yml"], ["[b"], rfl, ?_, hbad⟩
    rw [List.forall_mem_singleton, not_not]
    exact ⟨plainPattern_playbooks.reads, fun c hc => (plainPattern_playbooks.components c hc).reads⟩

end PlaybookTidy.Discovery
