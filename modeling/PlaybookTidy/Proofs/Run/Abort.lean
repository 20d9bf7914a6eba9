import PlaybookTidy.Proofs.Run.Frame
import PlaybookTidy.Proofs.Tree.Local

/-!
Runs that a failed write ends. The files before the one that could not be written hold their new
texts, that file and all others are as they were, and no temporary file is left.
-/

namespace PlaybookTidy

namespace Tree

def Different (t : Tree) (p q : Path) : Prop :=
  t.isFile p = true → ∀ l, t.resolve p = .ok l → t.resolve q ≠ .ok l

/-- No file has the name of the temporary file of a file that one of the paths leads to. -/
def NoTemporary (t : Tree) (ps : List Path) : Prop :=
  ∀ p ∈ ps, t.isFile p = true → ∀ l c, t.resolve p = .ok l → t.get? (tempLocation l) ≠ some (.file c)

end Tree

namespace Fixer

open PlaybookTidy.Tree (textFile tempLocation SameKind Different NoTemporary)

variable {fx : Fixer} {root p q : Path} {t t₁ t₂ t' : Tree} {ps done : List Path} {o : Outcome}

/-- The texts that the paths of `done` lead to are fixed, and all else is as it was. -/
structure FixedUpTo (fx : Fixer) (t : Tree) (done : List Path) (t' : Tree) : Prop where
  workingDirectory : t'.workingDirectory = t.workingDirectory
  fixed (p : Path) (l : Location) (s : String) : p ∈ done → t.resolve p = .ok l →
    t.get? l = some (textFile s) → t'.get? l = some (textFile (fx.fixText s).1)
  kept (l : Location) :
    (∀ p ∈ done, t.resolve p = .ok l → ∀ s, t.get? l ≠ some (textFile s)) → t'.get? l = t.get? l

namespace FixedUpTo

theorem nil (fx : Fixer) (t : Tree) : FixedUpTo fx t [] t :=
  ⟨rfl, fun _ _ _ h => absurd h List.not_mem_nil, fun _ _ => rfl⟩

/-- Fixing files takes no file away and makes no new one. -/
theorem sameKind (h : FixedUpTo fx t done t') (l : Location) : SameKind t t' l := by
  by_cases hl : ∃ p ∈ done, t.resolve p = .ok l ∧ ∃ s, t.get? l = some (textFile s)
  · obtain ⟨p, hp, hpl, s, hs⟩ := hl
    have hfix := h.fixed p l s hp hpl hs
    constructor <;> simp [hfix, hs, textFile]
  · apply Tree.sameKind_of_eq
    apply h.kept
    intro p hp hpl s hs
    exact hl ⟨p, hp, hpl, s, hs⟩

theorem resolve (h : FixedUpTo fx t done t') (q : Path) : t'.resolve q = t.resolve q :=
  Tree.resolve_congr h.workingDirectory fun l _ => h.sameKind l

/-- What differs from the other files is as it was. -/
theorem kept_of_different (h : FixedUpTo fx t done t') (hq : ∀ p ∈ done, t.Different p q)
    {l : Location} (hl : t.resolve q = .ok l) : t'.get? l = t.get? l := by
  apply h.kept
  intro p hp hpl s hs
  exact hq p hp (Tree.isFile_iff.2 ⟨l, _, hpl, hs⟩) l hpl hl

/-- A visit that leaves the tree as it is, of a file with nothing to fix. -/
theorem extend (h : FixedUpTo fx t done t₁)
    (hp : ∀ l s, t.resolve p = .ok l → t.get? l = some (textFile s) →
      t₁.get? l = some (textFile (fx.fixText s).1)) :
    FixedUpTo fx t (done ++ [p]) t₁ := by
  refine ⟨h.workingDirectory, ?_, ?_⟩
  · intro q l s hq hl hs
    rcases List.mem_append.1 hq with hq | hq
    · exact h.fixed q l s hq hl hs
    · obtain rfl : q = p := by simpa using hq
      exact hp l s hl hs
  · intro l hl
    apply h.kept
    intro q hq
    exact hl q (List.mem_append_left [p] hq)

/-- Writing the next file fixes it and touches no other. -/
theorem replace (h : FixedUpTo fx t done t₁) {l : Location} {s : String}
    (hl : t.resolve p = .ok l) (hs : t.get? l = some (textFile s))
    (htemp : t₁.get? (tempLocation l) = none) :
    FixedUpTo fx t (done ++ [p])
      ((t₁.erase (tempLocation l)).set l (textFile (fx.fixText s).1)) := by
  have hnil : l ≠ [] := Tree.ne_nil_of_file hs
  -- The temporary location was empty, so only the file itself differs.
  have hget : ∀ x, ((t₁.erase (tempLocation l)).set l (textFile (fx.fixText s).1)).get? x =
      if x = l then some (textFile (fx.fixText s).1) else t₁.get? x := by
    intro x
    rw [Tree.erase_of_none (Tree.tempLocation_ne_nil l) htemp, Tree.get?_set hnil]
  refine ⟨by simp [Tree.erase, h.workingDirectory], ?_, ?_⟩
  · intro q k r hq hk hr
    rw [hget]
    by_cases hkl : k = l
    · obtain rfl := hkl
      rw [if_pos rfl, Tree.text_unique hr hs]
    · rw [if_neg hkl]
      rcases List.mem_append.1 hq with hq | hq
      · exact h.fixed q k r hq hk hr
      · obtain rfl : q = p := by simpa using hq
        exact absurd (Except.ok.inj (hk.symm.trans hl)) hkl
  · intro k hk
    have hkl : k ≠ l := by
      rintro rfl
      exact hk p (by simp) hl s hs
    rw [hget, if_neg hkl]
    apply h.kept
    intro q hq
    exact hk q (List.mem_append_left [p] hq)

theorem isFile (h : FixedUpTo fx t done t') (hq : t'.isFile q = true) : t.isFile q = true := by
  obtain ⟨l, c, hl, hc⟩ := Tree.isFile_iff.1 hq
  obtain ⟨c', hc'⟩ := (h.sameKind l).file hc
  exact Tree.isFile_iff.2 ⟨l, c', h.resolve q ▸ hl, hc'⟩

theorem noTemporary (h : FixedUpTo fx t done t') (ht : t.NoTemporary ps) : t'.NoTemporary ps := by
  intro p hp hfile l c hl htemp
  obtain ⟨c', hc'⟩ := (h.sameKind _).file htemp
  exact ht p hp (h.isFile hfile) l c' (h.resolve p ▸ hl) hc'

/-- Where the tree had no temporary file, a visit does not find one. -/
theorem temporary_eq_none (h : FixedUpTo fx t done t₁) (ht : t.NoTemporary [p]) {l : Location}
    {s : String} (hl : t.resolve p = .ok l) (hs : t.get? l = some (textFile s))
    (hdir : t₁.get? (tempLocation l) ≠ some .directory) : t₁.get? (tempLocation l) = none := by
  have hfile : t.isFile p = true := Tree.isFile_iff.2 ⟨l, _, hl, hs⟩
  cases he : t₁.get? (tempLocation l) with
  | none => rfl
  | some e =>
    cases e with
    | directory => exact absurd he hdir
    | file c =>
      obtain ⟨c', hc'⟩ := (h.sameKind _).file he
      exact absurd hc' (ht p (by simp) hfile l c' hl)

/-- Each visit that ends well fixes one more file. -/
theorem visit (h : FixedUpTo fx t done t₁) (hp : ∀ q ∈ done, t.Different q p)
    (ht : t.NoTemporary [p]) (hv : Visited fx root p t₁ o t₂) : FixedUpTo fx t (done ++ [p]) t₂ := by
  cases hv with
  | skipped e he =>
    apply h.extend
    intro l s hl hs
    -- A text would have been read.
    have hsame : t₁.get? l = some (textFile s) := (h.kept_of_different hp hl).trans hs
    have hread := Tree.readText_eq_ok_iff.2 ⟨l, (h.resolve p).trans hl, hsame⟩
    simp [he] at hread
  | settled l s hl hs hfix =>
    apply h.extend
    intro k r hk hr
    obtain rfl : k = l := Except.ok.inj (hk.symm.trans (h.resolve p ▸ hl))
    have hsame : t₁.get? k = some (textFile r) := (h.kept_of_different hp hk).trans hr
    obtain rfl : r = s := Tree.text_unique hsame hs
    rw [hs, hfix]
  | replaced l s hl hs hne hdir =>
    rw [h.resolve] at hl
    have hs' : t.get? l = some (textFile s) := (h.kept_of_different hp hl).symm.trans hs
    exact h.replace hl hs' (h.temporary_eq_none ht hl hs' hdir)

end FixedUpTo

/-- By induction on the paths, the files of a run that ends well are fixed, and all else is as it
was. -/
theorem fixedUpTo_of_visitAll {os : List Outcome} (hps : ps.Pairwise t.Different)
    (ht : t.NoTemporary ps) (h : fx.visitAll root false ps t = (.ok os, t')) :
    FixedUpTo fx t ps t' := by
  -- By induction on the visits done, each compared with the tree before all of them.
  have hrun := visitAll_induction (motive := fun done _ t₁ => done.Pairwise t.Different →
    t.NoTemporary done → FixedUpTo fx t done t₁) ?_ ?_ h
  · exact hrun hps ht
  · exact fun _ _ => FixedUpTo.nil fx t
  · intro done _ p o t₁ t₂ hm hv hpairs htemp
    obtain ⟨hdone, -, hlast⟩ := List.pairwise_append.1 hpairs
    have hbefore := hm hdone fun q hq => htemp q (List.mem_append_left [p] hq)
    have hp : ∀ q ∈ done, t.Different q p := fun q hq => hlast q hq p (by simp)
    exact hbefore.visit hp (fun q hq => htemp q (List.mem_append_right done hq)) hv

/-- A run of different files that ends with a failure failed in writing one of them. The texts
before that one are fixed; it, those after it and all else are as before, and no temporary file is
left. -/
theorem aborted_run_is_clean_cut {e : Failure} (hps : ps.Pairwise t.Different)
    (ht : t.NoTemporary ps) (h : fx.runFiles root false ps t = (.error e, t')) :
    ∃ done p rest, ps = done ++ p :: rest ∧
      (∃ s, t.readText p = .ok s ∧ (fx.fixText s).1 ≠ s ∧
        t'.writeAtomic p (fx.fixText s).1 ("write " ++ p.relativeTo root) = (.error e, t')) ∧
      (∀ q ∈ done, ∀ s, t.readText q = .ok s → t'.readText q = .ok (fx.fixText s).1) ∧
      (∀ q ∈ p :: rest, t'.entry? q = t.entry? q) ∧
      t'.NoTemporary ps ∧
      ∀ l, (∀ q ∈ done, t.resolve q = .ok l → ∀ s, t.readText q ≠ .ok s) →
        t'.get? l = t.get? l := by
  obtain ⟨done, p, rest, os, t₁, rfl, hdone, hfail⟩ := visitAll_eq_error (runFiles_eq_error h)
  obtain ⟨hpairs, htail, hcross⟩ := List.pairwise_append.1 hps
  have hcut : FixedUpTo fx t done t₁ :=
    fixedUpTo_of_visitAll hpairs (fun q hq => ht q (List.mem_append_left _ hq)) hdone
  obtain ⟨s, hread, hne, hwrite⟩ := writeAtomic_of_visit hfail
  -- Nothing was visited yet that the failing path or a later one leads to.
  have hlater : ∀ q ∈ p :: rest, ∀ l, t.resolve q = .ok l → t₁.get? l = t.get? l := by
    intro q hq l hl
    exact hcut.kept_of_different (fun r hr => hcross r hr q hq) hl
  -- The write failed where no temporary file was, so it left none.
  obtain ⟨l, hl, hs⟩ := Tree.readText_eq_ok_iff.1 hread
  have hfile : t₁.isFile p = true := Tree.isFile_iff.2 ⟨l, _, hl, hs⟩
  have htemp : ∀ c, t₁.get? (tempLocation l) ≠ some (.file c) := by
    intro c
    exact hcut.noTemporary ht p (by simp) hfile l c hl
  obtain rfl : t' = t₁ := Tree.writeAtomic_error (Tree.location_of_resolve hl) htemp hwrite
  have hl₀ : t.resolve p = .ok l := hcut.resolve p ▸ hl
  have hs₀ : t.get? l = some (textFile s) := (hlater p (by simp) l hl₀).symm.trans hs
  refine ⟨done, p, rest, rfl, ⟨s, Tree.readText_eq_ok_iff.2 ⟨l, hl₀, hs₀⟩, hne, hwrite⟩,
    ?_, ?_, hcut.noTemporary ht, ?_⟩
  · intro q hq r hr
    obtain ⟨k, hk, hkr⟩ := Tree.readText_eq_ok_iff.1 hr
    exact Tree.readText_eq_ok_iff.2 ⟨k, (hcut.resolve q).trans hk, hcut.fixed q k r hq hk hkr⟩
  · intro q hq
    exact Tree.entry_congr (hcut.resolve q) (hlater q hq)
  · intro k hk
    apply hcut.kept
    intro q hq hqk r hr
    exact hk q hq hqk r (Tree.readText_eq_ok_iff.2 ⟨k, hqk, hr⟩)

/-- Three playbooks to fix, of which the second cannot be written: a directory has the name of its
temporary file. -/
def blocked : Tree where
  workingDirectory := []
  entries := [(["playbooks".toList], .directory),
    (["playbooks".toList, "a.yml".toList], textFile "  k: yes\n"),
    (["playbooks".toList, "b.yml".toList], textFile "  k: yes\n"),
    (["playbooks".toList, ".b.yml.tmp".toList], .directory),
    (["playbooks".toList, "c.yml".toList], textFile "  k: yes\n")]

def blockedAfter : Tree where
  workingDirectory := []
  entries := [(["playbooks".toList], .directory),
    (["playbooks".toList, "a.yml".toList], textFile "  k: true\n"),
    (["playbooks".toList, "b.yml".toList], textFile "  k: yes\n"),
    (["playbooks".toList, ".b.yml.tmp".toList], .directory),
    (["playbooks".toList, "c.yml".toList], textFile "  k: yes\n")]

/-- The run that the second playbook ends. -/
theorem aborted_run_is_clean_cut_blocked :
    let ps : List Path := [⟨"playbooks/a.yml".toList⟩, ⟨"playbooks/b.yml".toList⟩,
      ⟨"playbooks/c.yml".toList⟩]
    ps.Pairwise blocked.Different ∧ blocked.NoTemporary ps ∧
      ∃ e, truthyOnly.runFiles ⟨Path.dot⟩ false ps blocked = (.error e, blockedAfter) ∧
        ∃ done p rest, ps = done ++ p :: rest ∧
          (∃ s, blocked.readText p = .ok s ∧ (truthyOnly.fixText s).1 ≠ s ∧
            blockedAfter.writeAtomic p (truthyOnly.fixText s).1
              ("write " ++ p.relativeTo ⟨Path.dot⟩) = (.error e, blockedAfter)) ∧
          (∀ q ∈ done, ∀ s, blocked.readText q = .ok s →
            blockedAfter.readText q = .ok (truthyOnly.fixText s).1) ∧
          (∀ q ∈ p :: rest, blockedAfter.entry? q = blocked.entry? q) ∧
          blockedAfter.NoTemporary ps ∧
          ∀ l, (∀ q ∈ done, blocked.resolve q = .ok l → ∀ s, blocked.readText q ≠ .ok s) →
            blockedAfter.get? l = blocked.get? l := by
  intro ps
  have ha : blocked.resolve ⟨"playbooks/a.yml".toList⟩ =
      .ok ["playbooks".toList, "a.yml".toList] := by decide
  have hb : blocked.resolve ⟨"playbooks/b.yml".toList⟩ =
      .ok ["playbooks".toList, "b.yml".toList] := by decide
  have hc : blocked.resolve ⟨"playbooks/c.yml".toList⟩ =
      .ok ["playbooks".toList, "c.yml".toList] := by decide
  have hps : ps.Pairwise blocked.Different := by
    simp only [ps, List.pairwise_cons, Tree.Different, List.forall_mem_cons, ha, hb, hc]
    simp
  -- What is in the way of the second file is a directory, so it is no temporary file.
  have htemp : blocked.NoTemporary ps := by
    have htempa : blocked.get? (tempLocation ["playbooks".toList, "a.yml".toList]) = none := by
      decide
    have htempb : blocked.get? (tempLocation ["playbooks".toList, "b.yml".toList]) =
        some .directory := by decide
    have htempc : blocked.get? (tempLocation ["playbooks".toList, "c.yml".toList]) = none := by
      decide
    simp only [ps, Tree.NoTemporary, List.forall_mem_cons, ha, hb, hc, Except.ok.injEq]
    refine ⟨?_, ?_, ?_, by simp⟩
    · rintro - l c rfl
      rw [htempa]
      nofun
    · rintro - l c rfl
      rw [htempb]
      nofun
    · rintro - l c rfl
      rw [htempc]
      nofun
  have hrun : truthyOnly.runFiles ⟨Path.dot⟩ false ps blocked =
      (.error (IoError.isDirectory.toFailure "write playbooks/b.yml (write temp)"),
        blockedAfter) := by
    cbv
  exact ⟨hps, htemp, _, hrun, aborted_run_is_clean_cut hps htemp hrun⟩

end Fixer

end PlaybookTidy
