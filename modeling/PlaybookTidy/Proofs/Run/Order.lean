import PlaybookTidy.Proofs.Run.DryRun
import PlaybookTidy.Proofs.Tree.Writable

/-!
The order of a batch. Visits of files that keep clear of one another commute, so a batch of such
files ends well in every order or in none, and leaves one tree.
-/

namespace PlaybookTidy

namespace Tree

variable {t t' : Tree} {p q : Path}

/-- The paths lead neither to one file nor to a file and the one with its temporary name. -/
def Apart (t : Tree) (p q : Path) : Prop :=
  ∀ l m c d, t.resolve p = .ok l → t.resolve q = .ok m → t.get? l = some (.file c) →
    t.get? m = some (.file d) → l ≠ m ∧ l ≠ tempLocation m ∧ m ≠ tempLocation l

theorem Apart.symm (h : t.Apart p q) : t.Apart q p := by
  intro l m c d hl hm hc hd
  obtain ⟨hne, hlm, hml⟩ := h m l d c hm hl hd hc
  exact ⟨hne.symm, hml, hlm⟩

theorem Apart.spares (h : t.Apart p q) : t.Spares p q := by
  intro l m c d hl hm hc hd
  obtain ⟨hne, -, hml⟩ := h l m c d hl hm hc hd
  exact ⟨hne.symm, hml⟩

/-- Paths that are apart stay apart as files disappear. -/
theorem Apart.shrinks (h : t.Apart p q) (ht : Shrinks t t') : t'.Apart p q := by
  intro l m c d hl hm hc hd
  obtain ⟨c', hc'⟩ := ht.file hc
  obtain ⟨d', hd'⟩ := ht.file hd
  exact h l m c' d' (ht.resolve hl (by simp [hc])) (ht.resolve hm (by simp [hd])) hc' hd'

end Tree

/-- Sums of replacements do not depend on the order of the reports. -/
theorem Summary.ofOutcomes_perm {os os' : List Outcome} (h : os.Perm os') :
    Summary.ofOutcomes os = Summary.ofOutcomes os' := by
  have hreports := h.filterMap Outcome.report?
  have hsum : ∀ rs rs' : List FileReport, rs.Perm rs' →
      rs.foldl (fun n r => n + r.replacements) {} =
        rs'.foldl (fun n r => n + r.replacements) ({} : Replacements) := by
    intro rs rs' hperm
    apply hperm.foldl_eq'
    intro r _ r' _ n
    exact Replacements.add_right_comm n r.replacements r'.replacements
  unfold Summary.ofOutcomes
  simp only [h.length_eq, hreports.countP_eq, (h.filterMap Outcome.skip?).length_eq,
    hsum _ _ hreports]

namespace Fixer

open PlaybookTidy.Tree (textFile tempLocation SameAt Shrinks SameDirectories)

variable {fx : Fixer} {root p q : Path} {t t₁ t₂ t' : Tree} {ps qs : List Path} {o o' : Outcome}
  {os : List Outcome}

def edit (fx : Fixer) (t : Tree) (p : Path) : Option (Location × String) :=
  match t.resolve p, t.readText p with
  | .ok l, .ok s => if (fx.fixText s).1 = s then none else some (l, (fx.fixText s).1)
  | _, _ => none

def withEdit (t : Tree) : Option (Location × String) → Tree
  | none => t
  | some (l, s) => (t.erase (tempLocation l)).set l (textFile s)

theorem edit_of_readText {l : Location} {s : String} (hl : t.resolve p = .ok l)
    (hs : t.readText p = .ok s) :
    fx.edit t p = if (fx.fixText s).1 = s then none else some (l, (fx.fixText s).1) := by
  simp only [edit, hl, hs]

theorem edit_of_error {e : IoError} (h : t.readText p = .error e) : fx.edit t p = none := by
  unfold edit
  cases t.resolve p <;> simp [h]

/-- A file that would be replaced holds a text. -/
theorem file_of_edit {l : Location} {s : String} (h : fx.edit t p = some (l, s)) :
    t.resolve p = .ok l ∧ ∃ r, t.get? l = some (textFile r) := by
  cases hread : t.readText p with
  | error e => simp [edit_of_error hread] at h
  | ok r =>
    obtain ⟨k, hk, hr⟩ := Tree.readText_eq_ok_iff.1 hread
    rw [edit_of_readText hk hread] at h
    obtain ⟨-, rfl, -⟩ : _ ∧ k = l ∧ _ := by simpa using h
    exact ⟨hk, r, hr⟩

namespace Visited

/-- What a visit does to the tree is to write what it would write. -/
theorem tree_eq (h : Visited fx root p t o t') : t' = withEdit t (fx.edit t p) := by
  cases h with
  | skipped e he => rw [edit_of_error he, withEdit]
  | settled l s hl hs hfix =>
    rw [edit_of_readText hl (Tree.readText_eq_ok_iff.2 ⟨l, hl, hs⟩), if_pos hfix, withEdit]
  | replaced l s hl hs hne hdir =>
    rw [edit_of_readText hl (Tree.readText_eq_ok_iff.2 ⟨l, hl, hs⟩), if_neg hne, withEdit]

/-- A visit changes nothing about what is to be written for a path that is apart. -/
theorem edit_eq (hv : Visited fx root p t o t') (h : t.Apart p q) :
    fx.edit t' q = fx.edit t q := by
  cases hread : t.readText q with
  | ok r =>
    obtain ⟨k, hk⟩ := Tree.readText_eq_ok_iff.1 hread
    rw [edit_of_readText hk.1 hread,
      edit_of_readText ((hv.text_iff h.spares).2 hk).1 ((hv.readText_iff h.spares).2 hread)]
  | error e =>
    cases hread' : t'.readText q with
    | ok r => simp [(hv.readText_iff h.spares).1 hread'] at hread
    | error e' => rw [edit_of_error hread, edit_of_error hread']

end Visited

/-- Whether a visit ends well depends on the text that is read and on where directories are. -/
theorem exists_visit (hd : SameDirectories t t₁)
    (hread : ∀ s, t₁.readText q = .ok s ↔ t.readText q = .ok s)
    (hv : fx.visit root false q t = (.ok o, t')) :
    ∃ o₁ t₂, fx.visit root false q t₁ = (.ok o₁, t₂) := by
  cases hread₁ : t₁.readText q with
  | error e => exact ⟨_, _, visit_of_error hread₁⟩
  | ok s =>
    by_cases hs : (fx.fixText s).1 = s
    · exact ⟨_, _, visit_of_settled hread₁ hs⟩
    · rw [visit_of_pending ((hread s).1 hread₁) hs] at hv
      rw [visit_of_pending hread₁ hs]
      cases hw : t.writeAtomic q (fx.fixText s).1 ("write " ++ q.relativeTo root) with
      | mk r t₂ =>
        cases r with
        | error e => simp [hw, Except.map] at hv
        | ok u =>
          obtain ⟨t₃, hw'⟩ := Tree.writeAtomic_congr hd hw
          exact ⟨_, t₃, by rw [hw']; rfl⟩

/-- Visits of two files that are apart can change places. -/
theorem visit_swap (h : t.Apart p q) (hp : fx.visit root false p t = (.ok o, t₁))
    (hq : fx.visit root false q t₁ = (.ok o', t₂)) :
    ∃ u u' t₃, fx.visit root false q t = (.ok u, t₃) ∧
      fx.visit root false p t₃ = (.ok u', t₂) := by
  have hvp := visited_of_visit hp
  have hvq := visited_of_visit hq
  -- First `q` in the tree before both visits, then `p` in the tree that this leaves.
  obtain ⟨u, t₃, hq₃⟩ := exists_visit hvp.shrinks.sameDirectories.symm
    (fun s => (hvp.readText_iff h.spares).symm) hq
  have hvq₃ := visited_of_visit hq₃
  obtain ⟨u', t₄, hp₄⟩ := exists_visit hvq₃.shrinks.sameDirectories
    (fun s => hvq₃.readText_iff h.symm.spares) hp
  have hvp₄ := visited_of_visit hp₄
  refine ⟨u, u', t₃, hq₃, ?_⟩
  -- Both orders make the same two edits.
  suffices htree : t₄ = t₂ by rw [hp₄, htree]
  rw [hvp₄.tree_eq, hvq₃.edit_eq h.symm, hvq₃.tree_eq, hvq.tree_eq, hvp.edit_eq h, hvp.tree_eq]
  cases hep : fx.edit t p with
  | none => rfl
  | some x =>
    obtain ⟨l, s⟩ := x
    cases heq : fx.edit t q with
    | none => rfl
    | some y =>
      obtain ⟨m, r⟩ := y
      obtain ⟨hl, c, hc⟩ := file_of_edit hep
      obtain ⟨hm, d, hd⟩ := file_of_edit heq
      obtain ⟨hlm, hlt, hmt⟩ := h l m _ _ hl hm hc hd
      exact (Tree.replaced_comm hc hd hlm hlt hmt).symm

/-- A run over files that are apart ends well in every order if it does in one. -/
theorem visitAll_perm (hperm : ps.Perm qs) (hps : ps.Pairwise t.Apart)
    (h : fx.visitAll root false ps t = (.ok os, t')) :
    ∃ os', fx.visitAll root false qs t = (.ok os', t') := by
  -- By induction on how the lists are permuted: the case with an idea is that of a swap.
  induction hperm generalizing t os with
  | nil => exact ⟨os, h⟩
  | cons p _ ih =>
    obtain ⟨o, rest, t₁, hvisit, hrest, rfl⟩ := visitAll_cons_eq_ok h
    have ht := (visited_of_visit hvisit).shrinks
    obtain ⟨rest', hrest'⟩ := ih ((List.pairwise_cons.1 hps).2.imp fun h => h.shrinks ht) hrest
    exact ⟨o :: rest', by simp only [visitAll, hvisit, hrest', Except.map]⟩
  | swap p q ps =>
    obtain ⟨o, rest, t₁, hq, hrest, rfl⟩ := visitAll_cons_eq_ok h
    obtain ⟨o', rest', t₂, hp, hrest', rfl⟩ := visitAll_cons_eq_ok hrest
    have hqp : t.Apart q p := (List.pairwise_cons.1 hps).1 p (by simp)
    obtain ⟨u, u', t₃, hp₃, hq₃⟩ := visit_swap hqp hq hp
    exact ⟨u :: u' :: rest', by simp only [visitAll, hp₃, hq₃, hrest', Except.map]⟩
  | trans hpq _ ihp ihq =>
    obtain ⟨os₁, h₁⟩ := ihp hps h
    exact ihq ((hpq.pairwise_iff fun h => h.symm).1 hps) h₁

/-- A batch of files of which none is another one or its temporary file ends well in every order or
in none, and then leaves the same tree and reports the same. A file that is skipped is skipped in
every order; the reason can differ only where a path comes by the temporary file of another. -/
theorem batch_order_irrelevant (fx : Fixer) (root : Path) (hps : ps.Pairwise t.Apart)
    (hperm : ps.Perm qs) :
    ((∃ res t', fx.runFiles root false ps t = (.ok res, t')) ↔
        ∃ res t', fx.runFiles root false qs t = (.ok res, t')) ∧
      ∀ res res' t' t'', fx.runFiles root false ps t = (.ok res, t') →
        fx.runFiles root false qs t = (.ok res', t'') →
        t'' = t' ∧ res'.summary = res.summary ∧ res'.files.Perm res.files ∧
          (res'.skipped.map SkippedFile.file).Perm (res.skipped.map SkippedFile.file) ∧
          ((∀ p ∈ ps, ∀ q ∈ ps, ¬ t.Hinders p q) → res'.skipped.Perm res.skipped) := by
  have hqs : qs.Pairwise t.Apart := (hperm.pairwise_iff fun h => h.symm).1 hps
  have hok : ∀ {ps qs : List Path}, ps.Perm qs → ps.Pairwise t.Apart →
      (∃ res t', fx.runFiles root false ps t = (.ok res, t')) →
      ∃ res t', fx.runFiles root false qs t = (.ok res, t') := by
    rintro ps qs hperm hps ⟨res, t', hrun⟩
    obtain ⟨os, hos, -⟩ := runFiles_eq_ok hrun
    obtain ⟨os', hos'⟩ := visitAll_perm hperm hps hos
    exact ⟨_, t', by rw [runFiles_eq, hos']; rfl⟩
  refine ⟨⟨hok hperm hps, hok hperm.symm hqs⟩, ?_⟩
  intro res res' t' t'' hrun hrun'
  obtain ⟨os, hos, rfl⟩ := runFiles_eq_ok hrun
  obtain ⟨os', hos', rfl⟩ := runFiles_eq_ok hrun'
  have htree : t'' = t' := by
    obtain ⟨os₁, h₁⟩ := visitAll_perm hperm hps hos
    rw [hos'] at h₁
    exact (Prod.mk.inj h₁).2
  -- But for the reasons, both runs say of each path what it says before them.
  have hsilent : (os'.map Outcome.silent).Perm (os.map Outcome.silent) := by
    rw [silent_outcomes (hps.imp Tree.Apart.spares) hos,
      silent_outcomes (hqs.imp Tree.Apart.spares) hos']
    exact ((hperm.map _).map _).symm
  refine ⟨htree, ?_, ?_, ?_, ?_⟩
  · have hsum := Summary.ofOutcomes_perm hsilent
    rwa [Outcome.ofOutcomes_silent, Outcome.ofOutcomes_silent] at hsum
  · have hfiles := hsilent.filterMap Outcome.report?
    rwa [Outcome.filterMap_report?_silent, Outcome.filterMap_report?_silent] at hfiles
  · have hskipped := (hsilent.filterMap Outcome.skip?).map SkippedFile.file
    rwa [Outcome.map_file_silent, Outcome.map_file_silent] at hskipped
  · intro hclear
    have hnone : ∀ {rs : List Path}, (∀ p ∈ rs, p ∈ ps) → ∀ q ∈ rs, ¬ t.Hindered rs q := by
      rintro rs hrs q hq ⟨p, hsub, hhinders⟩
      exact hclear p (hrs p (hsub.subset (by simp))) q (hrs q hq) hhinders
    obtain rfl := outcomes_of_clear (hps.imp Tree.Apart.spares) (hnone fun p hp => hp) hos
    obtain rfl := outcomes_of_clear (hqs.imp Tree.Apart.spares)
      (hnone fun p hp => hperm.mem_iff.2 hp) hos'
    exact (hperm.map _).symm.filterMap Outcome.skip?

/-- A file to fix, a missing one and a directory, forwards and backwards. An unlisted file has the
name of the temporary one. -/
theorem batch_order_irrelevant_crowded :
    let ps : List Path := [⟨"playbooks/a.yml".toList⟩, ⟨"playbooks/b.yml".toList⟩,
      ⟨"playbooks".toList⟩]
    ps.Pairwise crowded.Apart ∧ ps.Perm ps.reverse ∧
      (∀ p ∈ ps, ∀ q ∈ ps, ¬ crowded.Hinders p q) ∧
      ∃ res res', truthyOnly.runFiles ⟨Path.dot⟩ false ps crowded = (.ok res, crowdedAfter) ∧
        truthyOnly.runFiles ⟨Path.dot⟩ false ps.reverse crowded = (.ok res', crowdedAfter) ∧
        res'.summary = res.summary ∧ res'.files.Perm res.files ∧
        res'.skipped.Perm res.skipped := by
  intro ps
  have hfile : crowded.resolve ⟨"playbooks/a.yml".toList⟩ =
      .ok ["playbooks".toList, "a.yml".toList] := by decide
  have hmissing : crowded.resolve ⟨"playbooks/b.yml".toList⟩ = .error .notFound := by decide
  have hdir : crowded.resolve ⟨"playbooks".toList⟩ = .ok ["playbooks".toList] := by decide
  have hget : crowded.get? ["playbooks".toList] = some .directory := by decide
  have hps : ps.Pairwise crowded.Apart := by
    -- Of any two paths the later one leads to no file.
    have hlater : ∀ p q, q ∈ ps.tail → crowded.Apart p q := by
      rintro p q hq l m c d - hm - hd
      simp only [ps, List.tail_cons, List.mem_cons, List.not_mem_nil, or_false] at hq
      rcases hq with rfl | rfl
      · rw [hmissing] at hm
        exact absurd hm nofun
      · obtain rfl := Except.ok.inj (hdir.symm.trans hm)
        rw [hget] at hd
        exact absurd hd nofun
    refine List.pairwise_cons.2 ⟨fun q hq => hlater _ q hq, ?_⟩
    exact List.pairwise_pair.2 (hlater _ _ (by simp [ps]))
  have hclear : ∀ p ∈ ps, ∀ q ∈ ps, ¬ crowded.Hinders p q := by
    rintro p hp q hq ⟨l, c, d, hl, hc, -, hstop⟩
    simp only [ps, List.mem_cons, List.not_mem_nil, or_false] at hp
    rcases hp with rfl | rfl | rfl
    · obtain rfl := Except.ok.inj (hfile.symm.trans hl)
      revert q
      decide
    · rw [hmissing] at hl
      exact absurd hl nofun
    · obtain rfl := Except.ok.inj (hdir.symm.trans hl)
      rw [hget] at hc
      exact absurd hc nofun
  have hperm : ps.Perm ps.reverse := (List.reverse_perm ps).symm
  obtain ⟨hok, hsame⟩ := batch_order_irrelevant truthyOnly ⟨Path.dot⟩ hps hperm
  obtain ⟨res', t'', hrun'⟩ := hok.1 ⟨_, _, runFiles_crowded⟩
  obtain ⟨rfl, hsum, hfiles, -, hskipped⟩ := hsame _ _ _ _ runFiles_crowded hrun'
  exact ⟨hps, hperm, hclear, _, res', runFiles_crowded, hrun', hsum, hfiles, hskipped hclear⟩

/-- A path below the temporary file of another one is skipped for one reason before that one is
written and for another reason afterwards. -/
theorem order_changes_reason :
    ¬ ∀ (d : Defaults) (only : Option (List Rule)) (fx : Fixer) (root : Path) (ps qs : List Path)
      (t t' t'' : Tree) (res res' : FixResult), ofDefaults d only = .ok fx →
      (ps.Pairwise fun p q => t.destination p ≠ t.destination q ∧
        t.destination q ≠ tempLocation (t.destination p) ∧
        t.destination p ≠ tempLocation (t.destination q)) →
      ps.Perm qs → fx.runFiles root false ps t = (.ok res, t') →
      fx.runFiles root false qs t = (.ok res', t'') → res'.skipped.Perm res.skipped := by
  intro h
  have hbefore : truthyOnly.runFiles ⟨Path.dot⟩ false
      [⟨"playbooks/.a.yml.tmp/b.yml".toList⟩, ⟨"playbooks/a.yml".toList⟩] crowded =
      (.ok (truthyOnly.resultOf ⟨Path.dot⟩ false
        [.skip ⟨"playbooks/.a.yml.tmp/b.yml", "Not a directory (os error 20)"⟩,
          .report ⟨"playbooks/a.yml", true, true, { truthy := 1 }⟩]),
        crowdedAfter) := by
    cbv
  have hperm := h {} (some [.truthy]) truthyOnly _ _ _ _ _ _ _ _ ofDefaults_truthyOnly (by decide)
    (.swap _ _ _) runFiles_below_temporary hbefore
  exact absurd hperm (by decide)

end Fixer

end PlaybookTidy
