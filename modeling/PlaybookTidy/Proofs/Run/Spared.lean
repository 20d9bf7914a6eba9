import Mathlib.Data.List.Forall2
import PlaybookTidy.Proofs.Run.Frame
import PlaybookTidy.Proofs.Tree.Local

/-!
What a run says of the files that its earlier visits left alone: what it would have said of them at
its beginning. Only why a file is skipped can change, where its path comes by a file that had the
name of a temporary one.
-/

namespace PlaybookTidy

namespace Tree

variable {t t' : Tree} {p q : Path} {ps : List Path}

/-- Replacing the file that `p` leads to does not touch the one that `q` leads to. -/
def Spares (t : Tree) (p q : Path) : Prop :=
  ∀ l m c d, t.resolve p = .ok l → t.resolve q = .ok m → t.get? l = some (.file c) →
    t.get? m = some (.file d) → m ≠ l ∧ m ≠ tempLocation l

/-- The path `q` comes by a file with the temporary name of the file that `p` leads to. -/
def Hinders (t : Tree) (p q : Path) : Prop :=
  ∃ l c d, t.resolve p = .ok l ∧ t.get? l = some (.file c) ∧
    t.get? (tempLocation l) = some (.file d) ∧ tempLocation l ∈ t.stops q

def Hindered (t : Tree) (ps : List Path) (q : Path) : Prop :=
  ∃ p, [p, q].Sublist ps ∧ t.Hinders p q

/-- A file that is spared stays spared as files disappear. -/
theorem Spares.shrinks (h : t.Spares p q) (ht : Shrinks t t') : t'.Spares p q := by
  intro l m c d hl hm hc hd
  obtain ⟨c', hc'⟩ := ht.file hc
  obtain ⟨d', hd'⟩ := ht.file hd
  exact h l m c' d' (ht.resolve hl (by simp [hc])) (ht.resolve hm (by simp [hd])) hc' hd'

/-- No file comes into the way of a path as others disappear. -/
theorem Hinders.of_shrinks (h : t'.Hinders p q) (ht : Shrinks t t') : t.Hinders p q := by
  obtain ⟨l, c, d, hl, hc, hd, hstop⟩ := h
  obtain ⟨c', hc'⟩ := ht.file hc
  obtain ⟨d', hd'⟩ := ht.file hd
  rw [stops, start_congr ht.workingDirectory] at hstop
  exact ⟨l, c', d', ht.resolve hl (by simp [hc]), hc', hd', hstop⟩

theorem Hindered.of_shrinks (h : t'.Hindered ps q) (ht : Shrinks t t') : t.Hindered ps q := by
  obtain ⟨r, hr, hhinders⟩ := h
  exact ⟨r, hr, hhinders.of_shrinks ht⟩

theorem Hindered.cons (h : t.Hindered ps q) (p : Path) : t.Hindered (p :: ps) q := by
  obtain ⟨r, hr, hhinders⟩ := h
  exact ⟨r, hr.cons p, hhinders⟩

theorem not_hindered_singleton (t : Tree) (p q : Path) : ¬ t.Hindered [p] q := by
  rintro ⟨r, hr, -⟩
  simpa using hr.length_le

end Tree

/-- The same without the reason for which a file was skipped. -/
def Outcome.silent : Outcome → Outcome
  | .report r => .report r
  | .skip s => .skip { s with reason := "" }

namespace Outcome

theorem filterMap_report?_silent (os : List Outcome) :
    (os.map Outcome.silent).filterMap Outcome.report? = os.filterMap Outcome.report? := by
  rw [List.filterMap_map]
  apply List.filterMap_congr
  intro o _
  cases o <;> rfl

theorem map_file_silent (os : List Outcome) :
    ((os.map Outcome.silent).filterMap Outcome.skip?).map SkippedFile.file =
      (os.filterMap Outcome.skip?).map SkippedFile.file := by
  rw [List.filterMap_map, List.map_filterMap, List.map_filterMap]
  apply List.filterMap_congr
  intro o _
  cases o <;> rfl

/-- A summary counts what was skipped and does not say why. -/
theorem ofOutcomes_silent (os : List Outcome) :
    Summary.ofOutcomes (os.map Outcome.silent) = Summary.ofOutcomes os := by
  have hskip := congrArg List.length (map_file_silent os)
  simp only [List.length_map] at hskip
  simp only [Summary.ofOutcomes, filterMap_report?_silent, List.length_map, hskip]

end Outcome

namespace Fixer

open PlaybookTidy.Tree (textFile tempLocation SameAt Shrinks)

variable {fx : Fixer} {root p q : Path} {t t' : Tree} {ps : List Path} {o : Outcome}
  {os : List Outcome}

/-- What a run says of a file that it finds in a tree, if it can write what it has to. -/
def outcome (fx : Fixer) (root : Path) (dryRun : Bool) (t : Tree) (p : Path) : Outcome :=
  match t.readText p with
  | .error e => .skip ⟨p.relativeTo root, e.text⟩
  | .ok s =>
    let changed := decide ((fx.fixText s).1 ≠ s)
    .report ⟨p.relativeTo root, changed, changed && !dryRun, (fx.fixText s).2⟩

theorem outcome_of_error {dryRun : Bool} {e : IoError} (h : t.readText p = .error e) :
    fx.outcome root dryRun t p = .skip ⟨p.relativeTo root, e.text⟩ := by
  simp only [outcome, h]

theorem outcome_of_readText {dryRun : Bool} {s : String} (h : t.readText p = .ok s) :
    fx.outcome root dryRun t p = .report ⟨p.relativeTo root, decide ((fx.fixText s).1 ≠ s),
      decide ((fx.fixText s).1 ≠ s) && !dryRun, (fx.fixText s).2⟩ := by
  simp only [outcome, h]

namespace Visited

/-- What a visit says of a file follows from the tree in which it finds it. -/
theorem outcome_eq (h : Visited fx root p t o t') : o = fx.outcome root false t p := by
  cases h with
  | skipped e he => rw [outcome_of_error he]
  | settled l s hl hs hfix =>
    have hread := Tree.readText_eq_ok_iff.2 ⟨l, hl, hs⟩
    simp [outcome_of_readText hread, hfix]
  | replaced l s hl hs hne hdir =>
    have hread := Tree.readText_eq_ok_iff.2 ⟨l, hl, hs⟩
    simp [outcome_of_readText hread, hne]

theorem shrinks (h : Visited fx root p t o t') : Shrinks t t' := by
  cases h with
  | skipped e he => exact Shrinks.refl t
  | settled l s hl hs hfix => exact Shrinks.refl t
  | replaced l s hl hs hne hdir => exact Tree.shrinks_replaced hs hdir _

/-- A path that is spared leads to a text after a visit exactly if it did before. -/
theorem text_iff (hv : Visited fx root p t o t') (h : t.Spares p q) {k : Location} {r : String} :
    t'.resolve q = .ok k ∧ t'.get? k = some (textFile r) ↔
      t.resolve q = .ok k ∧ t.get? k = some (textFile r) := by
  have ht := hv.shrinks
  cases hv with
  | skipped e he => rfl
  | settled l s hl hs hfix => rfl
  | replaced l s hl hs hne hdir =>
    have hnil : l ≠ [] := Tree.ne_nil_of_file hs
    constructor
    · rintro ⟨hk, hr⟩
      have hkt := ht.resolve hk (by simp [hr])
      -- The file is none that the visit wrote, since `q` led to a file before as well.
      obtain ⟨c, hc⟩ := ht.file hr
      obtain ⟨hkl, hktemp⟩ := h l k _ c hl hkt hs hc
      rw [Tree.get?_replaced hnil, if_neg hkl, if_neg hktemp] at hr
      exact ⟨hkt, hr⟩
    · rintro ⟨hk, hr⟩
      obtain ⟨hkl, hktemp⟩ := h l k _ _ hl hk hs hr
      have hr' : ((t.erase (tempLocation l)).set l (textFile (fx.fixText s).1)).get? k =
          some (textFile r) := by
        rw [Tree.get?_replaced hnil, if_neg hkl, if_neg hktemp, hr]
      exact ⟨ht.resolve_of hk (by simp [hr']), hr'⟩

theorem readText_iff (hv : Visited fx root p t o t') (h : t.Spares p q) {r : String} :
    t'.readText q = .ok r ↔ t.readText q = .ok r := by
  simp only [Tree.readText_eq_ok_iff, hv.text_iff h]

/-- After a visit the same is said of a path that is spared, but for the reason to skip it. -/
theorem silent_eq (hv : Visited fx root p t o t') (h : t.Spares p q) :
    (fx.outcome root false t' q).silent = (fx.outcome root false t q).silent := by
  cases hread : t.readText q with
  | ok r => rw [outcome_of_readText hread, outcome_of_readText ((hv.readText_iff h).2 hread)]
  | error e =>
    cases hread' : t'.readText q with
    | ok r => simp [(hv.readText_iff h).1 hread'] at hread
    | error e' =>
      rw [outcome_of_error hread, outcome_of_error hread']
      rfl

/-- A path that is not hindered is also refused for the reason for which it was. -/
theorem outcome_eq_of_spares (hv : Visited fx root p t o t') (h : t.Spares p q)
    (hclear : ¬ t.Hinders p q) : fx.outcome root false t' q = fx.outcome root false t q := by
  have hsame : SameAt t t' q := by
    cases hv with
    | skipped e he => exact SameAt.refl t q
    | settled l s hl hs hfix => exact SameAt.refl t q
    | replaced l s hl hs hne hdir =>
      apply Tree.sameAt_replaced hs
      · intro hq
        exact (h l l _ _ hl hq hs hs).1 rfl
      · intro hstop
        cases htemp : t.get? (tempLocation l) with
        | none => rfl
        | some e =>
          cases e with
          | directory => exact absurd htemp hdir
          | file d => exact absurd ⟨l, _, d, hl, hs, htemp, hstop⟩ hclear
  simp only [outcome, hsame.readText]

end Visited

/-- A run that ends well says of each file what it would have said of it before the first visit,
but for the reason of one that is skipped and hindered. -/
theorem outcomes_of_visitAll (hps : ps.Pairwise t.Spares)
    (h : fx.visitAll root false ps t = (.ok os, t')) :
    List.Forall₂ (fun o q => o.silent = (fx.outcome root false t q).silent ∧
      (o = fx.outcome root false t q ∨ t.Hindered ps q)) os ps := by
  induction ps generalizing t os with
  | nil =>
    obtain ⟨rfl, -⟩ : [] = os ∧ t = t' := by simpa [visitAll] using h
    exact .nil
  | cons p ps ih =>
    obtain ⟨o, rest, t₁, hvisit, hrest, rfl⟩ := visitAll_cons_eq_ok h
    have hv := visited_of_visit hvisit
    obtain ⟨hp, htail⟩ := List.pairwise_cons.1 hps
    have hsame := ih (htail.imp fun h => h.shrinks hv.shrinks) hrest
    refine .cons ⟨by rw [hv.outcome_eq], Or.inl hv.outcome_eq⟩ ?_
    -- The rest is said in the tree that the first visit left.
    rw [List.forall₂_iff_zip] at hsame ⊢
    refine ⟨hsame.1, fun {o' q} hmem => ?_⟩
    have hq : q ∈ ps := (List.of_mem_zip hmem).2
    obtain ⟨hsilent, hreason⟩ := hsame.2 hmem
    refine ⟨hsilent.trans (hv.silent_eq (hp q hq)), ?_⟩
    rcases hreason with hreason | hhindered
    · by_cases hclear : t.Hinders p q
      · exact Or.inr ⟨p, (List.singleton_sublist.2 hq).cons_cons p, hclear⟩
      · exact Or.inl (hreason.trans (hv.outcome_eq_of_spares (hp q hq) hclear))
    · exact Or.inr ((hhindered.of_shrinks hv.shrinks).cons p)

theorem silent_outcomes (hps : ps.Pairwise t.Spares)
    (h : fx.visitAll root false ps t = (.ok os, t')) :
    os.map Outcome.silent = (ps.map (fx.outcome root false t)).map Outcome.silent := by
  have hsame := (outcomes_of_visitAll hps h).imp fun _ _ h => h.1
  rwa [List.map_map, ← List.forall₂_eq_eq_eq, List.forall₂_map_left_iff,
    List.forall₂_map_right_iff]

/-- Where no path is hindered, a run says of each file what it would have said at the beginning. -/
theorem outcomes_of_clear (hps : ps.Pairwise t.Spares) (hclear : ∀ q ∈ ps, ¬ t.Hindered ps q)
    (h : fx.visitAll root false ps t = (.ok os, t')) :
    os = ps.map (fx.outcome root false t) := by
  have hsame := outcomes_of_visitAll hps h
  rw [← List.forall₂_eq_eq_eq, List.forall₂_map_right_iff]
  rw [List.forall₂_iff_zip] at hsame ⊢
  refine ⟨hsame.1, fun {o q} hmem => ?_⟩
  exact (hsame.2 hmem).2.resolve_right (hclear q (List.of_mem_zip hmem).2)

end Fixer

end PlaybookTidy
