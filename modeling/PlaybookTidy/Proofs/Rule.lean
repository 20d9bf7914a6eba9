import Mathlib.Data.List.Destutter
import Mathlib.Data.List.Sort
import Mathlib.Data.List.Sublists
import PlaybookTidy.Rule

/-!
Selections of rules. A rule has one name, and of a selection only counts which rules are in it: they
are put in the order of application, each once.
-/

namespace PlaybookTidy.Rule

variable {rs rs' : List Rule} {r : Rule} {n : String}

def rank (r : Rule) : Nat := all.idxOf r

theorem ofId?_eq_some_iff : ofId? n = some r ↔ r.id = n := by
  constructor
  · intro h
    simpa using List.find?_some h
  · rintro rfl
    exact ofId?_id r

theorem ofId_eq_ok_iff : ofId n = .ok r ↔ r.id = n := by
  rw [← ofId?_eq_some_iff, ofId]
  cases ofId? n <;> simp

theorem ofId_eq_error {e : Failure} (h : ofId n = .error e) : e = Failure.unknownRule n := by
  unfold ofId at h
  split at h
  · simp at h
  · exact (Except.error.inj h).symm

/-- Only what is selected counts, not how often or in which order. -/
theorem normalize_congr (h : ∀ r, r ∈ rs ↔ r ∈ rs') : normalize rs = normalize rs' := by
  simp only [normalize, h]

/-- Selected rules are in order, and none is there twice. -/
theorem pairwise_normalize (rs : List Rule) :
    (normalize rs).Pairwise fun a b => a.rank < b.rank := by
  have hall : all.Pairwise fun a b => a.rank < b.rank := by decide
  exact hall.filter _

/-- Rules that are in order, each at most once, are a selection as it is applied. -/
theorem normalize_of_sublist (h : rs.Sublist all) : normalize rs = rs := by
  have hall : ∀ qs ∈ all.sublists, normalize qs = qs := by decide
  exact hall rs (List.mem_sublists.2 h)

theorem rank_injective : Function.Injective rank := by
  intro a b
  cases a <;> cases b <;> decide

theorem mem_destutter' (q : Rule) : r ∈ rs.destutter' (· ≠ ·) q ↔ r = q ∨ r ∈ rs := by
  induction rs generalizing q with
  | nil => simp
  | cons p rs ih =>
    by_cases hqp : q = p
    · subst hqp
      rw [List.destutter'_cons_neg _ (by simp), ih]
      simp
    · rw [List.destutter'_cons_pos _ hqp, List.mem_cons, ih, List.mem_cons]

/-- Without repetitions the rules of an ordered list come one strictly after the other. -/
theorem pairwise_destutter' (q : Rule) (h : (q :: rs).Pairwise fun a b => a.rank ≤ b.rank) :
    (rs.destutter' (· ≠ ·) q).Pairwise fun a b => a.rank < b.rank := by
  induction rs generalizing q with
  | nil => simp
  | cons p rs ih =>
    obtain ⟨hq, hrest⟩ := List.pairwise_cons.1 h
    by_cases hqp : q = p
    · subst hqp
      rw [List.destutter'_cons_neg _ (by simp)]
      exact ih q hrest
    · have hlt : q.rank < p.rank :=
        Nat.lt_of_le_of_ne (hq p (by simp)) (mt (fun h => rank_injective h) hqp)
      rw [List.destutter'_cons_pos _ hqp, List.pairwise_cons]
      refine ⟨fun r hr => ?_, ih p hrest⟩
      rcases (mem_destutter' p).1 hr with rfl | hr
      · exact hlt
      · exact Nat.lt_of_lt_of_le hlt ((List.pairwise_cons.1 hrest).1 r hr)

/-- A selection is put in the order of application and then freed of repetitions. -/
theorem normalize_eq_destutter (rs : List Rule) :
    normalize rs = (rs.mergeSort fun a b => decide (a.rank ≤ b.rank)).destutter (· ≠ ·) := by
  have hsorted : (rs.mergeSort fun a b => decide (a.rank ≤ b.rank)).Pairwise
      fun a b => decide (a.rank ≤ b.rank) = true := by
    apply List.pairwise_mergeSort
    · simpa using fun _ _ _ => Nat.le_trans
    · simpa using fun _ _ => Nat.le_total _ _
  have hmem : ∀ r, r ∈ rs.mergeSort (fun a b => decide (a.rank ≤ b.rank)) ↔ r ∈ rs :=
    fun r => List.mem_mergeSort
  generalize rs.mergeSort (fun a b => decide (a.rank ≤ b.rank)) = sorted at hsorted hmem ⊢
  have hirrefl : Std.Irrefl fun a b : Rule => a.rank < b.rank := ⟨fun a => Nat.lt_irrefl a.rank⟩
  have hantisymm : Std.Antisymm fun a b : Rule => a.rank < b.rank :=
    ⟨fun a b h h' => absurd h (Nat.lt_asymm h')⟩
  cases sorted with
  | nil => simp [normalize, ← hmem]
  | cons q sorted =>
    rw [List.destutter_cons']
    have hstrict := pairwise_destutter' q (by simpa using hsorted)
    refine (pairwise_normalize rs).eq_of_mem_iff hstrict fun r => ?_
    rw [mem_normalize, mem_destutter', ← hmem, List.mem_cons]

end PlaybookTidy.Rule
