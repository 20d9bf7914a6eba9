import PlaybookTidy.Sorted

/-!
Sorting by keys only reorders a list whose keys differ, and leaves an increasing list as it is.
-/

namespace PlaybookTidy

variable {β : Type} {l l' m : List (String × β)}

theorem perm_insertKey {k : String} {v : β} (h : k ∉ l.map Prod.fst) :
    (insertKey k v l).Perm ((k, v) :: l) := by
  fun_induction insertKey k v l with
  | case1 | case2 => exact .refl _
  | case3 v' l hk => simp at h
  | case4 k' v' l hk hne ih =>
    have hl : k ∉ l.map Prod.fst := fun hmem => h (List.mem_cons_of_mem _ hmem)
    exact ((ih hl).cons (k', v')).trans (.swap _ _ _)

theorem perm_foldl_insertKey (h : ((l ++ m).map Prod.fst).Nodup) :
    (l.foldl (fun m e => insertKey e.1 e.2 m) m).Perm (l ++ m) := by
  induction l generalizing m with
  | nil => exact .refl _
  | cons e l ih =>
    rw [List.cons_append, List.map_cons, List.nodup_cons, List.map_append, List.mem_append,
      not_or] at h
    have hperm : (l ++ insertKey e.1 e.2 m).Perm (e :: (l ++ m)) :=
      ((perm_insertKey h.1.2).append_left l).trans List.perm_middle
    rw [List.foldl_cons]
    refine (ih ?_).trans hperm
    rw [(hperm.map Prod.fst).nodup_iff, List.map_cons, List.nodup_cons, List.map_append,
      List.mem_append, not_or]
    exact ⟨h.1, h.2⟩

theorem perm_sortKeys (h : (l.map Prod.fst).Nodup) : (sortKeys l).Perm l := by
  have hperm := perm_foldl_insertKey (m := []) (by rwa [List.append_nil])
  rwa [List.append_nil] at hperm

theorem Increasing.nodup (h : Increasing l) : (l.map Prod.fst).Nodup := by
  rw [List.Nodup, List.pairwise_map]
  refine h.imp ?_
  intro a b hlt heq
  rw [heq] at hlt
  exact String.lt_irrefl _ hlt

theorem Increasing.eq_of_perm (h : Increasing l) (h' : Increasing l') (hp : l.Perm l') : l = l' :=
  hp.eq_of_pairwise (fun _ _ _ _ hab hba => (String.lt_irrefl _ (String.lt_trans hab hba)).elim) h h'

/-- The order of pairs with different keys does not matter. -/
theorem sortKeys_eq_of_perm (h : (l.map Prod.fst).Nodup) (hp : l.Perm l') :
    sortKeys l = sortKeys l' := by
  have h' : (l'.map Prod.fst).Nodup := (hp.map Prod.fst).nodup_iff.1 h
  exact (increasing_sortKeys l).eq_of_perm (increasing_sortKeys l')
    (((perm_sortKeys h).trans hp).trans (perm_sortKeys h').symm)

theorem sortKeys_of_increasing (h : Increasing l) : sortKeys l = l :=
  (increasing_sortKeys l).eq_of_perm h (perm_sortKeys h.nodup)

theorem lookup_cons_ite (k k' : String) (v : β) (l : List (String × β)) :
    List.lookup k' ((k, v) :: l) = if k' = k then some v else l.lookup k' := by
  by_cases h : k' = k
  · rw [if_pos h, h, List.lookup_cons_self]
  · rw [if_neg h, List.lookup_cons, beq_false_of_ne h]

theorem lookup_insertKey (k k' : String) (v : β) (l : List (String × β)) :
    (insertKey k v l).lookup k' = if k' = k then some v else l.lookup k' := by
  fun_induction insertKey k v l with
  | case1 | case2 => rw [lookup_cons_ite]
  | case3 =>
    simp only [lookup_cons_ite]
    split <;> rfl
  | case4 n w l hk hne ih =>
    rw [lookup_cons_ite, ih, lookup_cons_ite]
    by_cases h : k' = n
    · rw [if_pos h, if_neg fun h' => hne (h'.symm.trans h), if_pos h]
    · rw [if_neg h, if_neg h]

/-- The last value of a key is the one that stays. -/
theorem lookup_foldl_insertKey (k : String) (l m : List (String × β)) :
    (l.foldl (fun m e => insertKey e.1 e.2 m) m).lookup k =
      (l.reverse.lookup k).or (m.lookup k) := by
  induction l generalizing m with
  | nil => rfl
  | cons e l ih =>
    rw [List.foldl_cons, ih, lookup_insertKey, List.reverse_cons, List.lookup_append,
      Option.or_assoc, lookup_cons_ite]
    split <;> rfl

/-- In an increasing list a pair is found by its key. -/
theorem Increasing.mem_iff_lookup (h : Increasing l) {k : String} {v : β} :
    (k, v) ∈ l ↔ l.lookup k = some v := by
  induction l generalizing v with
  | nil => simp
  | cons e l ih =>
    rw [Increasing, List.pairwise_cons] at h
    rw [List.mem_cons, ih h.2, lookup_cons_ite]
    by_cases hk : k = e.1
    · -- All later keys are greater, so the key is not among them.
      have hnone (w : β) : l.lookup k ≠ some w := by
        intro hw
        have hlt := h.1 _ ((ih h.2).2 hw)
        rw [hk] at hlt
        exact String.lt_irrefl _ hlt
      rw [if_pos hk, Option.some_inj]
      constructor
      · rintro (rfl | hv)
        · rfl
        · exact absurd hv (hnone v)
      · rintro rfl
        exact Or.inl (Prod.ext hk rfl)
    · rw [if_neg hk]
      exact or_iff_right fun he => hk (congrArg Prod.fst he)

/-- Increasing lists with the same look-ups are equal. -/
theorem Increasing.eq_of_lookup (h : Increasing l) (h' : Increasing l')
    (heq : ∀ k, l.lookup k = l'.lookup k) : l = l' := by
  have hmem (e : String × β) : e ∈ l ↔ e ∈ l' := by
    rw [h.mem_iff_lookup, h'.mem_iff_lookup, heq]
  have hnodup {l : List (String × β)} (h : Increasing l) : l.Nodup := by
    refine h.imp ?_
    intro a b hlt heq
    rw [heq] at hlt
    exact String.lt_irrefl _ hlt
  exact h.eq_of_perm h' ((List.perm_ext_iff_of_nodup (hnodup h) (hnodup h')).2 hmem)

end PlaybookTidy
