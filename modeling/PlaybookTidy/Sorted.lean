/-!
Association lists in increasing order of their keys. Texts compare by code points, which is also
the order of their UTF-8 bytes.
-/

namespace PlaybookTidy

def Increasing {β : Type} (l : List (String × β)) : Prop := l.Pairwise fun a b => a.1 < b.1

def insertKey {β : Type} (k : String) (v : β) : List (String × β) → List (String × β)
  | [] => [(k, v)]
  | (k', v') :: l =>
    if k < k' then (k, v) :: (k', v') :: l
    else if k = k' then (k, v) :: l
    else (k', v') :: insertKey k v l

theorem mem_insertKey {β : Type} {k : String} {v : β} {l : List (String × β)} {e : String × β}
    (h : e ∈ insertKey k v l) : e = (k, v) ∨ e ∈ l := by
  fun_induction insertKey k v l <;> grind

/-- Setting a key keeps a list increasing. -/
theorem increasing_insertKey {β : Type} (k : String) (v : β) {l : List (String × β)}
    (h : Increasing l) : Increasing (insertKey k v l) := by
  unfold Increasing at *
  fun_induction insertKey k v l with
  | case1 => simp
  | case2 k' v' l hk =>
    rw [List.pairwise_cons] at h ⊢
    refine ⟨fun e he => ?_, List.pairwise_cons.2 h⟩
    rcases List.mem_cons.1 he with rfl | he
    · exact hk
    · exact String.lt_trans hk (h.1 e he)
  | case3 v' l hk => simpa [List.pairwise_cons] using h
  | case4 k' v' l hk hne ih =>
    rw [List.pairwise_cons] at h ⊢
    refine ⟨fun e he => ?_, ih h.2⟩
    rcases mem_insertKey he with rfl | he
    · exact Std.lt_of_le_of_ne (String.not_lt.1 hk) (Ne.symm hne)
    · exact h.1 e he

/-- An increasing list from pairs in any order; of several values for a key the last one stays. -/
def sortKeys {β : Type} (l : List (String × β)) : List (String × β) :=
  l.foldl (fun m e => insertKey e.1 e.2 m) []

theorem increasing_sortKeys {β : Type} (l : List (String × β)) : Increasing (sortKeys l) := by
  suffices ∀ m, Increasing m → Increasing (l.foldl (fun m e => insertKey e.1 e.2 m) m) from
    this [] List.Pairwise.nil
  induction l with
  | nil => exact fun m h => h
  | cons e l ih => exact fun m h => ih _ (increasing_insertKey _ _ h)

end PlaybookTidy
