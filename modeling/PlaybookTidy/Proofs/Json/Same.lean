import PlaybookTidy.Json.Basic
import PlaybookTidy.Proofs.Sorted

/-!
JSON values up to the order of members. The canonical form tells exactly which values are the same.
-/

namespace PlaybookTidy.Json

/-- Equal up to the order of the members of objects, at any depth. -/
inductive Same : Json → Json → Prop
  | refl (v) : Same v v
  | symm {v w} (h : Same v w) : Same w v
  | trans {u v w} (h : Same u v) (h' : Same v w) : Same u w
  | permuted {ms ns} (h : ms.Perm ns) : Same (object ms) (object ns)
  | item {v w} (l r) (h : Same v w) : Same (array (l ++ v :: r)) (array (l ++ w :: r))
  | member {v w} (k) (l r) (h : Same v w) :
      Same (object (l ++ (k, v) :: r)) (object (l ++ (k, w) :: r))

/-- No object has two members with one key. -/
inductive Distinct : Json → Prop
  | null : Distinct null
  | bool (b) : Distinct (bool b)
  | number (n) : Distinct (number n)
  | string (s) : Distinct (string s)
  | array {vs} (h : ∀ v ∈ vs, Distinct v) : Distinct (array vs)
  | object {ms} (hkeys : (ms.map Prod.fst).Nodup) (h : ∀ m ∈ ms, Distinct m.2) :
      Distinct (object ms)

variable {v w : Json} {vs : List Json} {ms ns l r : List (String × Json)}

theorem distinct_array_iff : Distinct (array vs) ↔ ∀ v ∈ vs, Distinct v := by
  refine ⟨fun h => ?_, .array⟩
  cases h with
  | array h => exact h

theorem distinct_object_iff :
    Distinct (object ms) ↔ (ms.map Prod.fst).Nodup ∧ ∀ m ∈ ms, Distinct m.2 := by
  refine ⟨fun h => ?_, fun h => .object h.1 h.2⟩
  cases h with
  | object hkeys h => exact ⟨hkeys, h⟩

@[simp] theorem canonicalItems_eq_map (vs : List Json) : canonicalItems vs = vs.map canonical := by
  induction vs with
  | nil => rfl
  | cons v vs ih => rw [canonicalItems, ih, List.map_cons]

@[simp] theorem canonicalMembers_eq_map (ms : List (String × Json)) :
    canonicalMembers ms = ms.map fun m => (m.1, m.2.canonical) := by
  induction ms with
  | nil => rfl
  | cons m ms ih => rw [canonicalMembers, ih, List.map_cons]

theorem keys_canonicalMembers (ms : List (String × Json)) :
    (canonicalMembers ms).map Prod.fst = ms.map Prod.fst := by
  simp

namespace Same

/-- The order of members does not decide whether a key is there twice. -/
theorem distinct_iff (h : Same v w) : Distinct v ↔ Distinct w := by
  induction h with
  | refl => exact Iff.rfl
  | symm _ ih => exact ih.symm
  | trans _ _ ih ih' => exact ih.trans ih'
  | permuted h =>
    rw [distinct_object_iff, distinct_object_iff, (h.map Prod.fst).nodup_iff]
    exact and_congr_right fun _ => forall_congr' fun m => imp_congr_left h.mem_iff
  | item l r _ ih =>
    simp only [distinct_array_iff, List.forall_mem_append, List.forall_mem_cons, ih]
  | member k l r _ ih =>
    simp only [distinct_object_iff, List.map_append, List.map_cons, List.forall_mem_append,
      List.forall_mem_cons, ih]

/-- Values that are equal up to the order of members have one canonical form. -/
theorem canonical_eq (h : Same v w) (hv : Distinct v) : v.canonical = w.canonical := by
  induction h with
  | refl => rfl
  | symm h ih => exact (ih (h.distinct_iff.2 hv)).symm
  | trans h _ ih ih' => exact (ih hv).trans (ih' (h.distinct_iff.1 hv))
  | @permuted ms ns h =>
    have hkeys := (distinct_object_iff.1 hv).1
    rw [canonical, canonical, sortKeys_eq_of_perm (by rwa [keys_canonicalMembers])]
    simpa only [canonicalMembers_eq_map] using h.map _
  | item l r _ ih =>
    have := ih (distinct_array_iff.1 hv _ (by simp))
    simp only [canonical, canonicalItems_eq_map, List.map_append, List.map_cons, this]
  | member k l r _ ih =>
    have := ih ((distinct_object_iff.1 hv).2 (k, _) (by simp))
    simp only [canonical, canonicalMembers_eq_map, List.map_append, List.map_cons, this]

theorem items {f : Json → Json} (h : ∀ v ∈ vs, Same v (f v)) (l : List Json) :
    Same (array (l ++ vs)) (array (l ++ vs.map f)) := by
  -- `l` are the items that have been replaced already
  induction vs generalizing l with
  | nil => exact .refl _
  | cons v vs ih =>
    rw [List.forall_mem_cons] at h
    refine (item l vs h.1).trans ?_
    simpa using ih h.2 (l ++ [f v])

theorem members {f : Json → Json} (h : ∀ m ∈ ms, Same m.2 (f m.2)) (l : List (String × Json)) :
    Same (object (l ++ ms)) (object (l ++ ms.map fun m => (m.1, f m.2))) := by
  induction ms generalizing l with
  | nil => exact .refl _
  | cons m ms ih =>
    rw [List.forall_mem_cons] at h
    refine (member m.1 l ms h.1).trans ?_
    simpa using ih h.2 (l ++ [(m.1, f m.2)])

end Same

/-- The canonical form is the value up to the order of members. -/
theorem same_canonical (h : Distinct v) : Same v v.canonical := by
  induction v using induction with
  | null | bool | number | string => exact .refl _
  | array items ih =>
    rw [distinct_array_iff] at h
    rw [canonical, canonicalItems_eq_map]
    exact Same.items (fun v hv => ih v hv (h v hv)) []
  | object members ih =>
    rw [distinct_object_iff] at h
    -- first the values, each in its place, then the order of the members
    have hvalues := Same.members (fun m hm => ih m hm (h.2 m hm)) []
    have hsorted : (sortKeys (canonicalMembers members)).Perm (canonicalMembers members) :=
      perm_sortKeys (by rw [keys_canonicalMembers]; exact h.1)
    rw [canonicalMembers_eq_map] at hsorted
    rw [canonical, canonicalMembers_eq_map]
    exact hvalues.trans (.permuted hsorted.symm)

/-- Values are the same if and only if they have one canonical form. -/
theorem canonical_eq_iff (hv : Distinct v) (hw : Distinct w) :
    v.canonical = w.canonical ↔ Same v w := by
  refine ⟨fun h => ?_, fun h => h.canonical_eq hv⟩
  have hvw := same_canonical hv
  rw [h] at hvw
  exact hvw.trans (same_canonical hw).symm

end PlaybookTidy.Json
