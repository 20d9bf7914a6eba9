import PlaybookTidy.Proofs.Path

/-!
A path relative to a root undoes joining to that root: it says what the path says after the root,
and joined to the root again it says what the path says. A path that does not begin with what the
root says is taken whole.
-/

namespace PlaybookTidy.Path

variable {p root rest : Path} {front ns : List Name} {cs : List Component}

/-- A path that begins with what the root says has a cut where that ends. -/
theorem exists_cut_of_isPrefix (h : root.components <+: p.components) (hroot : root.text ≠ []) :
    ∃ front ns, p.parts = (root.parts.1, front ++ ns) ∧
      front.filter (fun n => !isVoid n) = root.steps := by
  obtain ⟨cs, hcs⟩ := h
  have hhead : p.components.head? = root.components.head? := by
    rw [← hcs, List.head?_append_of_ne_nil _ (mt components_eq_nil_iff.1 hroot)]
  -- With one lead, the steps of the root are the first steps of the path.
  have hlead := lead_of_head hhead
  rw [components_eq_steps, components_eq_steps, hlead, List.append_assoc] at hcs
  obtain ⟨ms, ns, hms, hmap, -⟩ := List.map_eq_append_iff.1 (List.append_cancel_left hcs).symm
  obtain rfl : ms = root.steps := stepComponent_injective.list_map hmap
  rw [steps_eq_parts p] at hms
  obtain ⟨front, rest, hparts, hfront, -⟩ := List.filter_eq_append_iff.1 hms
  exact ⟨front, rest, Prod.ext hlead hparts, hfront⟩

/-- A path whose pieces begin with those of the root has the components of the root first. -/
theorem components_of_cut (hparts : p.parts = (root.parts.1, front ++ ns))
    (hfront : front.filter (fun n => !isVoid n) = root.steps) :
    p.components = root.components ++ (ns.filter fun n => !isVoid n).map stepComponent := by
  rw [components_eq_steps, components_eq_steps, steps_eq_parts p, hparts, List.filter_append,
    hfront, List.map_append, List.append_assoc]

/-- Dropping as many components as the front has steps leaves what comes after it. -/
theorem dropWhile_dropComponents (front ns : List Name) :
    (dropComponents (front.filter fun n => !isVoid n).length (front ++ ns)).dropWhile isVoid =
      ns.dropWhile isVoid := by
  induction front with
  | nil => simp [dropComponents]
  | cons n front ih =>
    by_cases hn : isVoid n = true
    · have hlen : ((n :: front).filter fun n => !isVoid n) = front.filter fun n => !isVoid n := by
        simp [hn]
      rw [hlen, List.cons_append]
      -- Where no step is left to drop, nothing drops this piece but what comes after.
      cases hk : (front.filter fun n => !isVoid n).length with
      | zero =>
        rw [hk] at ih
        simpa [dropComponents, hn] using ih
      | succ k =>
        rw [hk] at ih
        rw [dropComponents, if_pos hn]
        exact ih
    · rw [List.cons_append, List.filter_cons_of_pos (by simpa using hn), List.length_cons,
        dropComponents, if_neg hn]
      exact ih

def trimmed (ns : List Name) : List Name := Text.dropEndWhile isVoid (ns.dropWhile isVoid)

theorem trimmed_subset (ns : List Name) : trimmed ns ⊆ ns := by
  intro n hn
  have hmem := (Text.dropEndWhile_prefix isVoid (ns.dropWhile isVoid)).subset hn
  exact (List.dropWhile_suffix isVoid).subset hmem

theorem filter_trimmed (ns : List Name) :
    (trimmed ns).filter (fun n => !isVoid n) = ns.filter fun n => !isVoid n := by
  rw [trimmed, Text.filter_dropEndWhile, Text.filter_dropWhile]

theorem head_trimmed {n : Name} (h : (trimmed ns).head? = some n) : isVoid n = false := by
  have hnot := List.head?_dropWhile_not isVoid ns
  rw [Text.head_of_dropEndWhile h] at hnot
  exact hnot

/-- What is left of a path is the text of the pieces after the cut, without those at its ends that
say nothing. -/
theorem below?_of_cut (hparts : p.parts = (root.parts.1, front ++ ns))
    (hfront : front.filter (fun n => !isVoid n) = root.steps) (hroot : root.text ≠ []) :
    below? root p = some (Lead.bare.attach (trimmed ns)) := by
  have hprefix : root.components.isPrefixOf p.components = true := by
    rw [components_of_cut hparts hfront, List.isPrefixOf_iff_prefix]
    exact List.prefix_append _ _
  have hlength : root.components.length - root.parts.1.components.length =
      (front.filter fun n => !isVoid n).length := by
    rw [components_eq_steps, hfront]
    simp
  simp only [below?, hparts, if_pos hprefix, if_neg (mt components_eq_nil_iff.1 hroot), hlength,
    dropWhile_dropComponents]
  rfl

/-- Every path lies below a root without text, whole but for pieces at its end that say nothing. -/
theorem below?_of_empty (hroot : root.text = []) :
    below? root p = some (p.parts.1.attach (Text.dropEndWhile isVoid p.parts.2)) := by
  simp [below?, components_eq_nil_iff.2 hroot]

theorem below?_of_not_isPrefix (h : ¬ root.components <+: p.components) :
    below? root p = none := by
  simp [below?, List.isPrefixOf_iff_prefix, h]

/-- Below the empty root the whole path is left. -/
theorem components_below_empty :
    (p.parts.1.attach (Text.dropEndWhile isVoid p.parts.2)).components = p.components := by
  have hslash : ∀ n ∈ Text.dropEndWhile isVoid p.parts.2, '/' ∉ n := by
    intro n hn
    exact slash_not_mem_parts rfl n ((Text.dropEndWhile_prefix isVoid p.parts.2).subset hn)
  have hhead : p.parts.1 = .bare →
      ∀ n, (Text.dropEndWhile isVoid p.parts.2).head? = some n → isVoid n = false := by
    intro hlead n hn
    have hcut : Text.splitOn '/' p.text = p.parts.2 := by
      rw [splitOn_eq_parts, hlead]
      rfl
    -- The only piece of the empty text says nothing, so none is left of it.
    have htext : p.text ≠ [] := by
      intro hnil
      rw [← hcut, hnil] at hn
      simp [Text.splitOn, Text.dropEndWhile, List.dropWhile] at hn
    obtain ⟨m, ms, hm, hv⟩ := exists_first_of_bare hlead htext
    have hfirst := Text.head_of_dropEndWhile hn
    rw [← hcut, hm, List.head?_cons, Option.some.injEq] at hfirst
    rw [← hfirst, hv]
  rw [components_attach hslash hhead, Text.filter_dropEndWhile, ← steps_eq_parts,
    ← components_eq_steps]

/-- What is left of a path says what comes after the root. It has a lead only below the empty
root. -/
theorem exists_below? (h : p.components = root.components ++ cs) :
    ∃ rest, below? root p = some rest ∧ rest.components = cs ∧
      (root.text ≠ [] → rest.parts.1 = .bare) := by
  by_cases hroot : root.text = []
  · refine ⟨_, below?_of_empty hroot, ?_, fun hne => absurd hroot hne⟩
    rw [components_below_empty, h, components_eq_nil_iff.2 hroot, List.nil_append]
  · obtain ⟨front, ns, hparts, hfront⟩ := exists_cut_of_isPrefix ⟨cs, h.symm⟩ hroot
    have hslash : ∀ n ∈ trimmed ns, '/' ∉ n := by
      intro n hn
      exact slash_not_mem_parts hparts n (List.mem_append_right front (trimmed_subset ns hn))
    have hcs : (ns.filter fun n => !isVoid n).map stepComponent = cs :=
      List.append_cancel_left ((components_of_cut hparts hfront).symm.trans h)
    refine ⟨_, below?_of_cut hparts hfront hroot, ?_, ?_⟩
    · rw [components_attach hslash fun _ _ => head_trimmed, filter_trimmed, hcs]
      rfl
    · intro _
      exact lead_attach hslash fun _ _ => head_trimmed

/-- The relative path of one below the root is its spelling there, if that has no backslash. -/
theorem ofString_relativeTo (h : below? root p = some rest) (hback : '\\' ∉ rest.text) :
    ofString (p.relativeTo root) = rest := by
  have hsame : rest.text.map (fun c => if c = '\\' then '/' else c) = rest.text := by
    apply (List.map_congr_left _).trans (List.map_id _)
    intro c hc
    apply if_neg
    rintro rfl
    exact hback hc
  rw [ofString, relativeTo, h, Option.getD_some, hsame, String.toList_ofList]

/-- A path that is not below the root is told as it is, but for backslashes. -/
theorem relativeTo_of_not_isPrefix (h : ¬ root.components <+: p.components) :
    p.relativeTo root = String.ofList (p.text.map fun c => if c = '\\' then '/' else c) := by
  rw [relativeTo, below?_of_not_isPrefix h, Option.getD_none]

/-- What a path says after a root is told without a slash at its front and, joined to the root,
says what the path says. A path joined to a root is told by what was joined. A path that does
not begin with what the root says is told by its whole text. -/
theorem relativeTo_undoes_join (root p : Path) :
    (∀ cs, p.components = root.components ++ cs → (∀ n, .name n ∈ cs → '\\' ∉ n) →
      (root.text ≠ [] → (p.relativeTo root).toList.head? ≠ some '/') ∧
      (ofString (p.relativeTo root)).components = cs ∧
      (root.join (ofString (p.relativeTo root))).components = p.components) ∧
    (∀ r : Path, r.isAbsolute = false → r.components.head? ≠ some .here → '\\' ∉ r.text →
      (ofString ((root.join r).relativeTo root)).components = r.components) ∧
    (¬ root.components <+: p.components →
      p.relativeTo root = String.ofList (p.text.map fun c => if c = '\\' then '/' else c)) := by
  refine ⟨?_, ?_, relativeTo_of_not_isPrefix⟩
  · intro cs hcs hback
    obtain ⟨rest, hbelow, hrest, hbare⟩ := exists_below? hcs
    -- A backslash can only stand in a name, and the names of what is left are those of `cs`.
    have hnone : '\\' ∉ rest.text := by
      rw [mem_text_iff (by decide) (by decide), hrest]
      rintro ⟨n, hn, hmem⟩
      exact hback n hn hmem
    have htold := ofString_relativeTo hbelow hnone
    refine ⟨?_, by rw [htold, hrest], ?_⟩
    · intro hroot hhead
      have habs : (ofString (p.relativeTo root)).isAbsolute = true := decide_eq_true hhead
      rw [htold, isAbsolute_iff, hbare hroot] at habs
      simp at habs
    · rw [htold, components_join hbare, hrest, hcs]
  · intro r hrel hhere hback
    have hbare : r.parts.1 = .bare := by
      cases hlead : r.parts.1 with
      | root => exact absurd hlead (isAbsolute_eq_false_iff.1 hrel)
      | here => exact absurd ((head_components_iff (by simp)).2 hlead) hhere
      | bare => rfl
    obtain ⟨rest, hbelow, hrest, -⟩ := exists_below? (components_join (p := root) fun _ => hbare)
    have hnone : '\\' ∉ rest.text := by
      rwa [mem_text_iff (by decide) (by decide), hrest, ← mem_text_iff (by decide) (by decide)]
    rw [ofString_relativeTo hbelow hnone, hrest]

/-- A path that climbs out of its root, one that is joined to the root, and one that lacks the dot
with which the root begins. -/
theorem relativeTo_undoes_join_dotted :
    let root : Path := ⟨"./a\\b//".toList⟩
    let p : Path := ⟨"./a\\b/.././c//d.yml/.".toList⟩
    let r : Path := ⟨"../c//".toList⟩
    let q : Path := ⟨"a\\b/c".toList⟩
    p.components = root.components ++ [.up, .name "c".toList, .name "d.yml".toList] ∧
      (p.relativeTo root).toList.head? ≠ some '/' ∧
      (root.join (ofString (p.relativeTo root))).components = p.components ∧
      r.isAbsolute = false ∧ r.components.head? ≠ some .here ∧ '\\' ∉ r.text ∧
      (ofString ((root.join r).relativeTo root)).components = r.components ∧
      ¬ root.components <+: q.components ∧ q.relativeTo root = "a/b/c" := by
  intro root p r q
  have hcs : p.components = root.components ++ [.up, .name "c".toList, .name "d.yml".toList] := by
    decide
  have hback : ∀ n, .name n ∈ [Component.up, .name "c".toList, .name "d.yml".toList] →
      '\\' ∉ n := by
    intro n hn
    obtain rfl | rfl : n = "c".toList ∨ n = "d.yml".toList := by simpa using hn
    · decide
    · decide
  have hrel : r.isAbsolute = false := by decide
  have hhere : r.components.head? ≠ some .here := by decide
  have hnone : '\\' ∉ r.text := by decide
  have hnot : ¬ root.components <+: q.components := by decide
  obtain ⟨hbelow, hjoined, -⟩ := relativeTo_undoes_join root p
  obtain ⟨hhead, -, hsays⟩ := hbelow _ hcs hback
  obtain ⟨-, -, hwhole⟩ := relativeTo_undoes_join root q
  exact ⟨hcs, hhead (by decide), hsays, hrel, hhere, hnone, hjoined r hrel hhere hnone, hnot,
    hwhole hnot⟩

end PlaybookTidy.Path
