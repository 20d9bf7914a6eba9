import PlaybookTidy.Glob.Search
import PlaybookTidy.Proofs.Glob.Pattern
import PlaybookTidy.Proofs.Tree.Shrink

/-!
The paths that a search builds. Each piece is put after the pieces before it, except that empty
pieces and dots at the front leave nothing behind.
-/

namespace PlaybookTidy

namespace Path

structure IsName (n : Name) : Prop where
  step : isVoid n = false
  down : n ≠ dotDot
  slash : '/' ∉ n

instance (n : Name) : Decidable (IsName n) :=
  decidable_of_iff (isVoid n = false ∧ n ≠ dotDot ∧ '/' ∉ n)
    ⟨fun h => ⟨h.1, h.2.1, h.2.2⟩, fun h => ⟨h.step, h.down, h.slash⟩⟩

theorem IsName.ne_nil {n : Name} (h : IsName n) : n ≠ [] := by
  rintro rfl
  simpa using h.step

theorem IsName.ne_dot {n : Name} (h : IsName n) : n ≠ dot := by
  rintro rfl
  simpa using h.step

theorem filter_names {ns : List Name} (hns : ∀ n ∈ ns, IsName n) :
    ns.filter (fun n => !isVoid n) = ns := by
  rw [List.filter_eq_self]
  intro n hn
  simp [(hns n hn).step]

theorem joinPieces_cons {n : Name} {ps : List Name} (h : ps ≠ []) :
    joinPieces (n :: ps) = n ++ '/' :: joinPieces ps := by
  obtain ⟨m, ms, rfl⟩ := List.exists_cons_of_ne_nil h
  simp [joinPieces, List.intercalate]

theorem joinPieces_concat {ps : List Name} (h : ps ≠ []) (n : Name) :
    joinPieces (ps ++ [n]) = joinPieces ps ++ '/' :: n := by
  induction ps with
  | nil => exact absurd rfl h
  | cons p ps ih =>
    cases ps with
    | nil => simp [joinPieces, List.intercalate]
    | cons q ps =>
      have hne := List.cons_ne_nil q ps
      rw [List.cons_append, joinPieces_cons (List.append_ne_nil_of_left_ne_nil hne [n]), ih hne,
        joinPieces_cons hne, List.append_assoc]
      rfl

end Path

def Tree.Named (t : Tree) : Prop :=
  ∀ l ∈ t.entries.map Prod.fst, ∀ n ∈ l, Path.IsName n

instance (t : Tree) : Decidable t.Named :=
  inferInstanceAs (Decidable (∀ l ∈ t.entries.map Prod.fst, ∀ n ∈ l, Path.IsName n))

namespace Glob

open PlaybookTidy.Path (IsName joinPieces dot isVoid)

variable {front : List Name} {p q : Path} {n : Name} {t : Tree}

/-- The pieces of a path after a search has put another one there. -/
def grow (front : List Name) (n : Name) : List Name :=
  if n = [] ∨ (front = [] ∧ n = dot) then front else front ++ [n]

/-- The path has these pieces, and a slash at the end or not. Without pieces it is the current
directory. -/
structure Spells (front : List Name) (p : Path) : Prop where
  slash : ∀ n ∈ front, '/' ∉ n
  head : front.head? ≠ some dot
  text : (front = [] ∧ (p.text = [] ∨ p.text = dot)) ∨
    (front ≠ [] ∧ p.text = joinPieces (front ++ [[]])) ∨
    (front ≠ [] ∧ p.text = joinPieces front ∧ p.text ≠ [] ∧ p.text.getLast? ≠ some '/')

theorem Spells.splitOn (h : Spells front p) (hne : front ≠ []) :
    Text.splitOn '/' p.text = front ++ [[]] ∨ Text.splitOn '/' p.text = front := by
  rcases h.text with ⟨hnil, -⟩ | ⟨-, htext⟩ | ⟨-, htext, -, -⟩
  · exact absurd hnil hne
  · rw [htext]
    left
    apply Text.splitOn_intercalate (by simp)
    intro n hn
    rcases List.mem_append.1 hn with hn | hn
    · exact h.slash n hn
    · obtain rfl : n = [] := by simpa using hn
      simp
  · rw [htext]
    exact Or.inr (Text.splitOn_intercalate hne h.slash)

theorem lead_of_isHere (h : p.isHere = true) : p.parts.1 = .here := by
  have hcomp : p.components = [.here] := by simpa [Path.isHere] using h
  apply (Path.head_components_iff (by simp)).1
  rw [hcomp]
  rfl

theorem Spells.isHere (h : Spells front p) (hne : front ≠ []) : p.isHere = false := by
  rw [Bool.eq_false_iff]
  intro hhere
  have hdot := Path.lead_eq_here_iff.1 (lead_of_isHere hhere)
  obtain ⟨m, ms, rfl⟩ := List.exists_cons_of_ne_nil hne
  rcases h.splitOn hne with hcut | hcut
  · exact h.head (by simpa [hcut] using hdot)
  · exact h.head (by simpa [hcut] using hdot)

/-- The path of a name in a directory has the name after the pieces of the directory. -/
theorem child_text (h : Spells front p) (hn : '/' ∉ n) :
    (child p n).text = joinPieces (front ++ [n]) := by
  have hrel := Path.isAbsolute_mk hn
  -- Without pieces the name stands alone; after a slash and after a name it is put differently.
  rcases h.text with ⟨rfl, htext⟩ | ⟨hne, htext⟩ | ⟨hne, htext, hnil, hlast⟩
  · have hone : joinPieces ([] ++ [n]) = n := by simp [joinPieces, List.intercalate]
    rw [hone]
    rcases htext with htext | htext
    · have hhere : p.isHere = false := by
        rw [Path.isHere, decide_eq_false_iff_not, Path.components_eq_steps]
        simp [Path.steps, Path.parts, htext, Text.splitOn, Path.Lead.components, dot]
      simp [child, hhere, Path.join, hrel, htext]
    · obtain rfl : p = ⟨dot⟩ := congrArg Path.mk htext
      rfl
  · have hend : joinPieces (front ++ [[]]) = joinPieces front ++ ['/'] :=
      Path.joinPieces_concat hne []
    rw [child, h.isHere hne, Path.joinPieces_concat hne]
    simp [Path.join, hrel, htext, hend]
  · rw [child, h.isHere hne, Path.joinPieces_concat hne, ← htext]
    simp [Path.join, hrel, hnil, hlast]

/-- The path of a name in a directory spells the pieces of the directory and the name. -/
theorem spells_child (h : Spells front p) (hn : '/' ∉ n) : Spells (grow front n) (child p n) := by
  have htext := child_text h hn
  unfold grow
  -- A piece is dropped if it is empty, or a dot in front.
  by_cases hempty : n = []
  · rw [if_pos (Or.inl hempty)]
    subst hempty
    refine ⟨h.slash, h.head, ?_⟩
    by_cases hne : front = []
    · exact Or.inl ⟨hne, Or.inl (by simpa [hne, joinPieces, List.intercalate] using htext)⟩
    · exact Or.inr (Or.inl ⟨hne, htext⟩)
  · by_cases hdot : front = [] ∧ n = dot
    · rw [if_pos (Or.inr hdot)]
      obtain ⟨rfl, rfl⟩ := hdot
      exact ⟨h.slash, h.head, Or.inl ⟨rfl, Or.inr htext⟩⟩
    · rw [if_neg (by simp [hempty, hdot])]
      have hlast : n.getLast? ≠ some '/' := fun hlast => hn (List.mem_of_getLast? hlast)
      have hform : (child p n).text ≠ [] ∧ (child p n).text.getLast? ≠ some '/' := by
        rw [htext]
        by_cases hne : front = []
        · have hone : joinPieces ([] ++ [n]) = n := by simp [joinPieces, List.intercalate]
          rw [hne, hone]
          exact ⟨hempty, hlast⟩
        · rw [Path.joinPieces_concat hne, List.getLast?_append_of_ne_nil _ (by simp)]
          obtain ⟨c, m, rfl⟩ := List.exists_cons_of_ne_nil hempty
          exact ⟨by simp, by simpa using hlast⟩
      refine ⟨?_, ?_, Or.inr (Or.inr ⟨by simp, htext, hform⟩)⟩
      · intro m hm
        rcases List.mem_append.1 hm with hm | hm
        · exact h.slash m hm
        · obtain rfl : m = n := by simpa using hm
          exact hn
      · have hhead := h.head
        cases front with
        | nil => simpa using hdot
        | cons m ms => simpa using hhead

theorem spells_foldl {ns : List Name} (h : Spells front p) (hns : ∀ n ∈ ns, '/' ∉ n) :
    Spells (ns.foldl grow front) (ns.foldl child p) := by
  induction ns generalizing front p with
  | nil => exact h
  | cons n ns ih =>
    rw [List.forall_mem_cons] at hns
    exact ih (spells_child h hns.1) hns.2

/-- Names and empty pieces: the names are put after what was there. -/
theorem foldl_grow {ns : List Name} (hns : ∀ n ∈ ns, n = [] ∨ IsName n) (front : List Name) :
    ns.foldl grow front = front ++ ns.filter (fun n => n ≠ []) := by
  induction ns generalizing front with
  | nil => simp
  | cons n ns ih =>
    rw [List.forall_mem_cons] at hns
    rw [List.foldl_cons, ih hns.2]
    rcases hns.1 with rfl | hn
    · simp [grow]
    · simp [grow, hn.ne_nil, hn.ne_dot]

theorem filter_foldl_grow (ns front : List Name) :
    (ns.foldl grow front).filter (fun n => !isVoid n) =
      front.filter (fun n => !isVoid n) ++ ns.filter fun n => !isVoid n := by
  induction ns generalizing front with
  | nil => simp
  | cons n ns ih =>
    rw [List.foldl_cons, ih]
    unfold grow
    split
    · rename_i h
      have hv : isVoid n = true := by
        rcases h with rfl | ⟨-, rfl⟩ <;> rfl
      simp [hv]
    · rw [List.filter_append, List.append_assoc, ← List.filter_append]
      rfl

theorem head_foldl_grow {ns front : List Name} (h : front ≠ []) :
    (ns.foldl grow front).head? = front.head? := by
  induction ns generalizing front with
  | nil => rfl
  | cons n ns ih =>
    obtain ⟨m, ms, rfl⟩ := List.exists_cons_of_ne_nil h
    have hkept : (grow (m :: ms) n).head? = some m ∧ grow (m :: ms) n ≠ [] := by
      unfold grow
      split <;> simp
    rw [List.foldl_cons, ih hkept.2, hkept.1]
    rfl

/-- Nothing void comes to the front. -/
theorem head_foldl_grow_ne (ns : List Name) {v : Name} (hv : v = [] ∨ v = dot)
    {front : List Name} (h : front.head? ≠ some v) : (ns.foldl grow front).head? ≠ some v := by
  induction ns generalizing front with
  | nil => exact h
  | cons n ns ih =>
    apply ih
    unfold grow
    split
    · exact h
    · -- A piece is put there, so it is not empty, and no dot if it is the first.
      rename_i hn
      cases front with
      | nil =>
        have hvoid : n ≠ v := by
          rintro rfl
          apply hn
          exact hv.imp_right fun hdot => ⟨rfl, hdot⟩
        simpa using hvoid
      | cons m ms => simpa using h

/-- An escaped name is a name for a search unless it holds a special character. -/
theorem mapM_char?_quoted (n : Name) :
    (n.map quoted).mapM Segment.char? = if n.any isSpecial then none else some n := by
  induction n with
  | nil => rfl
  | cons c n ih =>
    rw [List.map_cons, List.mapM_cons, ih, quoted]
    by_cases hc : isSpecial c = true
    · simp [hc, Segment.char?]
    · by_cases hn : n.any isSpecial = true <;> simp [hc, hn, Segment.char?]

/-- The two entries that lead to a directory and above it hold no special character. -/
theorem dotEntries_quoted {n : Name} (h : n.any isSpecial = true) :
    dotEntries (n.map quoted) = [] := by
  have hne : n ≠ Path.dotDot ∧ n ≠ dot := by
    constructor <;> rintro rfl <;> revert h <;> decide
  unfold dotEntries
  split
  · rename_i ts hts
    have haccepts : ∀ m, accepts (.char '.' :: ts) m = true ↔ m = n := by
      intro m
      rw [← hts, accepts_quoted]
    simp [haccepts, hne.1.symm, hne.2.symm]
  · rfl

theorem map_quoted_ne_anyDepth (n : Name) : n.map quoted ≠ [.anyDepth] := by
  intro hmap
  have hmem : Token.anyDepth ∈ n.map quoted := by simp [hmap]
  obtain ⟨c, -, hc⟩ := List.mem_map.1 hmem
  unfold quoted at hc
  split at hc <;> simp at hc

/-- An escaped name finds nothing but that name. -/
theorem expand_quoted {directoriesOnly : Bool} {ss : List Segment}
    (hq : q ∈ expand t directoriesOnly (.ofTokens (n.map quoted) :: ss) p) :
    q ∈ expand t directoriesOnly ss (child p n) := by
  unfold Segment.ofTokens at hq
  rw [mapM_char?_quoted] at hq
  by_cases hn : n.any isSpecial = true
  · simp only [if_pos hn, if_neg (map_quoted_ne_anyDepth n)] at hq
    rw [expand, List.mem_ite_nil_right, dotEntries_quoted hn, List.flatMap_nil,
      List.nil_append] at hq
    obtain ⟨m, -, hm⟩ := List.mem_flatMap.1 hq.2
    rw [List.mem_ite_nil_right, accepts_quoted] at hm
    exact hm.1 ▸ hm.2
  · simp only [if_neg hn] at hq
    rw [expand, List.mem_ite_nil_right] at hq
    exact hq.2

/-- Components that are escaped names lead where the names lead. -/
theorem expand_quoted_append {directoriesOnly : Bool} {ss : List Segment} {ns : List Name}
    (hq : q ∈ expand t directoriesOnly (ns.map (fun n => .ofTokens (n.map quoted)) ++ ss) p) :
    q ∈ expand t directoriesOnly ss (ns.foldl child p) := by
  induction ns generalizing p with
  | nil => exact hq
  | cons n ns ih => exact ih (expand_quoted hq)

/-- A segment that leads to names in directories only, never to a directory itself or above it. -/
def Segment.Plain : Segment → Prop
  | literal n => n = [] ∨ IsName n
  | anyDepth => True
  | wild ts => dotEntries ts = []

theorem isName_of_namesAt (hnamed : t.Named) (hn : n ∈ t.namesAt p) : IsName n := by
  unfold Tree.namesAt at hn
  split at hn
  · exact hnamed _ (Tree.mem_names.1 hn) n (by simp)
  · simp at hn

/-- What is found below a directory is reached by names. -/
theorem below_names (hnamed : t.Named) {visit : Path → Name → List Path} {fuel : Nat}
    (hq : q ∈ below t visit fuel p) :
    ∃ (ns : List Name) (n : Name), (∀ m ∈ ns, IsName m) ∧ q ∈ visit (ns.foldl child p) n := by
  induction fuel generalizing p with
  | zero => simp [below] at hq
  | succ fuel ih =>
    rw [below, List.mem_ite_nil_right] at hq
    obtain ⟨n, hn, hq⟩ := List.mem_flatMap.1 hq.2
    have hname := isName_of_namesAt hnamed hn
    rcases List.mem_append.1 hq with hq | hq
    · exact ⟨[n], n, by simpa using hname, hq⟩
    · obtain ⟨ns, m, hns, hm⟩ := ih hq
      exact ⟨n :: ns, m, List.forall_mem_cons.2 ⟨hname, hns⟩, hm⟩

/-- A search puts the names of its literals, the entries of dots and names of the tree after a path,
and nothing else: what these keep holds of all that it finds. -/
theorem expand_induction (hnamed : t.Named) {motive : Path → Prop} {directoriesOnly : Bool}
    {ss : List Segment}
    (hliteral : ∀ n p, .literal n ∈ ss → motive p → motive (child p n))
    (hentry : ∀ ts n p, .wild ts ∈ ss → n ∈ dotEntries ts → motive p → motive (p.join ⟨n⟩))
    (hname : ∀ n p, IsName n → motive p → motive (child p n)) (hp : motive p)
    (hq : q ∈ expand t directoriesOnly ss p) : motive q := by
  -- A segment for any depth puts a whole row of names after a path.
  have hnames : ∀ (ns : List Name) (p : Path), (∀ n ∈ ns, IsName n) → motive p →
      motive (ns.foldl child p) := by
    intro ns p hns hp
    exact List.foldlRecOn ns child hp fun r hr n hn => hname n r (hns n hn) hr
  fun_induction expand t directoriesOnly ss p with
  | case1 => simp at hq
  | case2 p =>
    obtain rfl : q = p := by simpa using hq
    exact hp
  | case3 n ss p _ _ ih =>
    refine ih (fun m p hm => hliteral m p (List.mem_cons_of_mem _ hm))
      (fun ts m p hts => hentry ts m p (List.mem_cons_of_mem _ hts)) ?_ hq
    exact hliteral n p List.mem_cons_self hp
  | case4 => simp at hq
  | case5 ts ss p _ ihEntries ihNames =>
    have hliteral' := fun m p hm => hliteral m p (List.mem_cons_of_mem _ hm)
    have hentry' := fun us m p hus => hentry us m p (List.mem_cons_of_mem _ hus)
    rcases List.mem_append.1 hq with hq | hq
    · obtain ⟨n, hn, hq⟩ := List.mem_flatMap.1 hq
      exact ihEntries n hliteral' hentry' (hentry ts n p List.mem_cons_self hn hp) hq
    · obtain ⟨n, hn, hq⟩ := List.mem_flatMap.1 hq
      rw [List.mem_ite_nil_right] at hq
      exact ihNames n hliteral' hentry' (hname n p (isName_of_namesAt hnamed hn) hp) hq.2
  | case6 => simp at hq
  | case7 p =>
    obtain ⟨ns, n, hns, hq⟩ := below_names hnamed hq
    rw [List.mem_ite_nil_right, List.mem_singleton] at hq
    obtain rfl := hq.2
    exact hnames ns p hns hp
  | case8 s ss p ih =>
    obtain ⟨ns, n, hns, hq⟩ := below_names hnamed hq
    rw [List.mem_ite_nil_right] at hq
    have hin : ∀ r ∈ ss, r ∈ .anyDepth :: s :: ss := fun r hr => by simp [hr]
    exact ih _ (fun m p hm => hliteral m p (hin _ hm)) (fun ts m p hts => hentry ts m p (hin _ hts))
      (hnames ns p hns hp) hq.2

/-- Plain segments lead from a path to those with more names after it. -/
theorem expand_plain (hnamed : t.Named) {directoriesOnly : Bool} {ss : List Segment}
    (hss : ∀ s ∈ ss, s.Plain) (hq : q ∈ expand t directoriesOnly ss p) :
    ∃ ns : List Name, (∀ n ∈ ns, n = [] ∨ IsName n) ∧ q = ns.foldl child p := by
  have hconcat : ∀ (n : Name) (r : Path), (n = [] ∨ IsName n) →
      (∃ ns : List Name, (∀ m ∈ ns, m = [] ∨ IsName m) ∧ r = ns.foldl child p) →
      ∃ ns : List Name, (∀ m ∈ ns, m = [] ∨ IsName m) ∧ child r n = ns.foldl child p := by
    rintro n _ hn ⟨ns, hns, rfl⟩
    refine ⟨ns ++ [n], ?_, by simp⟩
    simpa [or_imp, forall_and] using ⟨hns, hn⟩
  refine expand_induction hnamed (fun n r hn => hconcat n r (hss _ hn)) ?_
    (fun n r hn => hconcat n r (Or.inr hn)) ⟨[], by simp, rfl⟩ hq
  intro ts n r hts hn
  have hnone : dotEntries ts = [] := hss _ hts
  simp [hnone] at hn

end Glob

namespace Path

variable {p : Path} {n : Name}

/-- A path is the current directory if it names that first and makes no step. -/
theorem isHere_iff : p.isHere = true ↔ p.parts.1 = .here ∧ p.steps = [] := by
  have hcomp : p.isHere = true ↔ p.parts.1.components ++ p.steps.map stepComponent = [.here] := by
    rw [isHere, decide_eq_true_eq, components_eq_steps]
  constructor
  · intro h
    have hlead := Glob.lead_of_isHere h
    rw [hcomp, hlead] at h
    exact ⟨hlead, by simpa [Lead.components] using h⟩
  · rintro ⟨hlead, hsteps⟩
    rw [hcomp, hlead, hsteps]
    rfl

/-- A joined path begins with a dot if the first one does, or if that is empty and the second one
is the dot. -/
theorem lead_join (hn : '/' ∉ n) (h : (p.join ⟨n⟩).parts.1 = .here) :
    p.parts.1 = .here ∨ p.text = [] ∧ n = dot := by
  by_cases hp : p.text = []
  · rw [join_of_empty hp, lead_eq_here_iff, Text.splitOn_of_not_mem hn] at h
    exact Or.inr ⟨hp, by simpa using h⟩
  · rw [lead_join_of_ne_nil (isAbsolute_mk hn) hp] at h
    exact Or.inl h

end Path

namespace Glob

open PlaybookTidy.Path (dot isVoid)

variable {p : Path} {n : Name} {ns : List Name}

theorem isAbsolute_child (hn : '/' ∉ n) : (child p n).isAbsolute = p.isAbsolute := by
  unfold child
  split
  · rename_i hhere
    have hrel : p.isAbsolute = false :=
      Path.isAbsolute_eq_false_iff.2 (by simp [(Path.isHere_iff.1 hhere).1])
    rw [hrel, Path.isAbsolute_mk hn]
  · exact Path.isAbsolute_join (Path.isAbsolute_mk hn)

theorem steps_child (hn : '/' ∉ n) :
    (child p n).steps = p.steps ++ [n].filter fun n => !isVoid n := by
  unfold child
  split
  · rename_i hhere
    rw [(Path.isHere_iff.1 hhere).2, Path.steps_mk hn, List.nil_append]
  · rw [Path.steps_join (Path.isAbsolute_mk hn), Path.steps_mk hn]

/-- A name after a path that begins with a dot and leads nowhere takes its place. -/
theorem lead_child (hn : '/' ∉ n) (h : (child p n).parts.1 = .here) :
    (child p n).steps = [] ∨ p.parts.1 = .here ∧ p.steps ≠ [] := by
  have hsteps := steps_child (p := p) hn
  unfold child at h
  split at h
  · rename_i hhere
    rw [Path.lead_eq_here_iff, Text.splitOn_of_not_mem hn] at h
    obtain rfl : n = dot := by simpa using h
    left
    rw [hsteps, (Path.isHere_iff.1 hhere).2]
    rfl
  · rename_i hhere
    rcases Path.lead_join hn h with hlead | ⟨hempty, rfl⟩
    · refine Or.inr ⟨hlead, ?_⟩
      intro hnil
      exact hhere (Path.isHere_iff.2 ⟨hlead, hnil⟩)
    · left
      rw [hsteps, Path.steps, hempty]
      rfl

/-- What names leave of a path: a dot at its front goes away before the first step. -/
theorem foldl_child (hns : ∀ n ∈ ns, '/' ∉ n) (hp : p.parts.1 = .here → p.steps = []) :
    (ns.foldl child p).isAbsolute = p.isAbsolute ∧
      (ns.foldl child p).steps = p.steps ++ ns.filter (fun n => !isVoid n) ∧
      ((ns.foldl child p).parts.1 = .here → (ns.foldl child p).steps = []) := by
  induction ns generalizing p with
  | nil => exact ⟨rfl, by simp, hp⟩
  | cons n ns ih =>
    rw [List.forall_mem_cons] at hns
    have hchild : (child p n).parts.1 = .here → (child p n).steps = [] := by
      intro h
      rcases lead_child hns.1 h with hsteps | ⟨hlead, hne⟩
      · exact hsteps
      · exact absurd (hp hlead) hne
    obtain ⟨habs, hsteps, hlead⟩ := ih hns.2 hchild
    refine ⟨habs.trans (isAbsolute_child hns.1), ?_, hlead⟩
    rw [List.foldl_cons, hsteps, steps_child hns.1, List.append_assoc, ← List.filter_append]
    rfl

end Glob

end PlaybookTidy
