import PlaybookTidy.Discovery
import PlaybookTidy.Proofs.Tree.Shrink

/-!
Which files a discovery lists: what its patterns find one after the other, less what is excluded,
and each path once. In a tree that lost files, patterns find no more than before.
-/

namespace PlaybookTidy

section

variable {α β ε : Type} {f : α → Except ε β} {xs : List α}

/-- Of the items of a list this is the first that is bad. -/
def IsFirst (bad : α → Prop) (xs : List α) (x : α) : Prop :=
  ∃ before after, xs = before ++ x :: after ∧ (∀ y ∈ before, ¬ bad y) ∧ bad x

/-- The first bad item is the head, or the first one of the tail after a good head. -/
theorem isFirst_cons_iff {bad : α → Prop} {x y : α} :
    IsFirst bad (x :: xs) y ↔ bad x ∧ y = x ∨ ¬ bad x ∧ IsFirst bad xs y := by
  constructor
  · rintro ⟨before, after, hcut, hbefore, hy⟩
    cases before with
    | nil =>
      obtain ⟨rfl, -⟩ := List.cons.inj hcut
      exact Or.inl ⟨hy, rfl⟩
    | cons z before =>
      obtain ⟨rfl, rfl⟩ := List.cons.inj hcut
      rw [List.forall_mem_cons] at hbefore
      exact Or.inr ⟨hbefore.1, before, after, rfl, hbefore.2, hy⟩
  · rintro (⟨hx, rfl⟩ | ⟨hx, before, after, rfl, hbefore, hy⟩)
    · exact ⟨[], xs, rfl, by simp, hx⟩
    · exact ⟨x :: before, after, rfl, List.forall_mem_cons.2 ⟨hx, hbefore⟩, hy⟩

theorem IsFirst.mem {bad : α → Prop} {x : α} (h : IsFirst bad xs x) : x ∈ xs := by
  obtain ⟨before, after, rfl, -⟩ := h
  simp

theorem IsFirst.bad {bad : α → Prop} {x : α} (h : IsFirst bad xs x) : bad x := by
  obtain ⟨-, -, -, -, hx⟩ := h
  exact hx

/-- There is one first bad item at most. -/
theorem IsFirst.unique {bad : α → Prop} {x y : α} (hx : IsFirst bad xs x)
    (hy : IsFirst bad xs y) : x = y := by
  induction xs with
  | nil => simp [IsFirst] at hx
  | cons z xs ih =>
    rcases isFirst_cons_iff.1 hx with ⟨hz, rfl⟩ | ⟨hz, hx⟩
    · rcases isFirst_cons_iff.1 hy with ⟨-, rfl⟩ | ⟨hnot, -⟩
      · rfl
      · exact absurd hz hnot
    · rcases isFirst_cons_iff.1 hy with ⟨hbad, -⟩ | ⟨-, hy⟩
      · exact absurd hbad hz
      · exact ih hx hy

/-- Among bad items there is a first one. -/
theorem exists_isFirst_iff {bad : α → Prop} : (∃ x, IsFirst bad xs x) ↔ ∃ x ∈ xs, bad x := by
  constructor
  · rintro ⟨x, hx⟩
    exact ⟨x, hx.mem, hx.bad⟩
  · induction xs with
    | nil => simp
    | cons x xs ih =>
      rintro ⟨y, hy, hbad⟩
      by_cases hx : bad x
      · exact ⟨x, isFirst_cons_iff.2 (Or.inl ⟨hx, rfl⟩)⟩
      · rcases List.mem_cons.1 hy with rfl | hy
        · exact absurd hbad hx
        · obtain ⟨z, hz⟩ := ih ⟨y, hy, hbad⟩
          exact ⟨z, isFirst_cons_iff.2 (Or.inr ⟨hx, hz⟩)⟩

/-- The failure of a list is that of the first item that fails. -/
theorem mapM_eq_error_iff {e : ε} :
    xs.mapM f = .error e ↔ ∃ x, IsFirst (fun x => ∀ y, f x ≠ .ok y) xs x ∧ f x = .error e := by
  induction xs with
  | nil => simp [IsFirst, pure, Except.pure]
  | cons x xs ih =>
    rw [List.mapM_cons]
    cases hx : f x with
    | error e' =>
      simp only [isFirst_cons_iff]
      simp [hx, bind, Except.bind]
    | ok y =>
      have hgood : ¬ ∀ y, f x ≠ .ok y := fun h => h y hx
      simp only [isFirst_cons_iff, hgood, false_and, false_or, not_false_eq_true, true_and, ← ih]
      cases xs.mapM f <;> simp [bind, Except.bind, pure, Except.pure]

theorem mapM_eq_error {e : ε} (h : xs.mapM f = .error e) : ∃ x ∈ xs, f x = .error e := by
  obtain ⟨x, hfirst, hx⟩ := mapM_eq_error_iff.1 h
  exact ⟨x, hfirst.mem, hx⟩

theorem exists_mapM_eq_ok_iff : (∃ ys, xs.mapM f = .ok ys) ↔ ∀ x ∈ xs, ∃ y, f x = .ok y := by
  induction xs with
  | nil => simp [pure, Except.pure]
  | cons x xs ih =>
    rw [List.forall_mem_cons, ← ih, List.mapM_cons]
    cases hx : f x with
    | error e => simp [bind, Except.bind]
    | ok y => cases xs.mapM f <;> simp [bind, Except.bind, pure, Except.pure]

theorem mapM_of_forall {g : α → β} (h : ∀ x ∈ xs, f x = .ok (g x)) :
    xs.mapM f = .ok (xs.map g) := by
  induction xs with
  | nil => rfl
  | cons x xs ih =>
    rw [List.forall_mem_cons] at h
    rw [List.mapM_cons, h.1, ih h.2]
    rfl

theorem mem_mapM_iff {ys : List β} (h : xs.mapM f = .ok ys) {y : β} :
    y ∈ ys ↔ ∃ x ∈ xs, f x = .ok y := by
  induction xs generalizing ys with
  | nil =>
    obtain rfl : [] = ys := by simpa [pure, Except.pure] using h
    simp
  | cons x xs ih =>
    rw [List.mapM_cons] at h
    cases hx : f x with
    | error e => simp [hx, bind, Except.bind] at h
    | ok z =>
      cases hxs : xs.mapM f with
      | error e => simp [hx, hxs, bind, Except.bind] at h
      | ok zs =>
        obtain rfl : z :: zs = ys := by simpa [hx, hxs, bind, Except.bind, pure, Except.pure] using h
        simp [ih hxs, hx, eq_comm]

/-- A fold that reads its items one by one fails as if it read them all first. -/
theorem foldlM_eq_map {γ : Type} (g : γ → β → γ) (c : γ) :
    xs.foldlM (fun c x => do let y ← f x; return g c y) c =
      (xs.mapM f).map fun ys => ys.foldl g c := by
  induction xs generalizing c with
  | nil => rfl
  | cons x xs ih =>
    rw [List.foldlM_cons, List.mapM_cons]
    cases hx : f x with
    | error e => rfl
    | ok y =>
      simp only [bind, Except.bind, pure, Except.pure] at ih ⊢
      rw [ih]
      cases xs.mapM f <;> rfl

end

namespace Glob

variable {t t' : Tree} {p q : Path}

/-- A walk of a tree that lost files finds nothing new. -/
theorem below_shrinks (h : Tree.Shrinks t t') {visit visit' : Path → Name → List Path}
    (hvisit : ∀ r n, q ∈ visit' r n → q ∈ visit r n) {fuel fuel' : Nat} (hfuel : fuel' ≤ fuel)
    (hq : q ∈ below t' visit' fuel' p) : q ∈ below t visit fuel p := by
  induction fuel' generalizing fuel p with
  | zero => simp [below] at hq
  | succ fuel' ih =>
    -- The larger tree may be deeper: its search has at least as many levels left.
    obtain ⟨fuel, rfl⟩ : ∃ k, fuel = k + 1 := ⟨fuel - 1, by omega⟩
    rw [below] at hq ⊢
    cases hdir : t'.isDirectory p with
    | false => simp [hdir] at hq
    | true =>
      rw [if_pos hdir] at hq
      rw [if_pos (h.isDirectory p ▸ hdir)]
      obtain ⟨n, hn, hq⟩ := List.mem_flatMap.1 hq
      refine List.mem_flatMap.2 ⟨n, h.namesAt hdir hn, ?_⟩
      rcases List.mem_append.1 hq with hq | hq
      · exact List.mem_append_left _ (hvisit _ _ hq)
      · exact List.mem_append_right _ (ih (by omega) hq)

/-- A search finds no path that it did not find before files disappeared. -/
theorem expand_shrinks (h : Tree.Shrinks t t') {directoriesOnly : Bool} {ss : List Segment}
    (hq : q ∈ expand t' directoriesOnly ss p) : q ∈ expand t directoriesOnly ss p := by
  fun_induction expand t' directoriesOnly ss p with
  | case1 => simp at hq
  | case2 p hdir =>
    rw [expand, ← h.isDirectory, if_neg hdir]
    exact hq
  | case3 n ss p present hpresent ih =>
    -- What is there in the smaller tree is there in the larger one.
    have hkept : (if n = Path.dot || n = Path.dotDot then t.isDirectory p
        else t.contains (child p n)) = true := by
      by_cases hn : (n = Path.dot || n = Path.dotDot) = true
      · rw [if_pos hn, ← h.isDirectory]
        simpa only [present, if_pos hn] using hpresent
      · rw [if_neg hn]
        exact h.contains (by simpa only [present, if_neg hn] using hpresent)
    rw [expand, if_pos hkept]
    exact ih hq
  | case4 => simp at hq
  | case5 ts ss p hdir ihDots ihNames =>
    rw [expand, ← h.isDirectory, if_pos hdir]
    rcases List.mem_append.1 hq with hq | hq
    · obtain ⟨n, hn, hq⟩ := List.mem_flatMap.1 hq
      exact List.mem_append_left _ (List.mem_flatMap.2 ⟨n, hn, ihDots n hq⟩)
    · obtain ⟨n, hn, hq⟩ := List.mem_flatMap.1 hq
      refine List.mem_append_right _ (List.mem_flatMap.2 ⟨n, h.namesAt hdir hn, ?_⟩)
      split at hq
      · rename_i hn
        rw [if_pos hn]
        exact ihNames n hq
      · simp at hq
  | case6 => simp at hq
  | case7 p =>
    rw [expand]
    apply below_shrinks h _ (Nat.succ_le_succ h.depth) hq
    intro r _ hr
    rwa [← h.isDirectory]
  | case8 s ss p ih =>
    rw [expand]
    apply below_shrinks h _ (Nat.succ_le_succ h.depth) hq
    intro r n hr
    split at hr
    · rename_i hn
      rw [if_pos hn]
      exact ih r hr
    · simp at hr

end Glob

namespace Discovery

variable {t t' : Tree} {root p : Path} {patterns exclude : List String} {ps : List Path}

def found (t : Tree) (root : Path) (pattern : String) : List Path :=
  match Glob.Search.parse (rooted root pattern) with
  | .ok s => (s.run t).filter t.isFile
  | .error _ => []

theorem candidates_eq (t : Tree) (root : Path) (pattern : String) {s : Glob.Search}
    (h : Glob.Search.parse (rooted root pattern) = .ok s) :
    candidates t root pattern = .ok (found t root pattern) := by
  simp [candidates, found, h]

theorem mem_of_mem_foldl_addNew {qs : List Path} (h : p ∈ qs.foldl addNew ps) :
    p ∈ ps ∨ p ∈ qs := by
  induction qs generalizing ps with
  | nil => exact Or.inl h
  | cons q qs ih =>
    rcases ih h with hp | hp
    · unfold addNew at hp
      split at hp
      · exact Or.inl hp
      · rcases List.mem_append.1 hp with hp | hp
        · exact Or.inl hp
        · exact Or.inr (List.mem_cons.2 (Or.inl (by simpa using hp)))
    · exact Or.inr (List.mem_cons_of_mem q hp)

/-- For each path that was to be added one with its components is there. -/
theorem exists_mem_foldl_addNew {qs : List Path} (h : p ∈ ps ∨ p ∈ qs) :
    ∃ q ∈ qs.foldl addNew ps, q.components = p.components := by
  induction qs generalizing ps p with
  | nil => exact ⟨p, by simpa using h, rfl⟩
  | cons r qs ih =>
    have hkeep : ∀ q ∈ ps, q ∈ addNew ps r := by
      intro q hq
      unfold addNew
      split
      · exact hq
      · exact List.mem_append_left _ hq
    -- Either the path is added or one that it would repeat is there already.
    have hnew : ∃ q ∈ addNew ps r, q.components = r.components := by
      unfold addNew
      split
      · rename_i hany
        simpa using hany
      · exact ⟨r, by simp, rfl⟩
    rw [List.foldl_cons]
    rcases h with h | h
    · exact ih (Or.inl (hkeep p h))
    · rcases List.mem_cons.1 h with rfl | h
      · obtain ⟨q, hq, hcomp⟩ := hnew
        obtain ⟨q', hq', hcomp'⟩ := ih (Or.inl hq)
        exact ⟨q', hq', hcomp'.trans hcomp⟩
      · exact ih (Or.inr h)

/-- A discovery reads all texts before it lists anything. -/
theorem discover_eq (t : Tree) (root : Path) (patterns exclude : List String) :
    discover t root patterns exclude = (compileExcludes exclude).bind fun ex =>
      (patterns.mapM (candidates t root)).map fun pss =>
        (pss.flatten.filter fun p => !excluded root ex p).foldl addNew [] := by
  unfold discover
  cases compileExcludes exclude with
  | error e => rfl
  | ok ex =>
    have hadd : ∀ (pss : List (List Path)) (found : List Path),
        pss.foldl (fun found ps => (ps.filter fun p => !excluded root ex p).foldl addNew found)
            found =
          (pss.flatten.filter fun p => !excluded root ex p).foldl addNew found := by
      intro pss
      induction pss with
      | nil => exact fun _ => rfl
      | cons ps pss ih =>
        intro found
        rw [List.foldl_cons, ih, List.flatten_cons, List.filter_append, List.foldl_append]
    simp only [bind, Except.bind, ← hadd]
    exact foldlM_eq_map (f := candidates t root) _ []

theorem exists_candidates_iff {pattern : String} :
    (∃ ps, candidates t root pattern = .ok ps) ↔
      ∃ s, Glob.Search.parse (rooted root pattern) = .ok s := by
  unfold candidates
  cases Glob.Search.parse (rooted root pattern) <;> simp

/-- A discovery succeeds if all texts are patterns, and lists what they find. -/
theorem discover_eq_ok_iff :
    discover t root patterns exclude = .ok ps ↔
      ∃ ex, compileExcludes exclude = .ok ex ∧
        (∀ pattern ∈ patterns, ∃ s, Glob.Search.parse (rooted root pattern) = .ok s) ∧
        ps = ((patterns.flatMap (found t root)).filter fun p => !excluded root ex p).foldl addNew
          [] := by
  rw [discover_eq]
  cases compileExcludes exclude with
  | error e => simp [Except.bind]
  | ok ex =>
    by_cases hparse : ∀ pattern ∈ patterns, ∃ s, Glob.Search.parse (rooted root pattern) = .ok s
    · have hall : patterns.mapM (candidates t root) = .ok (patterns.map (found t root)) := by
        apply mapM_of_forall
        intro pattern hpattern
        obtain ⟨s, hs⟩ := hparse pattern hpattern
        exact candidates_eq t root pattern hs
      simp only [Except.bind, Except.map, hall, List.flatMap_def, Except.ok.injEq, exists_eq_left']
      rw [and_iff_right hparse]
      exact eq_comm
    · -- One text that is no pattern makes the whole list fail.
      have hnone : ∀ pss, patterns.mapM (candidates t root) ≠ .ok pss := by
        intro pss hpss
        have hall := exists_mapM_eq_ok_iff.1 ⟨pss, hpss⟩
        exact hparse fun pattern hpattern => exists_candidates_iff.1 (hall pattern hpattern)
      cases hpss : patterns.mapM (candidates t root) with
      | error e => simp [Except.bind, Except.map, hparse]
      | ok pss => exact absurd hpss (hnone pss)

theorem exists_compileExcludes_iff :
    (∃ ex, compileExcludes exclude = .ok ex) ↔
      ∀ x ∈ exclude, ∃ ts, Glob.parse x.toList = .ok ts := by
  have hone : ∀ x : String, (∃ ts, ((Glob.parse x.toList).mapError fun err =>
      Failure.invalidPattern x err.text) = .ok ts) ↔ ∃ ts, Glob.parse x.toList = .ok ts := by
    intro x
    cases Glob.parse x.toList <;> simp [Except.mapError]
  unfold compileExcludes
  simp only [exists_mapM_eq_ok_iff, hone]

/-- Discovery succeeds if every exclude is a pattern, and so is every pattern below the root. -/
theorem exists_discover_iff :
    (∃ ps, discover t root patterns exclude = .ok ps) ↔
      (∀ x ∈ exclude, ∃ ts, Glob.parse x.toList = .ok ts) ∧
        ∀ pattern ∈ patterns, ∃ s, Glob.Search.parse (rooted root pattern) = .ok s := by
  simp only [discover_eq_ok_iff, ← exists_compileExcludes_iff]
  constructor
  · rintro ⟨ps, ex, hex, hparse, -⟩
    exact ⟨⟨ex, hex⟩, hparse⟩
  · rintro ⟨⟨ex, hex⟩, hparse⟩
    exact ⟨_, ex, hex, hparse, rfl⟩

/-- Texts that are read one by one fail over the first that cannot be read. -/
theorem mapM_eq_invalidPattern_iff {α β : Type} {read : String → Except Glob.PatternError α}
    {f : String → Except Failure β} {xs : List String} {e : Failure}
    (h : ∀ x e, f x = .error e ↔
      ∃ err, read x = .error err ∧ e = Failure.invalidPattern x err.text) :
    xs.mapM f = .error e ↔ ∃ x err, IsFirst (fun x => ∀ a, read x ≠ .ok a) xs x ∧
      read x = .error err ∧ e = Failure.invalidPattern x err.text := by
  have hbad : (fun x => ∀ y, f x ≠ .ok y) = fun x => ∀ a, read x ≠ .ok a := by
    funext x
    have hx := h x
    cases hf : f x with
    | error e =>
      obtain ⟨err, hread, -⟩ := (hx e).1 hf
      simp [hread]
    | ok y =>
      cases hread : read x with
      | error err => simp [(hx _).2 ⟨err, hread, rfl⟩] at hf
      | ok a => simp
  rw [mapM_eq_error_iff, hbad]
  simp only [h, exists_and_left]

/-- A discovery fails over the first exclude that is no pattern, else over the first file pattern
that is none. -/
theorem discover_eq_error_iff {e : Failure} :
    discover t root patterns exclude = .error e ↔
      (∃ x err, IsFirst (fun x => ∀ ts, Glob.parse x.toList ≠ .ok ts) exclude x ∧
        Glob.parse x.toList = .error err ∧ e = Failure.invalidPattern x err.text) ∨
      (∀ x ∈ exclude, ∃ ts, Glob.parse x.toList = .ok ts) ∧
        ∃ x err, IsFirst (fun x => ∀ s, Glob.Search.parse (rooted root x) ≠ .ok s) patterns x ∧
          Glob.Search.parse (rooted root x) = .error err ∧
          e = Failure.invalidPattern x err.text := by
  have hexclude : ∀ e, compileExcludes exclude = .error e ↔
      ∃ x err, IsFirst (fun x => ∀ ts, Glob.parse x.toList ≠ .ok ts) exclude x ∧
        Glob.parse x.toList = .error err ∧ e = Failure.invalidPattern x err.text := by
    intro e
    apply mapM_eq_invalidPattern_iff
    intro x e
    cases Glob.parse x.toList <;> simp [Except.mapError, eq_comm]
  have hpatterns : patterns.mapM (candidates t root) = .error e ↔
      ∃ x err, IsFirst (fun x => ∀ s, Glob.Search.parse (rooted root x) ≠ .ok s) patterns x ∧
        Glob.Search.parse (rooted root x) = .error err ∧
        e = Failure.invalidPattern x err.text := by
    apply mapM_eq_invalidPattern_iff
    intro x e
    unfold candidates
    cases Glob.Search.parse (rooted root x) <;> simp [eq_comm]
  -- The exclude patterns are read first.
  rw [discover_eq, ← hexclude, ← exists_compileExcludes_iff, ← hpatterns]
  cases compileExcludes exclude with
  | error e => simp [Except.bind]
  | ok ex =>
    cases patterns.mapM (candidates t root) <;> simp [Except.bind, Except.map]

/-- A discovery fails only over a text that is no pattern. -/
theorem discover_eq_error {e : Failure} (h : discover t root patterns exclude = .error e) :
    ∃ pattern error, e = Failure.invalidPattern pattern error := by
  rcases discover_eq_error_iff.1 h with ⟨x, err, -, -, rfl⟩ | ⟨-, x, err, -, -, rfl⟩
  · exact ⟨x, err.text, rfl⟩
  · exact ⟨x, err.text, rfl⟩

/-- What a discovery lists: files that a pattern finds and no exclude takes away, and for each of
these a path with the same components. -/
structure Lists (t : Tree) (root : Path) (patterns : List String) (ex : List (List Glob.Token))
    (ps : List Path) : Prop where
  sound (p : Path) : p ∈ ps →
    excluded root ex p = false ∧ ∃ pattern ∈ patterns, p ∈ found t root pattern
  complete (pattern : String) (p : Path) : pattern ∈ patterns → p ∈ found t root pattern →
    excluded root ex p = false → ∃ q ∈ ps, q.components = p.components

/-- Adding what the patterns find, one after the other, lists each file once by its components. -/
theorem lists_foldl (t : Tree) (root : Path) (patterns : List String)
    (ex : List (List Glob.Token)) :
    Lists t root patterns ex
      (((patterns.flatMap (found t root)).filter fun p => !excluded root ex p).foldl addNew
        []) where
  sound p hp := by
    have hmem := (mem_of_mem_foldl_addNew hp).resolve_left List.not_mem_nil
    obtain ⟨hfound, hkept⟩ := List.mem_filter.1 hmem
    exact ⟨by simpa using hkept, List.mem_flatMap.1 hfound⟩
  complete pattern p hpattern hp hkept := by
    apply exists_mem_foldl_addNew
    refine Or.inr (List.mem_filter.2 ⟨?_, by simp [hkept]⟩)
    exact List.mem_flatMap.2 ⟨pattern, hpattern, hp⟩

theorem exists_discover {ex : List (List Glob.Token)} (hex : compileExcludes exclude = .ok ex)
    (hparse : ∀ pattern ∈ patterns, ∃ s, Glob.Search.parse (rooted root pattern) = .ok s) :
    ∃ ps, discover t root patterns exclude = .ok ps ∧ Lists t root patterns ex ps :=
  ⟨_, discover_eq_ok_iff.2 ⟨ex, hex, hparse, rfl⟩, lists_foldl t root patterns ex⟩

/-- What discovery gives is what the patterns find and no exclude takes away. -/
theorem lists_of_discover (h : discover t root patterns exclude = .ok ps) :
    ∃ ex, compileExcludes exclude = .ok ex ∧
      (∀ pattern ∈ patterns, ∃ s, Glob.Search.parse (rooted root pattern) = .ok s) ∧
      Lists t root patterns ex ps := by
  obtain ⟨ex, hex, hparse, rfl⟩ := discover_eq_ok_iff.1 h
  exact ⟨ex, hex, hparse, lists_foldl t root patterns ex⟩

theorem found_shrinks (h : Tree.Shrinks t t') (root : Path) (pattern : String) :
    found t' root pattern ⊆ found t root pattern := by
  intro p hp
  unfold found at hp ⊢
  split at hp
  · obtain ⟨hrun, hfile⟩ := List.mem_filter.1 hp
    exact List.mem_filter.2 ⟨Glob.expand_shrinks h hrun, h.isFile hfile⟩
  · simp at hp

theorem isFile_of_mem_discover (h : discover t root patterns exclude = .ok ps) (hp : p ∈ ps) :
    t.isFile p = true := by
  obtain ⟨ex, -, -, hlists⟩ := lists_of_discover h
  obtain ⟨-, pattern, -, hfound⟩ := hlists.sound p hp
  unfold found at hfound
  split at hfound
  · exact (List.mem_filter.1 hfound).2
  · simp at hfound

/-- A second discovery, in a tree that lost files, lists no other files. -/
theorem discover_shrinks (h : Tree.Shrinks t t') (hps : discover t root patterns exclude = .ok ps) :
    ∃ ps', discover t' root patterns exclude = .ok ps' ∧
      ∀ p ∈ ps', ∃ q ∈ ps, q.components = p.components := by
  obtain ⟨ex, hex, hparse, hlists⟩ := lists_of_discover hps
  obtain ⟨ps', hps', hlists'⟩ := exists_discover (t := t') hex hparse
  refine ⟨ps', hps', ?_⟩
  intro p hp
  obtain ⟨hkept, pattern, hpattern, hfound⟩ := hlists'.sound p hp
  exact hlists.complete pattern p hpattern (found_shrinks h root pattern hfound) hkept

end Discovery

end PlaybookTidy
