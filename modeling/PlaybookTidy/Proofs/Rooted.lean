import PlaybookTidy.Proofs.Discovery
import PlaybookTidy.Proofs.Glob.Search

/-!
Patterns below a root. The escaped root is read piece by piece as itself, so what a pattern finds
are the pieces of the root and names after them.
-/

namespace PlaybookTidy

namespace Glob

open PlaybookTidy.Path (isVoid dot dotDot IsName)

variable {n : Name}

theorem escape_cons (c : Char) (s : List Char) :
    escape (c :: s) = (if isSpecial c then ['[', c, ']'] else [c]) ++ escape s := rfl

/-- Escaping a text escapes the pieces between its slashes. -/
theorem splitOn_escape (s : List Char) :
    Text.splitOn '/' (escape s) = (Text.splitOn '/' s).map escape := by
  induction s with
  | nil => rfl
  | cons c s ih =>
    obtain ⟨p, ps, hp⟩ := List.exists_cons_of_ne_nil (Text.splitOn_ne_nil '/' s)
    rw [hp, List.map_cons] at ih
    by_cases hc : c = '/'
    · subst hc
      have hslash : escape ('/' :: s) = '/' :: escape s := rfl
      rw [hslash, Text.splitOn, if_pos rfl, ih, Text.splitOn, if_pos rfl, hp]
      rfl
    · -- Escaping puts no slash there, so the first piece only grows.
      have hfree : '/' ∉ (if isSpecial c then ['[', c, ']'] else [c]) := by
        split <;> simp [Ne.symm hc]
      rw [escape_cons, Text.splitOn_append_of_not_mem hfree ih, Text.splitOn, if_neg hc, hp]
      rfl

theorem escape_dropEndWhile (s : List Char) :
    Text.dropEndWhile (· = '/') (escape s) = escape (Text.dropEndWhile (· = '/') s) := by
  induction s using List.reverseRecOn with
  | nil => rfl
  | append_singleton s c ih =>
    have hconcat : escape (s ++ [c]) = escape s ++ if isSpecial c then ['[', c, ']'] else [c] := by
      simp [escape]
    by_cases hc : c = '/'
    · subst hc
      have hdrop : ∀ r : List Char,
          Text.dropEndWhile (· = '/') (r ++ ['/']) = Text.dropEndWhile (· = '/') r := by
        intro r
        exact List.rdropWhile_concat_pos _ r '/' (by simp)
      rw [hconcat, hdrop]
      simpa [isSpecial, hdrop] using ih
    · rw [Text.dropEndWhile_of_last (by simpa using hc), hconcat]
      split
      · have hend : escape s ++ ['[', c, ']'] = (escape s ++ ['[', c]) ++ [']'] := by simp
        rw [hend, Text.dropEndWhile_of_last (by simp)]
      · exact Text.dropEndWhile_of_last (by simpa using hc)

def quotedSegment (n : Name) : Segment := .ofTokens (n.map quoted)

theorem quotedSegment_ne_anyDepth (n : Name) : quotedSegment n ≠ .anyDepth := by
  unfold quotedSegment Segment.ofTokens
  rw [mapM_char?_quoted]
  by_cases hn : n.any isSpecial = true
  · simp only [if_pos hn, if_neg (map_quoted_ne_anyDepth n)]
    simp
  · simp [hn]

/-- Escaped names stay as they are when neighbouring wildcards become one. -/
theorem collapse_append (ns : List Name) (ss : List Segment) :
    Segment.collapse (ns.map quotedSegment ++ ss) =
      ns.map quotedSegment ++ Segment.collapse ss := by
  induction ns with
  | nil => rfl
  | cons n ns ih =>
    rw [List.map_cons, List.cons_append, Segment.collapse]
    · rw [ih]; rfl
    · intro _ h
      exact absurd h (quotedSegment_ne_anyDepth n)

theorem collapse_subset (ss : List Segment) : Segment.collapse ss ⊆ ss := by
  fun_induction Segment.collapse ss with
  | case1 ss ih =>
    intro s hs
    exact List.mem_cons_of_mem _ (ih hs)
  | case2 s ss _ ih => exact List.cons_subset_cons s ih
  | case3 => exact List.Subset.refl _

/-- A component that is a pattern itself and does not begin with a dot. -/
structure PlainComponent (c : List Char) : Prop where
  reads : ∃ ts, Glob.parse c = .ok ts
  head : c.head? ≠ some '.'

theorem map_char_of_mapM {ts : List Token} {name : Name} (h : ts.mapM Segment.char? = some name) :
    ts = name.map .char := by
  induction ts generalizing name with
  | nil =>
    obtain rfl : name = [] := by simpa using h.symm
    rfl
  | cons t ts ih =>
    rw [List.mapM_cons] at h
    cases t with
    | char c =>
      cases hts : ts.mapM Segment.char? with
      | none => simp [Segment.char?, hts] at h
      | some rest =>
        obtain rfl : c :: rest = name := by simpa [Segment.char?, hts] using h
        rw [List.map_cons, ← ih hts]
    | _ => simp [Segment.char?] at h

/-- A component that does not begin with a dot leads to names in directories only. -/
theorem plain_of_component {c : List Char} {ts : List Token} (h : PlainComponent c) (hc : '/' ∉ c)
    (hts : Glob.parse c = .ok ts) : (Segment.ofTokens ts).Plain := by
  rw [parse_eq_ok_iff] at hts
  unfold Segment.ofTokens
  split
  · rename_i name hname
    obtain rfl := map_char_of_mapM hname
    cases name with
    | nil => exact Or.inl rfl
    | cons a name =>
      -- The literal is what was written, so its first character is no dot and none is a slash.
      have ha : a ≠ '.' := by
        intro ha
        rw [List.map_cons] at hts
        exact h.head (ha ▸ head_of_reads hts)
      have hslash : '/' ∉ a :: name := by
        intro hmem
        exact hc (mem_of_reads hts (List.mem_map_of_mem hmem))
      refine Or.inr ⟨?_, ?_, hslash⟩
      · simp [isVoid, dot, ha]
      · simp [dotDot, ha]
  · split
    · trivial
    · show dotEntries ts = []
      unfold dotEntries
      split
      · exact absurd (head_of_reads hts) h.head
      · rfl

theorem mapM_escape (ns : List Name) :
    (ns.map escape).mapM (fun c => (Glob.parse c).map Segment.ofTokens) =
      .ok (ns.map quotedSegment) := by
  induction ns with
  | nil => rfl
  | cons n ns ih =>
    have hn : Glob.parse (escape n) = .ok (n.map quoted) := parse_eq_ok_iff.2 (reads_escape true n)
    rw [List.map_cons, List.mapM_cons, hn, ih]
    rfl

theorem mapM_plain {cs : List (List Char)} (h : ∀ c ∈ cs, PlainComponent c ∧ '/' ∉ c) :
    ∃ ss : List Segment, cs.mapM (fun c => (Glob.parse c).map Segment.ofTokens) = .ok ss ∧
      ∀ s ∈ ss, s.Plain := by
  induction cs with
  | nil => exact ⟨[], rfl, by simp⟩
  | cons c cs ih =>
    rw [List.forall_mem_cons] at h
    obtain ⟨ss, hss, hplain⟩ := ih h.2
    obtain ⟨ts, hts⟩ := h.1.1.reads
    refine ⟨.ofTokens ts :: ss, ?_, List.forall_mem_cons.2 ⟨?_, hplain⟩⟩
    · rw [List.mapM_cons, hts, hss]
      rfl
    · exact plain_of_component h.1.1 h.1.2 hts

/-- The components of a pattern that a search reads one by one. -/
def searched (s : List Char) : List Name :=
  if s = ['/'] then [[]] else pieces (if s.head? = some '/' then s.drop 1 else s)

/-- A search is a pattern whose components are patterns too. -/
theorem Search.parse_eq_ok_iff {s : List Char} {search : Search} :
    Search.parse s = .ok search ↔ ∃ ts ss, Glob.parse s = .ok ts ∧
      (searched s).mapM (fun c => (Glob.parse c).map Segment.ofTokens) = .ok ss ∧
      search = { start := ⟨if s.head? = some '/' then ['/'] else dot⟩
                 segments := Segment.collapse ss
                 directoriesOnly := s.getLast? = some '/' } := by
  have hparse : Search.parse s = (do
      let _ ← Glob.parse s
      return { start := ⟨if s.head? = some '/' then ['/'] else dot⟩
               segments := Segment.collapse
                (← (searched s).mapM fun c => (Glob.parse c).map Segment.ofTokens)
               directoriesOnly := s.getLast? = some '/' }) := rfl
  rw [hparse]
  constructor
  · intro h
    cases hts : Glob.parse s with
    | error e => simp [hts, bind, Except.bind] at h
    | ok ts =>
      rw [hts] at h
      obtain ⟨ss, hss, rfl⟩ := bind_ok h
      exact ⟨ts, ss, rfl, hss, rfl⟩
  · rintro ⟨ts, ss, hts, hss, rfl⟩
    rw [hts, hss]
    rfl

theorem pieces_subset (s : List Char) : pieces s ⊆ Text.splitOn '/' s := by
  unfold pieces
  simp only
  split
  · exact List.dropLast_subset _
  · exact List.Subset.refl _

theorem mem_pieces {s c : List Char} (hc : c ∈ Text.splitOn '/' s) (hne : c ≠ []) :
    c ∈ pieces s := by
  unfold pieces
  simp only
  split
  · rename_i hlast
    -- The piece that is left out is empty.
    obtain ⟨front, hfront⟩ := List.getLast?_eq_some_iff.1 hlast
    rw [hfront] at hc ⊢
    simpa [hne] using hc
  · exact hc

theorem pieces_append (a b : List Char) :
    pieces (a ++ '/' :: b) = Text.splitOn '/' a ++ pieces b := by
  have hne := Text.splitOn_ne_nil '/' b
  simp only [pieces, Text.splitOn_append_sep, List.getLast?_append_of_ne_nil _ hne,
    List.dropLast_append_of_ne_nil hne]
  split <;> rfl

end Glob

namespace Discovery

open PlaybookTidy.Path (isVoid dot)
open Glob (escape quotedSegment PlainComponent searched pieces)

variable {root : Path}

def startFront (root : Path) : List Name := if root.isAbsolute then [[]] else []

def front (root : Path) : List Name :=
  (Text.splitOn '/' root.text).foldl Glob.grow (startFront root)

theorem front_eq_dropEndWhile (root : Path) :
    front root = (Text.splitOn '/' (Text.dropEndWhile (· = '/') root.text)).foldl Glob.grow
      (startFront root) := by
  have hempty : ∀ (k : Nat) (f : List Name), (List.replicate k []).foldl Glob.grow f = f := by
    intro k f
    induction k with
    | zero => rfl
    | succ k ih => simpa [List.replicate_succ, Glob.grow] using ih
  obtain ⟨k, hk⟩ := Text.exists_splitOn_dropEndWhile '/' root.text
  rw [front, hk, List.foldl_append, hempty]

/-- The pieces that a root leaves in the paths below it make the steps of the root. -/
theorem filter_front (root : Path) : (front root).filter (fun n => !isVoid n) = root.steps := by
  rw [front, Glob.filter_foldl_grow, startFront]
  split <;> rfl

theorem head_front_absolute (h : root.isAbsolute = true) : (front root).head? = some [] := by
  rw [front, startFront, if_pos h, Glob.head_foldl_grow (by simp)]
  rfl

theorem head_front_relative (h : root.isAbsolute = false) : (front root).head? ≠ some [] := by
  rw [front, startFront, if_neg (by simp [h])]
  exact Glob.head_foldl_grow_ne _ (Or.inl rfl) (by simp)

theorem head_front_ne_dot (root : Path) : (front root).head? ≠ some dot := by
  refine Glob.head_foldl_grow_ne _ (Or.inr rfl) ?_
  unfold startFront
  split <;> simp [dot]

/-- The components of a pattern below a root are the pieces of the root, and then its own. -/
structure Cut (root : Path) (pattern : String) (ns cs : List Name) : Prop where
  searched : searched (rooted root pattern) = ns.map escape ++ cs
  own : cs = Glob.pieces pattern.toList ∨ pattern.toList = [] ∧ cs = [[]]
  pieces : ∃ k, Text.splitOn '/' root.text = startFront root ++ ns ++ List.replicate k []
  slash : ∀ n ∈ ns, '/' ∉ n
  front : ns.foldl Glob.grow (startFront root) = front root
  head : (rooted root pattern).head? = some '/' ↔ root.isAbsolute = true

theorem Cut.subset {pattern : String} {ns cs : List Name} (h : Cut root pattern ns cs) :
    cs ⊆ Text.splitOn '/' pattern.toList := by
  rcases h.own with rfl | ⟨hnil, rfl⟩
  · exact Glob.pieces_subset _
  · simp [hnil, Text.splitOn]

theorem Cut.mem_of_ne_nil {pattern : String} {ns cs : List Name} {c : Name}
    (h : Cut root pattern ns cs) (hc : c ∈ Text.splitOn '/' pattern.toList) (hne : c ≠ []) :
    c ∈ cs := by
  rcases h.own with rfl | ⟨hnil, rfl⟩
  · exact Glob.mem_pieces hc hne
  · simp [hnil, Text.splitOn, hne] at hc

theorem rooted_eq (root : Path) (pattern : String) :
    rooted root pattern =
      escape (Text.dropEndWhile (· = '/') root.text) ++ '/' :: pattern.toList := by
  rw [rooted, Glob.escape_dropEndWhile]

theorem exists_cut_absolute (habs : root.isAbsolute = true) (pattern : String) :
    ∃ ns cs, Cut root pattern ns cs := by
  obtain ⟨x, hx, -⟩ := Path.splitOn_absolute habs
  have hpre := Text.dropEndWhile_prefix (· = '/') root.text
  cases hy : Text.dropEndWhile (· = '/') root.text with
  | nil =>
    -- The root of the file system itself: no pieces beyond the one where the search starts.
    have hrooted : rooted root pattern = '/' :: pattern.toList := by
      rw [rooted_eq, hy]
      rfl
    have hfront : front root = startFront root := by
      rw [front_eq_dropEndWhile, hy]
      simp [Text.splitOn, Glob.grow]
    obtain ⟨k, hk⟩ := Text.exists_splitOn_dropEndWhile '/' root.text
    have hroot : Text.splitOn '/' root.text = startFront root ++ [] ++ List.replicate k [] := by
      rw [hk, hy, startFront, if_pos habs]
      rfl
    refine ⟨[], searched (rooted root pattern), rfl, ?_, ⟨k, hroot⟩, by simp, hfront.symm,
      by simp [hrooted, habs]⟩
    rw [searched, hrooted]
    by_cases hpat : pattern.toList = []
    · exact Or.inr ⟨hpat, by simp [hpat]⟩
    · exact Or.inl (by simp [hpat])
  | cons d y =>
    rw [hy, hx] at hpre
    obtain rfl := (List.cons_prefix_cons.1 hpre).1
    have hrooted : rooted root pattern = '/' :: (escape y ++ '/' :: pattern.toList) := by
      rw [rooted_eq, hy]
      rfl
    obtain ⟨k, hk⟩ := Text.exists_splitOn_dropEndWhile '/' root.text
    have hroot : Text.splitOn '/' root.text =
        startFront root ++ Text.splitOn '/' y ++ List.replicate k [] := by
      rw [hk, hy, startFront, if_pos habs]
      simp [Text.splitOn]
    refine ⟨Text.splitOn '/' y, pieces pattern.toList, ?_, Or.inl rfl, ⟨k, hroot⟩,
      fun n hn => Text.not_mem_of_mem_splitOn hn, ?_, by simp [hrooted, habs]⟩
    · simp [searched, hrooted, Glob.pieces_append, Glob.splitOn_escape]
    · rw [front_eq_dropEndWhile, hy]
      simp [Text.splitOn, Glob.grow]

theorem exists_cut_relative (hroot : root.text ≠ []) (hrel : root.isAbsolute = false)
    (pattern : String) : ∃ ns cs, Cut root pattern ns cs := by
  obtain ⟨c, x, hx⟩ := List.exists_cons_of_ne_nil hroot
  have hpre := Text.dropEndWhile_prefix (· = '/') root.text
  have hc : c ≠ '/' := by simpa [Path.isAbsolute, hx] using hrel
  cases hy : Text.dropEndWhile (· = '/') root.text with
  | nil =>
    have hall := List.rdropWhile_eq_nil_iff.1 hy c (by simp [hx])
    exact absurd (by simpa using hall) hc
  | cons d y =>
    rw [hy, hx] at hpre
    obtain rfl := (List.cons_prefix_cons.1 hpre).1
    -- The rooted pattern begins as the root does, so it is relative too.
    have hhead : (rooted root pattern).head? ≠ some '/' := by
      rw [rooted_eq, hy, Glob.escape_cons]
      split <;> simp [hc]
    have hlong : rooted root pattern ≠ ['/'] := by
      intro h
      simp [h] at hhead
    obtain ⟨k, hk⟩ := Text.exists_splitOn_dropEndWhile '/' root.text
    have hroot : Text.splitOn '/' root.text =
        startFront root ++ Text.splitOn '/' (d :: y) ++ List.replicate k [] := by
      rw [hk, hy, startFront, if_neg (by simp [hrel])]
      rfl
    refine ⟨Text.splitOn '/' (d :: y), pieces pattern.toList, ?_, Or.inl rfl, ⟨k, hroot⟩,
      fun n hn => Text.not_mem_of_mem_splitOn hn, by rw [front_eq_dropEndWhile, hy],
      by simp [hhead, hrel]⟩
    rw [searched, if_neg hlong, if_neg hhead, rooted_eq, hy, Glob.pieces_append,
      Glob.splitOn_escape]

/-- Below every root but the empty one a pattern has the pieces of the root, then its own. -/
theorem exists_cut (hroot : root.text ≠ []) (pattern : String) :
    ∃ ns cs, Cut root pattern ns cs := by
  cases habs : root.isAbsolute with
  | true => exact exists_cut_absolute habs pattern
  | false => exact exists_cut_relative hroot habs pattern

structure PlainPattern (pattern : String) : Prop where
  reads : ∃ ts, Glob.parse pattern.toList = .ok ts
  components : ∀ c ∈ Text.splitOn '/' pattern.toList, PlainComponent c

/-- The slash after the root starts a component, so the pattern reads there as it does alone. -/
theorem parse_rooted_iff (root : Path) {pattern : String} :
    (∃ ts, Glob.parse (rooted root pattern) = .ok ts) ↔
      ∃ ts, Glob.parse pattern.toList = .ok ts := by
  simp only [rooted_eq, Glob.parse_eq_ok_iff]
  constructor
  · rintro ⟨ts, hts⟩
    obtain ⟨start, rest, hrest⟩ := Glob.reads_of_escape_append hts
    cases hrest with
    | char _ _ _ h => exact ⟨_, h⟩
  · rintro ⟨ts, hts⟩
    have hafter : ∀ start, Glob.Reads start ('/' :: pattern.toList) (.char '/' :: ts) := by
      intro start
      exact .char (by decide) (by decide) (by decide) hts
    exact ⟨_, Glob.reads_escape_append hafter⟩

/-- An empty root is the root of the file system. -/
theorem exists_root (root : Path) : ∃ top : Path, top.text ≠ [] ∧ top.steps = root.steps ∧
    ∀ pattern, rooted top pattern = rooted root pattern := by
  by_cases h : root.text = []
  · obtain rfl : root = ⟨[]⟩ := congrArg Path.mk h
    exact ⟨⟨['/']⟩, by simp, rfl, fun _ => rfl⟩
  · exact ⟨root, h, rfl, fun _ => rfl⟩

/-- The text is a pattern, and so is each of its components. -/
structure IsPattern (pattern : String) : Prop where
  reads : ∃ ts, Glob.parse pattern.toList = .ok ts
  components : ∀ c ∈ Text.splitOn '/' pattern.toList, ∃ ts, Glob.parse c = .ok ts

/-- Below any root a pattern is searched for if it is one by itself. -/
theorem exists_search_iff (root : Path) {pattern : String} :
    (∃ s, Glob.Search.parse (rooted root pattern) = .ok s) ↔ IsPattern pattern := by
  obtain ⟨top, htop, -, hrooted⟩ := exists_root root
  obtain ⟨ns, cs, hcut⟩ := exists_cut htop pattern
  rw [← hrooted]
  -- Of the components of the text only those of the pattern can be no patterns.
  have hsearched : (∃ ss, (searched (rooted top pattern)).mapM
      (fun c => (Glob.parse c).map Glob.Segment.ofTokens) = .ok ss) ↔
        ∀ c ∈ cs, ∃ ts, Glob.parse c = .ok ts := by
    rw [exists_mapM_eq_ok_iff, hcut.searched]
    have hone : ∀ c : List Char, (∃ s, (Glob.parse c).map Glob.Segment.ofTokens = .ok s) ↔
        ∃ ts, Glob.parse c = .ok ts := by
      intro c
      cases Glob.parse c <;> simp [Except.map]
    simp only [hone, List.mem_append, or_imp, forall_and]
    refine and_iff_right ?_
    intro c hc
    obtain ⟨n, -, rfl⟩ := List.mem_map.1 hc
    exact ⟨_, Glob.parse_eq_ok_iff.2 (Glob.reads_escape true n)⟩
  have hcomponents : (∀ c ∈ cs, ∃ ts, Glob.parse c = .ok ts) ↔
      ∀ c ∈ Text.splitOn '/' pattern.toList, ∃ ts, Glob.parse c = .ok ts := by
    constructor
    · intro h c hc
      by_cases hnil : c = []
      · exact ⟨[], hnil ▸ Glob.parse_eq_ok_iff.2 (.nil true)⟩
      · exact h c (hcut.mem_of_ne_nil hc hnil)
    · intro h c hc
      exact h c (hcut.subset hc)
  constructor
  · rintro ⟨s, hs⟩
    obtain ⟨ts, ss, hts, hss, -⟩ := Glob.Search.parse_eq_ok_iff.1 hs
    exact ⟨(parse_rooted_iff top).1 ⟨ts, hts⟩, hcomponents.1 (hsearched.1 ⟨ss, hss⟩)⟩
  · intro h
    obtain ⟨ts, hts⟩ := (parse_rooted_iff top).2 h.reads
    obtain ⟨ss, hss⟩ := hsearched.2 (hcomponents.2 h.components)
    exact ⟨_, Glob.Search.parse_eq_ok_iff.2 ⟨ts, ss, hts, hss, rfl⟩⟩

def searchStart (root : Path) (pattern : String) : Path :=
  ⟨if (rooted root pattern).head? = some '/' then ['/'] else dot⟩

variable {pattern : String} {ns cs : List Name}

theorem Cut.spells_start (h : Cut root pattern ns cs) :
    Glob.Spells (startFront root) (searchStart root pattern) := by
  unfold startFront searchStart
  by_cases habs : root.isAbsolute = true
  · rw [if_pos habs, if_pos (h.head.2 habs)]
    exact ⟨by simp, by simp [dot], Or.inr (Or.inl ⟨by simp, rfl⟩)⟩
  · rw [if_neg habs, if_neg (mt h.head.1 habs)]
    exact ⟨by simp, by simp, Or.inl ⟨rfl, Or.inr rfl⟩⟩

theorem Cut.isAbsolute_searchStart (h : Cut root pattern ns cs) :
    (searchStart root pattern).isAbsolute = root.isAbsolute := by
  rw [Bool.eq_iff_iff, ← h.head, searchStart]
  split <;> simp_all [Path.isAbsolute, dot]

theorem steps_searchStart (root : Path) (pattern : String) :
    (searchStart root pattern).steps = [] := by
  unfold searchStart
  split <;> rfl

/-- The components of a plain pattern are read as plain segments. -/
theorem PlainPattern.exists_segments (hpat : PlainPattern pattern)
    (hcs : cs ⊆ Text.splitOn '/' pattern.toList) :
    ∃ ss, cs.mapM (fun c => (Glob.parse c).map Glob.Segment.ofTokens) = .ok ss ∧
      ∀ s ∈ ss, s.Plain := by
  apply Glob.mapM_plain
  intro c hc
  exact ⟨hpat.components c (hcs hc), Text.not_mem_of_mem_splitOn (hcs hc)⟩

/-- A plain pattern is a pattern below each root: the pieces of the root are read as themselves, and
then the components of the pattern. -/
theorem Cut.exists_parse (h : Cut root pattern ns cs) (hpat : PlainPattern pattern) :
    ∃ ss, cs.mapM (fun c => (Glob.parse c).map Glob.Segment.ofTokens) = .ok ss ∧
      (∀ s ∈ Glob.Segment.collapse ss, s.Plain) ∧
      Glob.Search.parse (rooted root pattern) = .ok {
        start := searchStart root pattern
        segments := ns.map quotedSegment ++ Glob.Segment.collapse ss
        directoriesOnly := (rooted root pattern).getLast? = some '/' } := by
  obtain ⟨ts, hts⟩ := (parse_rooted_iff root).2 hpat.reads
  obtain ⟨ss, hss, hplain⟩ := hpat.exists_segments h.subset
  have hmap : (Glob.searched (rooted root pattern)).mapM
      (fun c => (Glob.parse c).map Glob.Segment.ofTokens) = .ok (ns.map quotedSegment ++ ss) := by
    rw [h.searched, List.mapM_append, Glob.mapM_escape, hss]
    rfl
  refine ⟨ss, hss, ?_, ?_⟩
  · intro s hs
    exact hplain s (Glob.collapse_subset ss hs)
  · rw [Glob.Search.parse_eq_ok_iff]
    refine ⟨ts, _, hts, hmap, ?_⟩
    rw [Glob.collapse_append]
    rfl

/-- A plain pattern finds names after the pieces of the root. -/
theorem run_rooted {t : Tree} (hnamed : t.Named) (hroot : root.text ≠ [])
    (hpat : PlainPattern pattern) :
    ∃ s, Glob.Search.parse (rooted root pattern) = .ok s ∧
      ∀ p ∈ s.run t, ∃ ns : List Name, (∀ n ∈ ns, Path.IsName n) ∧
        Glob.Spells (front root ++ ns) p := by
  obtain ⟨ns, cs, hcut⟩ := exists_cut hroot pattern
  obtain ⟨ss, -, hplain, hparse⟩ := hcut.exists_parse hpat
  refine ⟨_, hparse, ?_⟩
  intro p hp
  -- First through the pieces of the root, then by names below it.
  have hafterRoot := Glob.expand_quoted_append hp
  obtain ⟨ms, hms, rfl⟩ := Glob.expand_plain hnamed hplain hafterRoot
  refine ⟨ms.filter fun n => n ≠ [], ?_, ?_⟩
  · intro n hn
    obtain ⟨hmem, hne⟩ := List.mem_filter.1 hn
    exact (hms n hmem).resolve_left (by simpa using hne)
  · rw [← Glob.foldl_grow hms, ← hcut.front]
    have hnames : ∀ n ∈ ms, '/' ∉ n := by
      intro n hn
      rcases hms n hn with rfl | hname
      · simp
      · exact hname.slash
    have hfront := Glob.spells_foldl hcut.spells_start hcut.slash
    exact Glob.spells_foldl hfront hnames

end Discovery

end PlaybookTidy
