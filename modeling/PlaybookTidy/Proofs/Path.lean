import PlaybookTidy.Path
import PlaybookTidy.Proofs.Pieces

/-!
What a path says apart from its spelling: whether it is absolute, and the pieces that lead
somewhere. Joining paths and cutting off the last name are described in these terms.
-/

namespace PlaybookTidy.Path

/-- The pieces that lead to another directory or name something in it. -/
def steps (p : Path) : List Name := (Text.splitOn '/' p.text).filter fun n => !isVoid n

def Lead.pieces : Lead → List Name
  | root => [[]]
  | here => [dot]
  | bare => []

@[simp] theorem isVoid_nil : isVoid [] = true := rfl

@[simp] theorem isVoid_dot : isVoid dot = true := rfl

@[simp] theorem isVoid_dotDot : isVoid dotDot = false := rfl

theorem filter_pieces (lead : Lead) : lead.pieces.filter (fun n => !isVoid n) = [] := by
  cases lead <;> rfl

theorem splitOn_absolute {p : Path} (h : p.isAbsolute = true) :
    ∃ s, p.text = '/' :: s ∧ Text.splitOn '/' p.text = [] :: Text.splitOn '/' s := by
  obtain ⟨text⟩ := p
  cases text with
  | nil => simp [isAbsolute] at h
  | cons c s =>
    obtain rfl : c = '/' := by simpa [isAbsolute] using h
    exact ⟨s, rfl, by simp [Text.splitOn]⟩

/-- The pieces of a path are those of its lead and the others. -/
theorem splitOn_eq_parts (p : Path) : Text.splitOn '/' p.text = p.parts.1.pieces ++ p.parts.2 := by
  obtain ⟨piece, ps, hps⟩ := List.exists_cons_of_ne_nil (Text.splitOn_ne_nil '/' p.text)
  by_cases hroot : p.text.head? = some '/'
  · obtain ⟨s, -, hs⟩ := splitOn_absolute (p := p) (by simp [isAbsolute, hroot])
    obtain ⟨rfl, rfl⟩ := List.cons.inj (hps.symm.trans hs)
    simp [parts, hps, hroot, Lead.pieces]
  · by_cases hdot : piece = dot
    · simp [parts, hps, hroot, hdot, Lead.pieces]
    · simp [parts, hps, hroot, hdot, Lead.pieces]

theorem isAbsolute_iff {p : Path} : p.isAbsolute = true ↔ p.parts.1 = .root := by
  obtain ⟨piece, ps, hps⟩ := List.exists_cons_of_ne_nil (Text.splitOn_ne_nil '/' p.text)
  by_cases hroot : p.text.head? = some '/'
  · simp [isAbsolute, parts, hps, hroot]
  · by_cases hdot : piece = dot
    · simp [isAbsolute, parts, hps, hroot, hdot]
    · simp [isAbsolute, parts, hps, hroot, hdot]

theorem isAbsolute_eq_false_iff {p : Path} : p.isAbsolute = false ↔ p.parts.1 ≠ .root := by
  rw [Bool.eq_false_iff, ne_eq, isAbsolute_iff]

/-- A path names the current directory first if its first piece is a dot. -/
theorem lead_eq_here_iff {p : Path} :
    p.parts.1 = .here ↔ (Text.splitOn '/' p.text).head? = some dot := by
  obtain ⟨piece, ps, hps⟩ := List.exists_cons_of_ne_nil (Text.splitOn_ne_nil '/' p.text)
  by_cases hroot : p.text.head? = some '/'
  · obtain ⟨s, -, hs⟩ := splitOn_absolute (p := p) (by simp [isAbsolute, hroot])
    simp [parts, hs, hroot, dot]
  · by_cases hdot : piece = dot
    · simp [parts, hps, hroot, hdot]
    · simp [parts, hps, hroot, hdot]

theorem steps_eq_parts (p : Path) : p.steps = p.parts.2.filter fun n => !isVoid n := by
  rw [steps, splitOn_eq_parts, List.filter_append, filter_pieces, List.nil_append]

def stepComponent (n : Name) : Component := if n = dotDot then .up else .name n

theorem stepComponent_injective : Function.Injective stepComponent := by
  intro n m h
  unfold stepComponent at h
  grind

theorem filterMap_component? (ns : List Name) :
    ns.filterMap component? = (ns.filter fun n => !isVoid n).map stepComponent := by
  induction ns with
  | nil => rfl
  | cons n ns ih =>
    cases hn : isVoid n with
    | true => simp [component?, hn, ih]
    | false =>
      have hc : component? n = some (stepComponent n) := by
        unfold component? stepComponent
        grind
      simp [hc, hn, ih]

theorem components_eq_steps (p : Path) :
    p.components = p.parts.1.components ++ p.steps.map stepComponent := by
  rw [steps_eq_parts, ← filterMap_component?]
  rfl

theorem stepComponent_ne (n : Name) : stepComponent n ≠ .root ∧ stepComponent n ≠ .here := by
  unfold stepComponent
  grind

/-- A path with a lead has its component in front, and no other path has. -/
theorem head_components_iff {p : Path} {lead : Lead} (h : lead ≠ .bare) :
    p.components.head? = lead.components.head? ↔ p.parts.1 = lead := by
  have hstep := stepComponent_ne
  rw [components_eq_steps]
  cases lead with
  | root => cases p.parts.1 <;> cases p.steps <;> simp [Lead.components, hstep]
  | here => cases p.parts.1 <;> cases p.steps <;> simp [Lead.components, hstep]
  | bare => exact absurd rfl h

theorem lead_eq_of_iff {a b : Lead} (h : ∀ lead, lead ≠ .bare → (a = lead ↔ b = lead)) : a = b := by
  by_cases ha : a = .bare
  · by_cases hb : b = .bare
    · rw [ha, hb]
    · exact (h b hb).2 rfl
  · exact ((h a ha).1 rfl).symm

/-- Paths with the same first component begin in the same way. -/
theorem lead_of_head {p q : Path} (h : p.components.head? = q.components.head?) :
    p.parts.1 = q.parts.1 := by
  apply lead_eq_of_iff
  intro lead hlead
  rw [← head_components_iff hlead, ← head_components_iff hlead, h]

/-- The components tell the lead and the steps. -/
theorem steps_of_components {p q : Path} (h : p.components = q.components) :
    p.parts.1 = q.parts.1 ∧ p.steps = q.steps := by
  have hlead := lead_of_head (congrArg List.head? h)
  refine ⟨hlead, ?_⟩
  rw [components_eq_steps, components_eq_steps, hlead] at h
  exact stepComponent_injective.list_map (List.append_cancel_left h)

theorem isAbsolute_of_components {p q : Path} (h : p.components = q.components) :
    p.isAbsolute = q.isAbsolute := by
  rw [Bool.eq_iff_iff, isAbsolute_iff, isAbsolute_iff, (steps_of_components h).1]

theorem isAbsolute_mk {n : Name} (hn : '/' ∉ n) : (Path.mk n).isAbsolute = false := by
  rw [Bool.eq_false_iff, isAbsolute, ne_eq, decide_eq_true_eq]
  exact fun hhead => hn (List.mem_of_mem_head? hhead)

theorem steps_mk {n : Name} (hn : '/' ∉ n) :
    (Path.mk n).steps = [n].filter fun n => !isVoid n := by
  rw [steps, Text.splitOn_of_not_mem hn]

/-- The pieces of the second path stay as they are. -/
theorem splitOn_join {p q : Path} (hq : q.isAbsolute = false) :
    ∃ front, Text.splitOn '/' (p.join q).text = front ++ Text.splitOn '/' q.text ∧
      front.filter (fun n => !isVoid n) = p.steps := by
  unfold join
  rw [if_neg (by simp [hq])]
  split
  · -- Nothing is put between the two texts: the first is empty or ends with a slash.
    rename_i h
    rcases List.eq_nil_or_concat p.text with hp | ⟨s, c, hp⟩
    · exact ⟨[], by simp [hp], by simp [steps, hp, Text.splitOn]⟩
    · obtain rfl : c = '/' := by simpa [hp] using h
      have hcut : p.text ++ q.text = s ++ '/' :: q.text := by simp [hp]
      have hend : Text.splitOn '/' p.text = Text.splitOn '/' s ++ [[]] := by
        rw [hp, List.concat_eq_append, Text.splitOn_append_sep]
        rfl
      refine ⟨Text.splitOn '/' s, ?_, by simp [steps, hend]⟩
      rw [hcut, Text.splitOn_append_sep]
  · exact ⟨Text.splitOn '/' p.text, Text.splitOn_append_sep _ _ _, rfl⟩

theorem steps_join {p q : Path} (hq : q.isAbsolute = false) :
    (p.join q).steps = p.steps ++ q.steps := by
  obtain ⟨front, hcut, hfront⟩ := splitOn_join (p := p) hq
  rw [steps, hcut, List.filter_append, hfront]
  rfl

theorem isAbsolute_join {p q : Path} (hq : q.isAbsolute = false) :
    (p.join q).isAbsolute = p.isAbsolute := by
  unfold join
  rw [if_neg (by simp [hq])]
  cases hp : p.text with
  | nil => simpa [isAbsolute, hp] using hq
  | cons c s => split <;> simp [isAbsolute, hp]

/-- A joined path begins as the first path does, unless that is empty. -/
theorem head_splitOn_join {p q : Path} (hq : q.isAbsolute = false) (hp : p.text ≠ []) :
    (Text.splitOn '/' (p.join q).text).head? = (Text.splitOn '/' p.text).head? := by
  have hslash : ∀ s t : List Char, (Text.splitOn '/' (s ++ '/' :: t)).head? =
      (Text.splitOn '/' s).head? := by
    intro s t
    rw [Text.splitOn_append_sep, List.head?_append_of_ne_nil _ (Text.splitOn_ne_nil '/' s)]
  rw [join, if_neg (by simp [hq])]
  split
  · rename_i hend
    obtain ⟨s, c, hs⟩ := (List.eq_nil_or_concat p.text).resolve_left hp
    obtain rfl : c = '/' := by simpa [hs] using hend
    have hjoined : p.text ++ q.text = s ++ '/' :: q.text := by simp [hs]
    have hfirst : p.text = s ++ '/' :: [] := by simp [hs]
    rw [hjoined, hfirst, hslash, hslash]
  · exact hslash p.text q.text

theorem lead_join_of_ne_nil {p q : Path} (hq : q.isAbsolute = false) (hp : p.text ≠ []) :
    (p.join q).parts.1 = p.parts.1 := by
  apply lead_eq_of_iff
  intro lead hlead
  cases lead with
  | root => rw [← isAbsolute_iff, ← isAbsolute_iff, isAbsolute_join hq]
  | here => rw [lead_eq_here_iff, lead_eq_here_iff, head_splitOn_join hq hp]
  | bare => exact absurd rfl hlead

theorem join_of_empty {p q : Path} (hp : p.text = []) : p.join q = q := by
  simp [join, hp]

theorem splitOn_attach_here {ps : List Name} (hps : ∀ n ∈ ps, '/' ∉ n) :
    Text.splitOn '/' (Lead.here.attach ps).text = dot :: ps := by
  have hslash : ∀ n ∈ dot :: ps, '/' ∉ n := List.forall_mem_cons.2 ⟨by decide, hps⟩
  exact Text.splitOn_intercalate (List.cons_ne_nil dot ps) hslash

/-- Text made of a lead and pieces has the steps of the pieces. -/
theorem steps_attach {lead : Lead} {ps : List Name} (hps : ∀ n ∈ ps, '/' ∉ n) :
    (lead.attach ps).steps = ps.filter fun n => !isVoid n := by
  have hjoin : (Text.splitOn '/' (joinPieces ps)).filter (fun n => !isVoid n) =
      ps.filter fun n => !isVoid n := by
    by_cases hne : ps = []
    · simp [hne, joinPieces, List.intercalate, Text.splitOn]
    · rw [joinPieces, Text.splitOn_intercalate hne hps]
  cases lead with
  | root => simpa [steps, Lead.attach, Text.splitOn] using hjoin
  | here => simp [steps, splitOn_attach_here hps]
  | bare => simpa [steps, Lead.attach] using hjoin

/-- The first piece of a path without a lead is empty only if there is no other. -/
theorem bare_head {p : Path} {ps : List Name} (h : p.parts = (.bare, [] :: ps)) : ps = [] := by
  have hcut : Text.splitOn '/' p.text = [] :: ps := by
    rw [splitOn_eq_parts, h]
    rfl
  have hrel : p.isAbsolute = false := isAbsolute_eq_false_iff.2 (by simp [h])
  cases hp : p.text with
  | nil => simpa [hp, Text.splitOn] using hcut.symm
  | cons c s =>
    have hc : c ≠ '/' := by simpa [isAbsolute, hp] using hrel
    obtain ⟨q, qs, hq⟩ := List.exists_cons_of_ne_nil (Text.splitOn_ne_nil '/' s)
    simp [hp, Text.splitOn, hc, hq] at hcut

theorem parts_of_absolute {p : Path} {ps : List Name} (h : Text.splitOn '/' p.text = [] :: ps)
    (hps : ps ≠ []) : p.parts = (.root, ps) := by
  obtain ⟨n, ns, rfl⟩ := List.exists_cons_of_ne_nil hps
  have htext := Text.intercalate_splitOn '/' p.text
  rw [h] at htext
  have hhead : p.text.head? = some '/' := by
    rw [← htext]
    simp [List.intercalate]
  simp [parts, h, hhead]

theorem parts_of_relative {p : Path} {n : Name} {ps : List Name}
    (h : Text.splitOn '/' p.text = n :: ps) (hnil : n ≠ []) (hdot : n ≠ dot) :
    p.parts = (.bare, n :: ps) := by
  have hrel : ¬ p.text.head? = some '/' := by
    intro hhead
    have habs : p.isAbsolute = true := by simp [isAbsolute, hhead]
    obtain ⟨s, -, hs⟩ := splitOn_absolute habs
    rw [h] at hs
    exact hnil (List.cons.inj hs).1
  simp [parts, h, hrel, hdot]

/-- A path without a lead begins with a piece that says something. -/
theorem exists_first_of_bare {p : Path} (hlead : p.parts.1 = .bare) (htext : p.text ≠ []) :
    ∃ n ps, Text.splitOn '/' p.text = n :: ps ∧ isVoid n = false := by
  have hcut := splitOn_eq_parts p
  rw [hlead] at hcut
  obtain ⟨n, ps, hps⟩ := List.exists_cons_of_ne_nil (Text.splitOn_ne_nil '/' p.text)
  have hdot : n ≠ dot := by
    intro hdot
    rw [hdot] at hps
    have hhere := lead_eq_here_iff.2 (congrArg List.head? hps)
    simp [hlead] at hhere
  have hnil : n ≠ [] := by
    intro hnil
    rw [hnil] at hps
    have hparts : p.parts = (.bare, [] :: ps) := Prod.ext hlead (hcut.symm.trans hps)
    have hwhole := Text.intercalate_splitOn '/' p.text
    rw [hps, bare_head hparts] at hwhole
    exact htext hwhole.symm
  exact ⟨n, ps, hps, by simp [isVoid, hnil, hdot]⟩

theorem steps_ne_nil_of_bare {p : Path} (hlead : p.parts.1 = .bare) (htext : p.text ≠ []) :
    p.steps ≠ [] := by
  obtain ⟨n, ps, hps, hv⟩ := exists_first_of_bare hlead htext
  rw [steps, hps, List.filter_cons_of_pos (by simp [hv])]
  exact List.cons_ne_nil _ _

/-- Only the empty path has no components. -/
theorem components_eq_nil_iff {p : Path} : p.components = [] ↔ p.text = [] := by
  constructor
  · intro h
    rw [components_eq_steps, List.append_eq_nil_iff, List.map_eq_nil_iff] at h
    have hlead : p.parts.1 = .bare := by
      cases hp : p.parts.1 with
      | root => simp [hp, Lead.components] at h
      | here => simp [hp, Lead.components] at h
      | bare => rfl
    by_contra htext
    exact steps_ne_nil_of_bare hlead htext h.2
  · intro h
    obtain ⟨text⟩ := p
    obtain rfl : text = [] := h
    rfl

theorem isAbsolute_attach {lead : Lead} {ps : List Name} (hps : ∀ n ∈ ps, '/' ∉ n)
    (hhead : lead = .bare → ps.head? ≠ some []) :
    (lead.attach ps).isAbsolute = true ↔ lead = .root := by
  cases lead with
  | root => simp [Lead.attach, isAbsolute]
  | here => cases ps <;> simp [Lead.attach, isAbsolute, joinPieces, dot, List.intercalate]
  | bare =>
    match ps with
    | [] => simp [Lead.attach, isAbsolute, joinPieces, List.intercalate]
    | [] :: ps => exact absurd rfl (hhead rfl)
    | (c :: n) :: ps =>
      have hc : c ≠ '/' := by
        intro hc
        exact hps (c :: n) List.mem_cons_self (hc ▸ List.mem_cons_self)
      cases ps <;> simp [Lead.attach, isAbsolute, joinPieces, List.intercalate, hc]

/-- A joined path says what both paths say, one after the other. -/
theorem components_join {p q : Path} (h : p.text ≠ [] → q.parts.1 = .bare) :
    (p.join q).components = p.components ++ q.components := by
  by_cases hp : p.text = []
  · rw [join_of_empty hp, components_eq_nil_iff.2 hp, List.nil_append]
  · have hbare := h hp
    have hq : q.isAbsolute = false := isAbsolute_eq_false_iff.2 (by simp [hbare])
    have hcomp : q.components = q.steps.map stepComponent := by
      rw [components_eq_steps, hbare]
      rfl
    rw [hcomp, components_eq_steps, lead_join_of_ne_nil hq hp, steps_join hq, List.map_append,
      ← List.append_assoc, ← components_eq_steps]

/-- Text made of a lead and pieces has this lead, if the pieces do not look like another one. -/
theorem lead_attach {lead : Lead} {ps : List Name} (hps : ∀ n ∈ ps, '/' ∉ n)
    (hhead : lead = .bare → ∀ n, ps.head? = some n → isVoid n = false) :
    (lead.attach ps).parts.1 = lead := by
  cases lead with
  | root => exact isAbsolute_iff.1 (by simp [Lead.attach, isAbsolute])
  | here =>
    rw [lead_eq_here_iff, splitOn_attach_here hps]
    rfl
  | bare =>
    cases ps with
    | nil => rfl
    | cons n ps =>
      -- Bare pieces have no lead because the first of them is a step.
      have hn : isVoid n = false := hhead rfl n rfl
      have hcut : Text.splitOn '/' (Lead.bare.attach (n :: ps)).text = n :: ps :=
        Text.splitOn_intercalate (List.cons_ne_nil n ps) hps
      have hnil : n ≠ [] := by
        rintro rfl
        simp at hn
      have hdot : n ≠ dot := by
        rintro rfl
        simp at hn
      rw [parts_of_relative (p := Lead.bare.attach (n :: ps)) hcut hnil hdot]

theorem components_attach {lead : Lead} {ps : List Name} (hps : ∀ n ∈ ps, '/' ∉ n)
    (hhead : lead = .bare → ∀ n, ps.head? = some n → isVoid n = false) :
    (lead.attach ps).components =
      lead.components ++ (ps.filter fun n => !isVoid n).map stepComponent := by
  rw [components_eq_steps, lead_attach hps hhead, steps_attach hps]

theorem slash_not_mem_parts {p : Path} {lead : Lead} {ps : List Name}
    (h : p.parts = (lead, ps)) : ∀ n ∈ ps, '/' ∉ n := by
  intro n hn
  apply Text.not_mem_of_mem_splitOn (s := p.text)
  rw [splitOn_eq_parts, h]
  exact List.mem_append_right _ hn

/-- Some of the pieces of a path, but not all of them, keep its lead. -/
theorem isAbsolute_attach_of_prefix {p : Path} {lead : Lead} {ps ds : List Name}
    (h : p.parts = (lead, ps)) (hpre : ds <+: ps) (hlt : ds.length < ps.length) :
    (lead.attach ds).isAbsolute = p.isAbsolute := by
  have hslash : ∀ n ∈ ds, '/' ∉ n := fun n hn => slash_not_mem_parts h n (hpre.subset hn)
  -- Without a lead an empty first piece would make the path look absolute.
  have hhead : lead = .bare → ds.head? ≠ some [] := by
    rintro rfl hnil
    obtain ⟨rest, hrest⟩ := List.head?_eq_some_iff.1 hnil
    obtain ⟨tail, htail⟩ := hpre
    rw [hrest, List.cons_append] at htail
    have hone : ps = [[]] := by
      subst htail
      rw [bare_head h]
    simp [hone, hrest] at hlt
  rw [Bool.eq_iff_iff, isAbsolute_attach hslash hhead, isAbsolute_iff, h]

/-- Cutting off the last name takes away the last step. -/
theorem splitName?_eq_some {p dir : Path} {n : Name} (h : p.splitName? = some (dir, n)) :
    isVoid n = false ∧ n ≠ dotDot ∧ '/' ∉ n ∧ p.steps = dir.steps ++ [n] ∧
      dir.isAbsolute = p.isAbsolute := by
  cases hparts : p.parts with
  | mk lead ps =>
    have hslash := slash_not_mem_parts hparts
    simp only [splitName?, hparts] at h
    cases hlast : (Text.dropEndWhile isVoid ps).getLast? with
    | none => simp [hlast] at h
    | some m =>
      by_cases hm : m = dotDot
      · simp [hlast, hm] at h
      · simp only [hlast, if_neg hm, Option.some.injEq, Prod.mk.injEq] at h
        obtain ⟨rfl, rfl⟩ := h
        obtain ⟨front, hfront⟩ := List.getLast?_eq_some_iff.1 hlast
        -- The name that is cut off is the last step; behind it are only pieces that are none.
        have hvoid : isVoid m = false := Text.last_of_dropEndWhile hfront
        have hpre : front ++ [m] <+: ps := hfront ▸ Text.dropEndWhile_prefix isVoid ps
        have hmslash : '/' ∉ m := hslash m (hpre.subset (by simp))
        -- What is left is the front, less the pieces at its end that are no steps.
        have hfrontpre := Text.dropEndWhile_prefix isVoid front
        have hdirpre : Text.dropEndWhile isVoid front <+: ps :=
          hfrontpre.trans ((List.prefix_append front [m]).trans hpre)
        have hlt : (Text.dropEndWhile isVoid front).length < ps.length := by
          have hlen := hpre.length_le
          have hfrontlen := hfrontpre.length_le
          rw [List.length_append, List.length_singleton] at hlen
          omega
        have hdirslash : ∀ k ∈ Text.dropEndWhile isVoid front, '/' ∉ k := by
          intro k hk
          exact hslash k (hdirpre.subset hk)
        have hsteps : p.steps = (lead.attach (Text.dropEndWhile isVoid front)).steps ++ [m] := by
          rw [steps_attach hdirslash, Text.filter_dropEndWhile, steps_eq_parts, hparts,
            ← Text.filter_dropEndWhile isVoid ps, hfront]
          simp [hvoid]
        simp only [hfront, List.dropLast_concat]
        exact ⟨hvoid, hm, hmslash, hsteps, isAbsolute_attach_of_prefix hparts hdirpre hlt⟩

/-- The characters of a path, other than slashes and dots, are those of its names. -/
theorem mem_text_iff {p : Path} {c : Char} (hslash : c ≠ '/') (hdot : c ≠ '.') :
    c ∈ p.text ↔ ∃ n, .name n ∈ p.components ∧ c ∈ n := by
  -- A piece with such a character is neither empty nor dots, so it is a name.
  have hname : ∀ n, c ∈ n → isVoid n = false ∧ stepComponent n = .name n := by
    intro n hn
    have hnil : n ≠ [] := List.ne_nil_of_mem hn
    have hone : n ≠ dot := by
      rintro rfl
      exact hdot (by simpa [dot] using hn)
    have htwo : n ≠ dotDot := by
      rintro rfl
      exact hdot (by simpa [dotDot] using hn)
    simp [isVoid, stepComponent, hnil, hone, htwo]
  have hpiece : ∀ n, c ∈ n → (.name n ∈ p.components ↔ n ∈ Text.splitOn '/' p.text) := by
    intro n hn
    have hlead : .name n ∉ p.parts.1.components := by
      cases p.parts.1 <;> simp [Lead.components]
    rw [components_eq_steps, List.mem_append, or_iff_right hlead, ← (hname n hn).2,
      List.mem_map_of_injective stepComponent_injective, steps, List.mem_filter]
    simp [(hname n hn).1]
  rw [Text.mem_iff_splitOn hslash]
  constructor
  · rintro ⟨n, hmem, hn⟩
    exact ⟨n, (hpiece n hn).2 hmem, hn⟩
  · rintro ⟨n, hmem, hn⟩
    exact ⟨n, (hpiece n hn).1 hmem, hn⟩

end PlaybookTidy.Path
