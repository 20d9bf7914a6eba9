import PlaybookTidy.Command.Arguments

/-!
How a command line is read, and what one flag in it does: leaving out `--check` changes nothing but
that a check is asked for.
-/

namespace PlaybookTidy.Command

variable {σ : Type} {g : Grammar σ} {word name v : String} {words pre post : List String}

theorem Shape.toList_of_long (h : Shape.of word = .long name none) :
    word.toList = '-' :: '-' :: name.toList := by
  unfold Shape.of at h
  split at h
  · simp at h
  · rename_i s hs
    split at h
    · simp at h
    · simp only [Shape.long.injEq, and_true] at h
      rw [hs, ← h, String.toList_ofList]
  · simp at h
  · simp at h

/-- Words that are read as options without a request for help, and what they set. -/
inductive Reads (g : Grammar σ) : List String → σ → σ → Prop
  | nil (o : σ) : Reads g [] o o
  | separator (word : String) (o : σ) : Shape.of word = .separator → Reads g [word] o o
  | flag (word name : String) (words : List String) (isSet : σ → Bool) (set : σ → σ) (o o' : σ) :
      Shape.of word = .long name none → g name = some (.flag isSet set) → isSet o = false →
      Reads g words (set o) o' → Reads g (word :: words) o o'
  | attached (word name v : String) (words : List String) (isSet : σ → Bool)
      (set : String → σ → σ) (o o' : σ) :
      Shape.of word = .long name (some v) → g name = some (.value isSet set) → isSet o = false →
      Reads g words (set v o) o' → Reads g (word :: words) o o'
  | separate (word name v : String) (words : List String) (isSet : σ → Bool)
      (set : String → σ → σ) (o o' : σ) :
      Shape.of word = .long name none → g name = some (.value isSet set) → Shape.of v = .plain →
      isSet o = false → Reads g words (set v o) o' → Reads g (word :: v :: words) o o'

/-- What the reader sets is what the words say one after the other. -/
theorem reads_of_readOptions {o o' : σ} (h : readOptions g words o = .ok (some o')) :
    Reads g words o o' := by
  -- Only five ways of reading end neither in an error nor in a request for help.
  fun_induction readOptions g words o with
  | case1 o =>
    obtain rfl : o = o' := by simpa using h
    exact .nil o
  | case2 word o hword =>
    obtain rfl : o = o' := by simpa using h
    exact .separator word o hword
  | case11 word words o name attached hword isSet set hname hattached hset ih =>
    rw [Option.not_isSome_iff_eq_none] at hattached
    exact .flag word name words isSet set o o' (hattached ▸ hword) hname (by simpa using hset) (ih h)
  | case13 word o name isSet set hname v words hset hword ih =>
    exact .attached word name v words isSet set o o' hword hname (by simpa using hset) (ih h)
  | case15 word o name isSet set hname v words hv hset hword ih =>
    exact .separate word name v words isSet set o o' hword hname hv (by simpa using hset) (ih h)
  | _ => simp at h

theorem readOptions_of_reads {o o' : σ} (h : Reads g words o o') :
    readOptions g words o = .ok (some o') := by
  induction h with
  | nil o => rfl
  | separator word o hword => simp [readOptions, hword]
  | flag word name words isSet set o o' hword hname hset _ ih =>
    rw [readOptions.eq_def]
    simp [hword, hname, hset, ih]
  | attached word name v words isSet set o o' hword hname hset _ ih =>
    rw [readOptions.eq_def]
    simp [hword, hname, hset, ih]
  | separate word name v words isSet set o o' hword hname hv hset _ ih =>
    rw [readOptions.eq_def]
    simp [hword, hname, hv, hset, ih]

def FixOptions.unchecked (o : FixOptions) : FixOptions := { o with check := false }

theorem FixOptions.unchecked_eq_self {o : FixOptions} (h : o.check = false) : o.unchecked = o := by
  rw [unchecked, ← h]

theorem shape_check : Shape.of "--check" = .long "check" none := rfl

/-- The flags of `fix` are those for a dry run and for a check. -/
theorem fixGrammar_flag {isSet : FixOptions → Bool} {set : FixOptions → FixOptions}
    (h : fixGrammar name = some (.flag isSet set)) :
    (name = "dry-run" ∧ isSet = FixOptions.dryRun ∧ set = fun o => { o with dryRun := true }) ∨
      (name = "check" ∧ isSet = FixOptions.check ∧ set = fun o => { o with check := true }) := by
  unfold fixGrammar at h
  split at h <;> simp at h
  · exact Or.inl ⟨rfl, h.1.symm, h.2.symm⟩
  · exact Or.inr ⟨rfl, h.1.symm, h.2.symm⟩

/-- An option with a value neither reads nor sets a flag. -/
theorem fixGrammar_value {isSet : FixOptions → Bool} {set : String → FixOptions → FixOptions}
    (h : fixGrammar name = some (.value isSet set)) (v : String) (o : FixOptions) :
    isSet o.unchecked = isSet o ∧ set v o.unchecked = (set v o).unchecked ∧
      (set v o).check = o.check ∧ (set v o).dryRun = o.dryRun := by
  unfold fixGrammar at h
  split at h <;> simp at h
  all_goals
    obtain ⟨rfl, rfl⟩ := h
    exact ⟨rfl, rfl, rfl, rfl⟩

/-- Once a check is asked for, it is asked for in the end, and all else is read as without it. -/
theorem Reads.unchecked {o o' : FixOptions} (h : Reads fixGrammar words o o')
    (ho : o.check = true) :
    o'.check = true ∧ Reads fixGrammar words o.unchecked o'.unchecked := by
  induction h with
  | nil o => exact ⟨ho, .nil _⟩
  | separator word o hword => exact ⟨ho, .separator word _ hword⟩
  | flag word name words isSet set o o' hword hname hset _ ih =>
    rcases fixGrammar_flag hname with ⟨rfl, rfl, rfl⟩ | ⟨rfl, rfl, rfl⟩
    · obtain ⟨hcheck, hread⟩ := ih ho
      exact ⟨hcheck, .flag word "dry-run" words _ _ _ _ hword hname hset hread⟩
    · -- A second check is refused.
      rw [ho] at hset
      contradiction
  | attached word name v words isSet set o o' hword hname hset _ ih =>
    obtain ⟨hunset, hcomm, hcheck, -⟩ := fixGrammar_value hname v o
    obtain ⟨hend, hread⟩ := ih (hcheck.trans ho)
    exact ⟨hend, .attached word name v words _ _ _ _ hword hname (hunset.trans hset) (hcomm ▸ hread)⟩
  | separate word name v words isSet set o o' hword hname hv hset _ ih =>
    obtain ⟨hunset, hcomm, hcheck, -⟩ := fixGrammar_value hname v o
    obtain ⟨hend, hread⟩ := ih (hcheck.trans ho)
    exact ⟨hend, .separate word name v words _ _ _ _ hword hname hv (hunset.trans hset)
      (hcomm ▸ hread)⟩

/-- Leaving out the word that asks for a check leaves out the check and nothing else. -/
theorem Reads.erase_check {o o' : FixOptions}
    (h : Reads fixGrammar (pre ++ "--check" :: post) o o') :
    o.check = false ∧ o'.check = true ∧ Reads fixGrammar (pre ++ post) o o'.unchecked := by
  -- Reading goes word by word, or by two words; the one to leave out comes first or later.
  generalize hwords : pre ++ "--check" :: post = words at h
  induction h generalizing pre with
  | nil o => simp at hwords
  | separator word o hword =>
    obtain ⟨rfl, rfl, rfl⟩ : pre = [] ∧ "--check" = word ∧ post = [] := by
      simpa [List.append_eq_singleton_iff] using hwords
    simp [shape_check] at hword
  | flag word name words isSet set o o' hword hname hset hrest ih =>
    cases pre with
    | nil =>
      obtain ⟨rfl, rfl⟩ : "--check" = word ∧ post = words := by simpa using hwords
      obtain rfl : "check" = name := by simpa [shape_check] using hword
      rcases fixGrammar_flag hname with ⟨h, -⟩ | ⟨-, rfl, rfl⟩
      · simp at h
      · obtain ⟨hcheck, hread⟩ := hrest.unchecked rfl
        refine ⟨hset, hcheck, ?_⟩
        rw [← FixOptions.unchecked_eq_self hset]
        exact hread
    | cons w pre =>
      obtain ⟨rfl, htail⟩ : w = word ∧ pre ++ "--check" :: post = words := by simpa using hwords
      obtain ⟨hbefore, hcheck, hread⟩ := ih htail
      rcases fixGrammar_flag hname with ⟨rfl, rfl, rfl⟩ | ⟨rfl, rfl, rfl⟩
      · exact ⟨hbefore, hcheck, .flag w _ _ _ _ _ _ hword hname hset hread⟩
      · -- This is a check, so there can be no later one.
        simp at hbefore
  | attached word name v words isSet set o o' hword hname hset hrest ih =>
    obtain ⟨-, -, hcheck, -⟩ := fixGrammar_value hname v o
    cases pre with
    | nil =>
      obtain ⟨rfl, rfl⟩ : "--check" = word ∧ post = words := by simpa using hwords
      simp [shape_check] at hword
    | cons w pre =>
      obtain ⟨rfl, htail⟩ : w = word ∧ pre ++ "--check" :: post = words := by simpa using hwords
      obtain ⟨hbefore, hend, hread⟩ := ih htail
      exact ⟨hcheck ▸ hbefore, hend, .attached w name v _ _ _ _ _ hword hname hset hread⟩
  | separate word name v words isSet set o o' hword hname hv hset hrest ih =>
    obtain ⟨-, -, hcheck, -⟩ := fixGrammar_value hname v o
    match pre with
    | [] =>
      -- The flag takes no value.
      obtain ⟨rfl, rfl⟩ : "--check" = word ∧ post = v :: words := by simpa using hwords
      obtain rfl : "check" = name := by simpa [shape_check] using hword
      simp [fixGrammar] at hname
    | [w] =>
      -- The word that asks for a check is no value.
      obtain ⟨rfl, rfl, rfl⟩ : w = word ∧ "--check" = v ∧ post = words := by simpa using hwords
      simp [shape_check] at hv
    | w :: w' :: pre =>
      obtain ⟨rfl, rfl, htail⟩ : w = word ∧ w' = v ∧ pre ++ "--check" :: post = words := by
        simpa using hwords
      obtain ⟨hbefore, hend, hread⟩ := ih htail
      exact ⟨hcheck ▸ hbefore, hend, .separate w name w' _ _ _ _ _ hword hname hv hset hread⟩

/-- A flag is set in the end if it was set before or the word that asks for it is there. -/
theorem Reads.flag_eq {o o' : FixOptions} {asks : String} (flag : String)
    (get : FixOptions → Bool) (h : Reads fixGrammar words o o')
    (hasks : Shape.of asks = .long flag none)
    (hflag : ∀ name isSet set o, fixGrammar name = some (.flag isSet set) →
      get (set o) = (get o || decide (name = flag)))
    (hvalue : ∀ name isSet set v o, fixGrammar name = some (.value isSet set) →
      name ≠ flag ∧ get (set v o) = get o) :
    get o' = (get o || decide (asks ∈ words)) := by
  have hname : ∀ word name, Shape.of word = .long name none → (asks = word ↔ name = flag) := by
    intro word name hword
    constructor
    · rintro rfl
      simpa [hasks, eq_comm] using hword
    · rintro rfl
      apply String.toList_injective
      rw [Shape.toList_of_long hasks, Shape.toList_of_long hword]
  -- No other word is the one that asks for the flag.
  have hother : ∀ word, Shape.of word ≠ .long flag none → asks ≠ word := by
    rintro word hword rfl
    exact hword hasks
  induction h with
  | nil o => simp
  | separator word o hword => simp [hother word (by simp [hword])]
  | flag word name words isSet set o o' hword hg hset _ ih =>
    rw [ih, hflag name isSet set o hg]
    simp [hname word name hword, Bool.or_assoc]
  | attached word name v words isSet set o o' hword hg hset _ ih =>
    rw [ih, (hvalue name isSet set v o hg).2]
    simp [hother word (by simp [hword])]
  | separate word name v words isSet set o o' hword hg hv hset _ ih =>
    obtain ⟨hne, hkeep⟩ := hvalue name isSet set v o hg
    rw [ih, hkeep]
    simp [hname word name hword, hne, hother v (by simp [hv])]

theorem Reads.dryRun_eq {o o' : FixOptions} (h : Reads fixGrammar words o o') :
    o'.dryRun = (o.dryRun || decide ("--dry-run" ∈ words)) := by
  apply h.flag_eq "dry-run" FixOptions.dryRun rfl
  · intro name isSet set o hg
    rcases fixGrammar_flag hg with ⟨rfl, -, rfl⟩ | ⟨rfl, -, rfl⟩ <;> simp
  · intro name isSet set v o hg
    refine ⟨?_, (fixGrammar_value hg v o).2.2.2⟩
    rintro rfl
    simp [fixGrammar] at hg

/-- The option for a check is set if it was before, or if its word is there. -/
theorem Reads.check_eq {o o' : FixOptions} (h : Reads fixGrammar words o o') :
    o'.check = (o.check || decide ("--check" ∈ words)) := by
  apply h.flag_eq "check" FixOptions.check rfl
  · intro name isSet set o hg
    rcases fixGrammar_flag hg with ⟨rfl, -, rfl⟩ | ⟨rfl, -, rfl⟩ <;> simp
  · intro name isSet set v o hg
    refine ⟨?_, (fixGrammar_value hg v o).2.2.1⟩
    rintro rfl
    simp [fixGrammar] at hg

/-- A command line asks for `fix` with the options that its other words spell. -/
theorem parse_fix_iff {o : FixOptions} :
    parse ("fix" :: words) = .ok (.fix o) ↔ Reads fixGrammar words {} o := by
  have hread : parse ("fix" :: words) = .ok (.fix o) ↔
      readOptions fixGrammar words {} = .ok (some o) := by
    simp only [parse]
    cases readOptions fixGrammar words {} with
    | error e => simp [Except.map]
    | ok o' => cases o' <;> simp [Except.map]
  rw [hread]
  exact ⟨reads_of_readOptions, readOptions_of_reads⟩

/-- A command line that begins with `fix` asks for it or for help. -/
theorem parse_fix_cases {r : Request} (h : parse ("fix" :: words) = .ok r) :
    r = .help ∨ ∃ o, r = .fix o := by
  simp only [parse] at h
  cases hread : readOptions fixGrammar words {} with
  | error e => simp [hread, Except.map] at h
  | ok o =>
    obtain rfl : o.elim .help .fix = r := by simpa [hread, Except.map] using h
    cases o with
    | none => exact Or.inl rfl
    | some o => exact Or.inr ⟨o, rfl⟩

/-- A request other than for a text comes from the words of its command. -/
theorem parse_cases {r : Request} (h : parse words = .ok r) :
    r = .version ∨ r = .help ∨
      (∃ ws o, words = "fix" :: ws ∧ r = .fix o ∧ Reads fixGrammar ws {} o) ∨
      ∃ ws o, words = "rules" :: ws ∧ r = .rules o := by
  unfold parse at h
  split at h
  · simp at h
  · rename_i ws
    rcases parse_fix_cases h with rfl | ⟨o, rfl⟩
    · exact Or.inr (Or.inl rfl)
    · exact Or.inr (Or.inr (Or.inl ⟨ws, o, rfl, rfl, parse_fix_iff.1 h⟩))
  · rename_i ws
    cases hread : readOptions rulesGrammar ws {} with
    | error e => simp [hread, Except.map] at h
    | ok o =>
      obtain rfl : o.elim .help .rules = r := by simpa [hread, Except.map] using h
      cases o with
      | none => exact Or.inr (Or.inl rfl)
      | some o => exact Or.inr (Or.inr (Or.inr ⟨ws, o, rfl, rfl⟩))
  · rename_i ws
    unfold helpRequest at h
    split at h
    · simp_all
    · split at h <;> simp_all
    · simp at h
  · -- Any other words can only ask for a text.
    split at h
    · simp_all
    · simp_all
    · split at h
      · simp_all
      · split at h <;> simp_all
    · simp at h
    · simp at h

/-- The command line without the check asks for the same without it. -/
theorem parse_erase_check {o : FixOptions} (hdry : "--dry-run" ∉ pre ++ post)
    (h : parse ("fix" :: (pre ++ "--check" :: post)) = .ok (.fix o)) :
    o.check = true ∧ o.dryRun = false ∧
      parse ("fix" :: (pre ++ post)) = .ok (.fix o.unchecked) := by
  obtain ⟨-, hcheck, hread⟩ := (parse_fix_iff.1 h).erase_check
  exact ⟨hcheck, hread.dryRun_eq.trans (by simp [hdry]), parse_fix_iff.2 hread⟩

end PlaybookTidy.Command
