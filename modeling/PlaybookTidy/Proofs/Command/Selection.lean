import PlaybookTidy.Proofs.Command.Data
import PlaybookTidy.Proofs.Command.Refused

/-!
The rules that a command line selects are a set. How often, in which order and in which option a
rule is named makes no difference, and the first name that is none is refused before anything else
that comes after the configuration.
-/

namespace PlaybookTidy

namespace Fixer

variable {d : Defaults} {only : Option (List Rule)} {fx : Fixer} {root : Path} {dryRun : Bool}
  {t t' : Tree} {r : FixResult}

theorem rules_of_ofDefaults [Regex.Compiler] (h : ofDefaults d only = .ok fx) :
    fx.rules = Rule.normalize (only.getD d.rules) := by
  obtain ⟨table, -, -, rfl⟩ := ofDefaults_eq_ok_iff.1 h
  rfl

theorem rules_of_run (h : fx.run root d dryRun t = (.ok r, t')) : r.rules = fx.rules := by
  unfold run at h
  cases hps : Discovery.discover t root d.patterns d.exclude with
  | error e => simp [hps] at h
  | ok ps =>
    rw [hps] at h
    obtain ⟨os, -, rfl⟩ := runFiles_eq_ok h
    rfl

end Fixer

namespace Command

variable {ws : List String} {values values' : List String} {o o' : FixOptions} {t : Tree}
  {s : Setup} {e : Failure}

def ruleValues : List String → List String
  | [] => []
  | word :: words =>
    match Shape.of word with
    | .long "rule" (some v) => v :: ruleValues words
    | .long "rule" none => words.take 1 ++ ruleValues words
    | _ => ruleValues words

def NamesRule (n : String) : Prop := ∃ r : Rule, r.id = n

theorem ruleValues_cons {word : String} {words : List String}
    (h : ∀ v, Shape.of word ≠ .long "rule" v) : ruleValues (word :: words) = ruleValues words := by
  rw [ruleValues]
  split
  · rename_i v hv
    exact absurd hv (h (some v))
  · rename_i hv
    exact absurd hv (h none)
  · rfl

/-- The rule option adds its value to those before it, and no other option touches them. -/
theorem fixGrammar_rules {name v : String} {isSet : FixOptions → Bool}
    {set : String → FixOptions → FixOptions} (h : fixGrammar name = some (.value isSet set)) :
    (set v o).rules = o.rules ++ if name = "rule" then [v] else [] := by
  unfold fixGrammar at h
  split at h <;> simp at h
  all_goals
    obtain ⟨-, rfl⟩ := h
    simp

/-- The options hold the values of the rule option as the command line gives them. -/
theorem Reads.rules_eq {words : List String} (h : Reads fixGrammar words o o') :
    o'.rules = o.rules ++ ruleValues words := by
  have hother : ∀ {word name : String} {v : Option String} (words : List String),
      Shape.of word = .long name v → name ≠ "rule" →
        ruleValues (word :: words) = ruleValues words := by
    intro word name v words hword hname
    apply ruleValues_cons
    intro v' hv'
    rw [hword, Shape.long.injEq] at hv'
    exact hname hv'.1
  induction h with
  | nil o => simp [ruleValues]
  | separator word o hword => simp [ruleValues, hword]
  | flag word name words isSet set o o' hword hname hset _ ih =>
    rcases fixGrammar_flag hname with ⟨rfl, -, rfl⟩ | ⟨rfl, -, rfl⟩
    · rw [ih, hother words hword (by decide)]
    · rw [ih, hother words hword (by decide)]
  | attached word name v words isSet set o o' hword hname hset _ ih =>
    rw [ih, fixGrammar_rules hname, List.append_assoc]
    by_cases hrule : name = "rule"
    · rw [if_pos hrule, ruleValues]
      simp [hword, hrule]
    · rw [if_neg hrule, hother words hword hrule, List.nil_append]
  | separate word name v words isSet set o o' hword hname hv hset _ ih =>
    -- The value is a plain word, which gives nothing itself.
    have hvalue : ruleValues (v :: words) = ruleValues words := ruleValues_cons (by simp [hv])
    rw [ih, fixGrammar_rules hname, List.append_assoc]
    by_cases hrule : name = "rule"
    · rw [if_pos hrule, ruleValues.eq_def (word :: v :: words)]
      simp [hword, hrule, hvalue]
    · rw [if_neg hrule, hother (v :: words) hword hrule, hvalue, List.nil_append]

/-- The rules that are asked for are the values of the rule option in their order. -/
theorem rules_of_parse (h : parse ("fix" :: ws) = .ok (.fix o)) : o.rules = ruleValues ws := by
  simpa using (parse_fix_iff.1 h).rules_eq

/-- A selection of names is the rules that have them. -/
theorem exists_parseRules (hne : values ≠ []) (h : ∀ n ∈ ruleNames values, NamesRule n) :
    ∃ rs, parseRules values = .ok (some rs) ∧ ∀ r : Rule, r ∈ rs ↔ r.id ∈ ruleNames values := by
  obtain ⟨rs, hrs⟩ : ∃ rs, (ruleNames values).mapM Rule.ofId = .ok rs := by
    rw [exists_mapM_eq_ok_iff]
    intro n hn
    obtain ⟨r, hr⟩ := h n hn
    exact ⟨r, Rule.ofId_eq_ok_iff.2 hr⟩
  refine ⟨rs, by simp [parseRules, hne, hrs, Except.map], ?_⟩
  intro r
  rw [mem_mapM_iff hrs]
  simp only [Rule.ofId_eq_ok_iff]
  constructor
  · rintro ⟨n, hn, rfl⟩
    exact hn
  · intro hn
    exact ⟨_, hn, rfl⟩

/-- The first name that is that of no rule is the one that is reported. -/
theorem parseRules_of_first {x : String}
    (h : IsFirst (fun n => ¬ NamesRule n) (ruleNames values) x) :
    parseRules values = .error (Failure.unknownRule x) := by
  have hne : values ≠ [] := by
    rintro rfl
    simp [ruleNames, IsFirst] at h
  have hbad : (fun n => ∀ r, Rule.ofId n ≠ .ok r) = fun n => ¬ NamesRule n := by
    funext n
    simp [NamesRule, Rule.ofId_eq_ok_iff]
  have hmap : (ruleNames values).mapM Rule.ofId = .error (Failure.unknownRule x) := by
    rw [mapM_eq_error_iff, hbad]
    cases hx : Rule.ofId x with
    | error e => exact ⟨x, h, hx.trans (congrArg Except.error (Rule.ofId_eq_error hx))⟩
    | ok r => exact absurd ⟨r, Rule.ofId_eq_ok_iff.1 hx⟩ h.bad
  simp [parseRules, hne, hmap, Except.map]

/-- An unknown rule is refused whatever the table of modules holds. -/
theorem fix_of_unknown [Regex.Compiler] (hs : Setup.prepare t o.path o.config = .ok s)
    (h : parseRules o.rules = .error e) : fix o t = (.error e, t) := by
  have hprepare : prepareFix o t = .error e := by
    simp [prepareFix, hs, h, bind, Except.bind]
  simp only [fix, hprepare]

/-- Two selections of the same rules come to the same. -/
theorem fix_congr [Regex.Compiler] {rs rs' : List Rule} (hsame : o' = { o with rules := o'.rules })
    (h : parseRules o.rules = .ok (some rs)) (h' : parseRules o'.rules = .ok (some rs'))
    (hrs : ∀ r, r ∈ rs ↔ r ∈ rs') : fix o t = fix o' t := by
  have hfixer : ∀ d, Fixer.ofDefaults d (some rs) = Fixer.ofDefaults d (some rs') := by
    intro d
    simp only [Fixer.ofDefaults, Option.getD_some, Rule.normalize_congr hrs]
  have hprepare : prepareFix o t = prepareFix o' t := by
    unfold prepareFix
    rw [h, h', hsame]
    simp only [bind, Except.bind, hfixer]
  unfold fix
  rw [hprepare, hsame]
  rfl

/-- The rules of a result are those of the selection in the order of application. -/
theorem rules_of_fix [Regex.Compiler] {data : Json} {code : Int}
    (h : (fix o t).1 = .ok (data, code)) :
    ∃ s only, Setup.prepare t o.path o.config = .ok s ∧ parseRules o.rules = .ok only ∧
      data.itemsAt "rules" =
        (Rule.normalize (only.getD s.defaults.rules)).map Rule.toJson := by
  cases hs : prepareFix o t with
  | error e => simp [fix, hs] at h
  | ok x =>
    obtain ⟨s, fx⟩ := x
    obtain ⟨only, hsetup, honly, hfx⟩ := prepareFix_eq_ok_iff.1 hs
    refine ⟨s, only, hsetup, honly, ?_⟩
    rw [fix_of_prepareFix hs] at h
    cases hrun : fx.run s.root s.defaults o.writesNothing t with
    | mk result t' =>
      cases result with
      | error e => simp [hrun, Except.map] at h
      | ok r =>
        obtain ⟨rfl, -⟩ : fixData o s r = data ∧ fixExitCode o r = code := by
          simpa [hrun, Except.map] using h
        rw [itemsAt_rules_fixData, Fixer.rules_of_run hrun, Fixer.rules_of_ofDefaults hfx]

/-- A selection of rules is a set. Command lines of `fix` that differ in nothing but how they name
rules come to the same if they name the same ones. A name of no rule is refused once the root and
the configuration are known, the first one if there are several. A result tells the rules in the
order of application, each once. -/
theorem selection_is_set [Regex.Compiler] {words : List String}
    (ho : parse ("fix" :: ws) = .ok (.fix o))
    (hwords : parse ("fix" :: words) = .ok (.fix o')) (hsame : o' = { o with rules := o'.rules })
    (hne : ruleValues ws ≠ []) (hne' : ruleValues words ≠ []) :
    ((∀ n ∈ ruleNames (ruleValues ws), NamesRule n) →
      (∀ n ∈ ruleNames (ruleValues words), NamesRule n) →
      (∀ r : Rule, r.id ∈ ruleNames (ruleValues ws) ↔ r.id ∈ ruleNames (ruleValues words)) →
      run ("fix" :: words) t = run ("fix" :: ws) t) ∧
    (∀ s, Setup.prepare t o.path o.config = .ok s →
      (∃ n ∈ ruleNames (ruleValues ws), ¬ NamesRule n) →
      ∃ x e, IsFirst (fun n => ¬ NamesRule n) (ruleNames (ruleValues ws)) x ∧
        e.cause.code = "validation.invalid_argument" ∧
        e.cause.details.member? "id" = some (.string x) ∧
        run ("fix" :: ws) t = (⟨2, Reply.print (.error e)⟩, t)) ∧
    (∀ data code, (fix o t).1 = .ok (data, code) →
      ∀ r : Rule, r.toJson ∈ data.itemsAt "rules" ↔ r.id ∈ ruleNames (ruleValues ws)) ∧
    ∀ (o : FixOptions) data code, (fix o t).1 = .ok (data, code) →
      ∃ rs : List Rule, data.itemsAt "rules" = rs.map Rule.toJson ∧
        rs.Pairwise fun a b => a.rank < b.rank := by
  have hrun : ∀ {ws o}, parse ("fix" :: ws) = .ok (.fix o) →
      run ("fix" :: ws) t = (Reply.ofResult (fix o t).1, (fix o t).2) := by
    intro ws o ho
    simp only [run, ho, answer]
  have hvalues := rules_of_parse ho
  have hvalues' := rules_of_parse hwords
  refine ⟨?_, ?_, ?_, ?_⟩
  · intro hall hall' hnames
    obtain ⟨rs, hrs, hmem⟩ := exists_parseRules hne hall
    obtain ⟨rs', hrs', hmem'⟩ := exists_parseRules hne' hall'
    rw [← hvalues] at hrs
    rw [← hvalues'] at hrs'
    have hsets : ∀ r, r ∈ rs ↔ r ∈ rs' := by
      intro r
      rw [hmem, hmem', hnames]
    rw [hrun ho, hrun hwords, fix_congr hsame hrs hrs' hsets]
  · intro s hs hbad
    obtain ⟨x, hx⟩ := exists_isFirst_iff.2 hbad
    have hrules := parseRules_of_first hx
    rw [← hvalues] at hrules
    refine ⟨x, Failure.unknownRule x, hx, rfl, ?_, ?_⟩
    · simp [Failure.unknownRule, Cause.details, Json.optional, List.lookup_cons]
    · rw [hrun ho, fix_of_unknown hs hrules]
      rfl
  · intro data code h
    obtain ⟨s, only, -, honly, hdata⟩ := rules_of_fix h
    rw [hvalues] at honly
    -- An unknown name would have been refused, so each name is that of a rule.
    have hall : ∀ n ∈ ruleNames (ruleValues ws), NamesRule n := by
      by_contra hbad
      obtain ⟨x, hx⟩ := exists_isFirst_iff.2 (by simpa using hbad)
      exact absurd (honly.symm.trans (parseRules_of_first hx)) (by simp)
    obtain ⟨rs, hrs, hmem⟩ := exists_parseRules hne hall
    obtain rfl : only = some rs := Except.ok.inj (honly.symm.trans hrs)
    intro r
    rw [hdata, List.mem_map_of_injective Rule.toJson_injective, Rule.mem_normalize]
    exact hmem r
  · intro o data code h
    obtain ⟨s, only, -, -, hdata⟩ := rules_of_fix h
    exact ⟨_, hdata, Rule.pairwise_normalize _⟩

/-- Blanks, repetition and the order make no difference, but an empty name does. -/
theorem selection_is_set_crowded :
    let ws := ["--path", ".", "--rule", "truthy,names"]
    let words := ["--rule= names ,truthy", "--path=.", "--rule", "truthy\t"]
    let wrong := ["--path", ".", "--rule", "truthy,,nope", "--rule=none"]
    run ("fix" :: words) Fixer.crowded = run ("fix" :: ws) Fixer.crowded ∧
      ∃ e, e.cause.details.member? "id" = some (.string "") ∧
        run ("fix" :: wrong) Fixer.crowded = (⟨2, Reply.print (.error e)⟩, Fixer.crowded) := by
  intro ws words wrong
  have hws : parse ("fix" :: ws) =
      .ok (.fix { path := some ".", rules := ["truthy,names"] }) := by cbv
  have hwords : parse ("fix" :: words) =
      .ok (.fix { path := some ".", rules := [" names ,truthy", "truthy\t"] }) := by cbv
  have hwrong : parse ("fix" :: wrong) =
      .ok (.fix { path := some ".", rules := ["truthy,,nope", "none"] }) := by cbv
  have hnames : ruleNames (ruleValues ws) = ["truthy", "names"] := by cbv
  have hnames' : ruleNames (ruleValues words) = ["names", "truthy", "truthy"] := by cbv
  have hnames'' : ruleNames (ruleValues wrong) = ["truthy", "", "nope", "none"] := by cbv
  obtain ⟨hset, -⟩ := selection_is_set (t := Fixer.crowded) hws hwords rfl (by decide) (by decide)
  obtain ⟨-, hrefused, -⟩ :=
    selection_is_set (t := Fixer.crowded) hwrong hws rfl (by decide) (by decide)
  refine ⟨?_, ?_⟩
  · rw [hnames, hnames'] at hset
    apply hset
    · simpa [NamesRule] using ⟨⟨.truthy, rfl⟩, ⟨.names, rfl⟩⟩
    · simpa [NamesRule] using ⟨⟨.names, rfl⟩, ⟨.truthy, rfl⟩⟩
    · intro r
      cases r <;> decide
  · -- The first name of no rule stands between the commas.
    have hfirst : IsFirst (fun n => ¬ NamesRule n) ["truthy", "", "nope", "none"] "" := by
      refine ⟨["truthy"], ["nope", "none"], rfl, ?_, ?_⟩
      · simpa [NamesRule] using ⟨.truthy, rfl⟩
      · rintro ⟨r, hr⟩
        cases r <;> exact absurd hr (by decide)
    obtain ⟨x, e, hx, -, hid, hrun⟩ :=
      hrefused _ prepare_crowded (hnames''.symm ▸ ⟨"", by simp, hfirst.bad⟩)
    rw [hnames''] at hx
    obtain rfl := hx.unique hfirst
    exact ⟨e, hid, hrun⟩

end Command

end PlaybookTidy
