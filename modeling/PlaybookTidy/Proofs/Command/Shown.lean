import PlaybookTidy.Proofs.Command.Data
import PlaybookTidy.Proofs.Command.Refused
import PlaybookTidy.Proofs.Config.Load
import PlaybookTidy.Proofs.Merged

/-!
What `rules` shows is what `fix` does. Where `rules` fails, `fix` fails alike with the same options.
Otherwise a dry run applies the rules that are shown, with the table that is shown, to the files that
the patterns shown find. But `rules` compiles nothing, so it also shows a table that is too large for
the library of regular expressions, and then the dry run fails.
-/

namespace PlaybookTidy.Command

variable {name : String} {words ws : List String} {t : Tree}

def RulesOptions.onFix (o : RulesOptions) (base : FixOptions) : FixOptions :=
  { base with path := o.path, config := o.config }

/-- The word is none of the options that only `fix` has. -/
def Shared (word : String) : Prop :=
  ∀ name value, Shape.of word = .long name value → name ∉ ["rule", "dry-run", "check"]

/-- Beside the options that only `fix` has, it has none that `rules` does not have. -/
theorem fixGrammar_of_none (hname : name ∉ ["rule", "dry-run", "check"])
    (h : rulesGrammar name = none) : fixGrammar name = none := by
  unfold rulesGrammar at h
  unfold fixGrammar
  split at h <;> simp at h
  split <;> simp_all

theorem rulesGrammar_ne_flag {isSet : RulesOptions → Bool} {set : RulesOptions → RulesOptions} :
    rulesGrammar name ≠ some (.flag isSet set) := by
  unfold rulesGrammar
  split <;> simp

/-- An option of `rules` is one of `fix`, and sets the same. -/
theorem fixGrammar_of_value {isSet : RulesOptions → Bool}
    {set : String → RulesOptions → RulesOptions}
    (h : rulesGrammar name = some (.value isSet set)) :
    ∃ isSet' set', fixGrammar name = some (.value isSet' set') ∧
      (∀ o base, isSet' (o.onFix base) = isSet o) ∧
      ∀ v o base, set' v (o.onFix base) = (set v o).onFix base := by
  unfold rulesGrammar at h
  split at h <;> simp at h
  all_goals
    obtain ⟨rfl, rfl⟩ := h
    exact ⟨_, _, rfl, fun _ _ => rfl, fun _ _ _ => rfl⟩

/-- Without the options that only `fix` has, `fix` reads what `rules` reads, and refuses it
alike. -/
theorem readOptions_fixGrammar (hws : ∀ w ∈ ws, Shared w) (base : FixOptions) (o : RulesOptions) :
    readOptions fixGrammar ws (o.onFix base) =
      (readOptions rulesGrammar ws o).map (Option.map fun o => o.onFix base) := by
  -- Word by word, as `rules` reads them; its only options are those with a value.
  fun_induction readOptions rulesGrammar ws o with
  | case1 o => rfl
  | case2 word o hword | case3 word o hword => simp [readOptions, hword, Except.map]
  | case4 word words o hword =>
    rw [readOptions.eq_def]
    simp [hword, Except.map]
  | case5 word words o letters hword hletters | case6 word words o letters hword hletters =>
    rw [readOptions.eq_def]
    simp [hword, hletters, Except.map]
  | case7 word words o name attached hword hname hhelp
  | case8 word words o name attached hword hname hhelp =>
    have hname' := fixGrammar_of_none (hws word (by simp) name attached hword) hname
    rw [readOptions.eq_def]
    simp [hword, hname', hhelp, Except.map]
  | case9 word words o name attached hword isSet set hname
  | case10 word words o name attached hword isSet set hname
  | case11 word words o name attached hword isSet set hname =>
    exact absurd hname rulesGrammar_ne_flag
  | case12 word o name isSet set hname v words hset hword =>
    obtain ⟨isSet', set', hname', hisSet, hsets⟩ := fixGrammar_of_value hname
    rw [readOptions.eq_def]
    simp [hword, hname', hisSet, hset, Except.map]
  | case13 word o name isSet set hname v words hset hword ih =>
    obtain ⟨isSet', set', hname', hisSet, hsets⟩ := fixGrammar_of_value hname
    rw [readOptions.eq_def, ← ih fun w hw => hws w (by simp [hw])]
    simp [hword, hname', hisSet, hsets, hset]
  | case14 word o name isSet set hname v words hv hset hword =>
    obtain ⟨isSet', set', hname', hisSet, hsets⟩ := fixGrammar_of_value hname
    rw [readOptions.eq_def]
    simp [hword, hname', hisSet, hv, hset, Except.map]
  | case15 word o name isSet set hname v words hv hset hword ih =>
    obtain ⟨isSet', set', hname', hisSet, hsets⟩ := fixGrammar_of_value hname
    rw [readOptions.eq_def, ← ih fun w hw => hws w (by simp [hw])]
    simp [hword, hname', hisSet, hsets, hv, hset]
  | case16 word o name isSet set hname v words hv hword =>
    obtain ⟨isSet', set', hname', hisSet, hsets⟩ := fixGrammar_of_value hname
    rw [readOptions.eq_def]
    simp only [hword, hname', Except.map]
  | case17 word o name isSet set hname hword =>
    obtain ⟨isSet', set', hname', hisSet, hsets⟩ := fixGrammar_of_value hname
    rw [readOptions.eq_def]
    simp [hword, hname', Except.map]

def Request.onFix (base : FixOptions) : Request → Request
  | .rules o => .fix (o.onFix base)
  | r => r

/-- Words that both commands have ask for the same places, whichever command they follow. -/
theorem parse_onFix (hws : ∀ w ∈ ws, Shared w) {base : FixOptions}
    (hwords : readOptions fixGrammar words {} = readOptions fixGrammar ws base)
    (hbase : RulesOptions.onFix {} base = base) :
    parse ("fix" :: words) = (parse ("rules" :: ws)).map (Request.onFix base) := by
  have hread := readOptions_fixGrammar hws base {}
  rw [hbase] at hread
  simp only [parse, hwords, hread]
  cases readOptions rulesGrammar ws {} with
  | error e => rfl
  | ok o => cases o <;> rfl

theorem parse_fix_shared (hws : ∀ w ∈ ws, Shared w) :
    parse ("fix" :: ws) = (parse ("rules" :: ws)).map (Request.onFix {}) :=
  parse_onFix hws rfl rfl

theorem parse_dryRun_shared (hws : ∀ w ∈ ws, Shared w) :
    parse ("fix" :: "--dry-run" :: ws) =
      (parse ("rules" :: ws)).map (Request.onFix { dryRun := true }) := by
  have hword : Shape.of "--dry-run" = .long "dry-run" none := rfl
  refine parse_onFix hws ?_ rfl
  rw [readOptions.eq_def]
  simp [hword, fixGrammar]

/-- What the data of `rules` show: the passes in their order, the table of module names, and the
patterns and excludes. -/
structure Shows (data : Json) (fx : Fixer) (patterns exclude : List String) : Prop where
  rules : enabledIds data = fx.rules.map Rule.id
  table : data.itemsAt "fqcn" = fx.table.map TableRow.toJson
  patterns : data.itemsAt "patterns" = patterns.map .string
  exclude : data.itemsAt "exclude" = exclude.map .string

/-- The data of `rules` show the rules of the configuration and the table in effect. -/
theorem shows_rulesData (s : Setup) (table : List TableRow) :
    Shows (rulesData s table) ⟨Rule.normalize s.defaults.rules, table⟩ s.defaults.patterns
      s.defaults.exclude where
  rules := enabledIds_rulesData
  table := itemsAt_fqcn_rulesData
  patterns := itemsAt_patterns_rulesData
  exclude := itemsAt_exclude_rulesData

theorem toJson_injective : Function.Injective TableRow.toJson := by
  have hid : Function.Injective Source.id := by
    intro a b hab
    cases a <;> cases b <;> first | rfl | exact absurd hab (by decide)
  rintro ⟨⟨short, fqcn⟩, source⟩ ⟨⟨short', fqcn'⟩, source'⟩ h
  obtain ⟨rfl, rfl, hsource⟩ : short = short' ∧ fqcn = fqcn' ∧ source.id = source'.id := by
    simpa [TableRow.toJson] using h
  rw [hid hsource]

/-- The data show one fixer only, and one list of patterns and of excludes. -/
theorem Shows.unique {data : Json} {fx fx' : Fixer}
    {patterns patterns' exclude exclude' : List String} (h : Shows data fx patterns exclude)
    (h' : Shows data fx' patterns' exclude') :
    fx = fx' ∧ patterns = patterns' ∧ exclude = exclude' := by
  have hstring : Function.Injective Json.string := fun a b hab => Json.string.inj hab
  have hrules : fx.rules = fx'.rules :=
    List.map_injective_iff.2 Rule.id_injective (h.rules.symm.trans h'.rules)
  have htable : fx.table = fx'.table :=
    List.map_injective_iff.2 toJson_injective (h.table.symm.trans h'.table)
  refine ⟨?_, ?_, ?_⟩
  · cases fx
    cases fx'
    simp_all
  · exact List.map_injective_iff.2 hstring (h.patterns.symm.trans h'.patterns)
  · exact List.map_injective_iff.2 hstring (h.exclude.symm.trans h'.exclude)

/-- How a dry run ends, by what the data of `rules` show: the library refuses a pattern for the
table, a file pattern is none, or the files found are reported. -/
inductive Foretold [Regex.Compiler] (t : Tree) (root : Path) (ids : List Json) (fx : Fixer)
    (patterns exclude : List String) : Reply → Prop
  | refused (e : Failure) : (Fixer.patterns fx.table).findSome? Regex.fault? = some e →
      e.cause.code = "internal.unexpected" →
      Foretold t root ids fx patterns exclude (Reply.ofResult (.error e))
  | invalid (e : Failure) : Fixer.Compiles fx.table →
      Discovery.discover t root patterns exclude = .error e →
      e.cause.code = "validation.invalid_pattern" →
      Foretold t root ids fx patterns exclude (Reply.ofResult (.error e))
  | reports (ps : List Path) (data : Json) : Fixer.Compiles fx.table →
      Discovery.discover t root patterns exclude = .ok ps → data.itemsAt "rules" = ids →
      data.itemsAt "files" =
        ((ps.map (fx.outcome root true t)).filterMap Outcome.report?).map FileReport.toJson →
      Foretold t root ids fx patterns exclude ⟨0, Reply.print (.ok data)⟩

section

variable {o : RulesOptions} {base : FixOptions} {e : Failure} {s : Setup} {table : List TableRow}

theorem parseRules_onFix (hbase : base.rules = []) :
    parseRules (o.onFix base).rules = .ok none := by
  simp [RulesOptions.onFix, hbase, parseRules]

theorem root_of_prepare {path config : Option String} (h : Setup.prepare t path config = .ok s) :
    s.root = rootPath t path := by
  simp only [Setup.prepare, resolveRoot] at h
  split at h
  · cases hload : Config.load t (rootPath t path) (config.map Path.ofString) with
    | error e => simp [hload, bind, Except.bind] at h
    | ok loaded =>
      obtain rfl : ⟨rootPath t path, loaded⟩ = s := by
        simpa [hload, bind, Except.bind, pure, Except.pure] using h
      rfl
  · simp [bind, Except.bind] at h

variable [Regex.Compiler]

/-- What `rules` fails over, `fix` fails over before it looks at files. -/
theorem fix_of_rules_error (hbase : base.rules = []) (h : rules o t = .error e) :
    fix (o.onFix base) t = (.error e, t) := by
  have hprepare : prepareFix (o.onFix base) t = .error e := by
    unfold rules at h
    unfold prepareFix
    rw [parseRules_onFix hbase]
    cases hs : Setup.prepare t o.path o.config with
    | error e' => simpa [hs, RulesOptions.onFix, bind, Except.bind] using h
    | ok s =>
      cases htable : ModuleTable.effective s.defaults.fqcn with
      | error e' =>
        obtain rfl : e' = e := by simpa [hs, htable, bind, Except.bind] using h
        have hfx : Fixer.ofDefaults s.defaults none = .error e' :=
          Fixer.ofDefaults_eq_error_iff.2 (Or.inl htable)
        simp [hs, RulesOptions.onFix, hfx, bind, Except.bind]
      | ok table => simp [hs, htable, bind, Except.bind, pure, Except.pure] at h
  simp only [fix, hprepare]

/-- A pattern that the library refuses ends `fix` before it looks at files. -/
theorem fix_of_refused (hbase : base.rules = []) (hs : Setup.prepare t o.path o.config = .ok s)
    (htable : ModuleTable.effective s.defaults.fqcn = .ok table)
    (hfault : (Fixer.patterns table).findSome? Regex.fault? = some e) :
    fix (o.onFix base) t = (.error e, t) := by
  have hfx : Fixer.ofDefaults s.defaults none = .error e :=
    Fixer.ofDefaults_eq_error_iff.2 (Or.inr ⟨table, htable, hfault⟩)
  have hprepare : prepareFix (o.onFix base) t = .error e := by
    unfold prepareFix
    rw [parseRules_onFix hbase]
    simp [RulesOptions.onFix, hs, hfx, bind, Except.bind]
  simp only [fix, hprepare]

/-- A dry run with the same options works with what the data of `rules` show. -/
theorem fix_dry_of_rules_ok (hs : Setup.prepare t o.path o.config = .ok s)
    (htable : ModuleTable.effective s.defaults.fqcn = .ok table)
    (hcompiles : Fixer.Compiles table) :
    fix (o.onFix { dryRun := true }) t =
      (((Discovery.discover t s.root s.defaults.patterns s.defaults.exclude).map fun ps =>
        let fx : Fixer := ⟨Rule.normalize s.defaults.rules, table⟩
        let res := fx.resultOf s.root true (ps.map (fx.outcome s.root true t))
        (fixData (o.onFix { dryRun := true }) s res, 0)), t) := by
  have hprepare : prepareFix (o.onFix { dryRun := true }) t =
      .ok (s, ⟨Rule.normalize s.defaults.rules, table⟩) :=
    prepareFix_eq_ok_iff.2
      ⟨none, hs, parseRules_onFix rfl,
        Fixer.ofDefaults_eq_ok_iff.2 ⟨table, htable, hcompiles, rfl⟩⟩
  have hdry : (o.onFix { dryRun := true }).writesNothing = true := rfl
  rw [fix_of_prepareFix hprepare, hdry, Fixer.run]
  cases Discovery.discover t s.root s.defaults.patterns s.defaults.exclude with
  | error e => rfl
  | ok ps =>
    simp only [Fixer.runFiles_dry, Except.map]
    rfl

/-- A dry run with the same options ends as the data foretell. -/
theorem foretold_of_rules_ok {dry : List String} {data : Json} {code : Int}
    (hdry : parse dry = .ok (.fix (o.onFix { dryRun := true })))
    (h : rules o t = .ok (data, code)) :
    ∃ fx patterns exclude r, Shows data fx patterns exclude ∧
      Foretold t (rootPath t o.path) ((enabledIds data).map .string) fx patterns exclude r ∧
      run dry t = (r, t) := by
  obtain ⟨s, table, hs, htable, rfl, rfl⟩ := rules_eq_ok h
  let fx : Fixer := ⟨Rule.normalize s.defaults.rules, table⟩
  have hrun : run dry t = (Reply.ofResult (fix (o.onFix { dryRun := true }) t).1,
      (fix (o.onFix { dryRun := true }) t).2) := by
    simp only [run, hdry, answer]
  refine ⟨fx, s.defaults.patterns, s.defaults.exclude, _, shows_rulesData s table, ?_,
    hrun.trans (Prod.ext rfl ?_)⟩
  · cases hfault : (Fixer.patterns table).findSome? Regex.fault? with
    | some e =>
      obtain ⟨p, -, hp⟩ := List.exists_of_findSome?_eq_some hfault
      rw [fix_of_refused rfl hs htable hfault]
      exact .refused e hfault (Regex.code_of_fault? hp).1
    | none =>
      -- With the table there and compiled, only a file pattern can be refused.
      have hcompiles := Fixer.findSome?_fault?_eq_none_iff.1 hfault
      rw [fix_dry_of_rules_ok hs htable hcompiles, root_of_prepare hs]
      cases hps : Discovery.discover t (rootPath t o.path) s.defaults.patterns
          s.defaults.exclude with
      | error e =>
        obtain ⟨pattern, error, rfl⟩ := Discovery.discover_eq_error hps
        exact .invalid _ hcompiles hps rfl
      | ok ps =>
        refine .reports ps _ hcompiles hps ?_ itemsAt_files_fixData
        rw [itemsAt_rules_fixData, enabledIds_rulesData, List.map_map]
        rfl
  · exact fix_dry_tree rfl

end

/-- What `rules` shows is what `fix` does. If it fails, `fix` fails alike and writes nothing. If it
succeeds, a dry run ends as the data foretell and writes nothing: it applies the rules shown as
enabled, in their order and with the table shown, to the files that the patterns shown find, unless
one of those patterns is none or the library of regular expressions refuses a row of the table. -/
theorem rules_shows_fix [Regex.Compiler] (t : Tree) (hws : ∀ w ∈ ws, Shared w) :
    ((run ("rules" :: ws) t).1.exitCode ≠ 0 →
      run ("fix" :: ws) t = ((run ("rules" :: ws) t).1, t)) ∧
    ((run ("rules" :: ws) t).1.ReportsSuccess →
      ∃ o data fx patterns exclude r, parse ("rules" :: ws) = .ok (.rules o) ∧
        rules o t = .ok (data, 0) ∧ (run ("rules" :: ws) t).1 = ⟨0, Reply.print (.ok data)⟩ ∧
        Shows data fx patterns exclude ∧
        Foretold t (rootPath t o.path) ((enabledIds data).map .string) fx patterns exclude r ∧
        run ("fix" :: "--dry-run" :: ws) t = (r, t)) := by
  have hfix := parse_fix_shared hws
  have hdry := parse_dryRun_shared hws
  -- Where no failure and no data are printed there is nothing to show.
  have htext : ∀ text : String, text.toList.head? ≠ some '\x7b' →
      ¬ (⟨0, text⟩ : Reply).ReportsSuccess := fun text h => Reply.not_reportsSuccess_of_head h
  cases hparse : parse ("rules" :: ws) with
  | error e =>
    have hnone : run ("rules" :: ws) t = (⟨2, ""⟩, t) := by simp only [run, hparse]
    have hsame : run ("fix" :: ws) t = (⟨2, ""⟩, t) := by simp only [run, hfix, hparse, Except.map]
    rw [hnone]
    exact ⟨fun _ => hsame, fun h => absurd h (Reply.not_reportsSuccess_of_head (by simp))⟩
  | ok r =>
    rw [hparse] at hfix hdry
    have hrun : run ("rules" :: ws) t = answer r t := by simp only [run, hparse]
    rw [hrun]
    rcases parse_cases hparse with rfl | rfl | ⟨ws', o, hfalse, -, -⟩ | ⟨ws', o, -, rfl⟩
    · exact ⟨fun h => absurd rfl h, fun h => absurd h (htext _ (by decide))⟩
    · obtain ⟨s, hs⟩ := exists_helpText
      exact ⟨fun h => absurd rfl h, fun h => absurd h (htext _ (by simp [hs]))⟩
    · simp at hfalse
    · cases hrules : rules o t with
      | error e =>
        have hfailed : fix (o.onFix {}) t = (.error e, t) := fix_of_rules_error rfl hrules
        refine ⟨fun _ => ?_, fun h => ?_⟩
        · simp only [run, hfix, Except.map, Request.onFix, answer, hfailed, hrules]
        · simp only [answer, hrules] at h
          obtain ⟨data, code, hok⟩ := Reply.eq_ok_of_reportsSuccess h
          simp at hok
      | ok x =>
        obtain ⟨data, code⟩ := x
        obtain ⟨-, -, -, -, -, rfl⟩ := rules_eq_ok hrules
        have hreply : (answer (.rules o) t).1 = ⟨0, Reply.print (.ok data)⟩ := by
          simp only [answer, hrules]
          rfl
        obtain ⟨fx, patterns, exclude, r, hshows, hends, hrun⟩ := foretold_of_rules_ok hdry hrules
        refine ⟨fun h => ?_, fun _ => ?_⟩
        · rw [hreply] at h
          exact absurd rfl h
        · exact ⟨o, data, fx, patterns, exclude, r, rfl, hrules, hreply, hshows, hends, hrun⟩

theorem shared_path : ∀ w ∈ ["--path", "."], Shared w := by
  have hpath : Shape.of "--path" = .long "path" none := rfl
  have hdot : Shape.of "." = .plain := rfl
  simp [Shared, hpath, hdot]

theorem discover_crowded :
    Discovery.discover Fixer.crowded ⟨Path.dot⟩ ({} : Defaults).patterns [] =
      .ok [⟨"playbooks/a.yml".toList⟩] := by
  cbv

/-- What a dry run reports of the playbook follows from what the real run does. -/
theorem report_crowded :
    (Fixer.builtin.outcome ⟨Path.dot⟩ true Fixer.crowded ⟨"playbooks/a.yml".toList⟩).report? =
      some ⟨"playbooks/a.yml", true, false, { truthy := 1 }⟩ := by
  obtain ⟨ps, os, hps, hvisit, hres⟩ := Fixer.run_eq_ok Fixer.run_crowded
  obtain rfl := Except.ok.inj (discover_crowded.symm.trans hps)
  obtain rfl := Fixer.outcomes_of_clear (List.pairwise_singleton _ _)
    (fun q _ => Tree.not_hindered_singleton _ _ q) hvisit
  have hreport : [⟨"playbooks/a.yml", true, true, { truthy := 1 }⟩] =
      [Fixer.builtin.outcome ⟨Path.dot⟩ false Fixer.crowded ⟨"playbooks/a.yml".toList⟩].filterMap
        Outcome.report? := congrArg FixResult.files hres
  rw [Fixer.outcome_dry]
  cases hout : Fixer.builtin.outcome ⟨Path.dot⟩ false Fixer.crowded
      ⟨"playbooks/a.yml".toList⟩ with
  | skip s =>
    rw [hout] at hreport
    exact absurd hreport (List.cons_ne_nil _ _)
  | report r =>
    rw [hout] at hreport
    rw [← (List.cons.inj hreport).1]
    rfl

/-- With the built-in settings all rules are shown, and a dry run applies them to the playbook. -/
theorem rules_shows_fix_crowded :
    (∀ w ∈ ["--path", "."], Shared w) ∧
      (run ("rules" :: ["--path", "."]) Fixer.crowded).1.ReportsSuccess ∧
      ∃ data', run ("fix" :: "--dry-run" :: ["--path", "."]) Fixer.crowded =
          (⟨0, Reply.print (.ok data')⟩, Fixer.crowded) ∧
        data'.itemsAt "rules" = [.string "fqcn", .string "truthy", .string "names"] ∧
        data'.itemsAt "files" =
          [FileReport.toJson ⟨"playbooks/a.yml", true, false, { truthy := 1 }⟩] := by
  have hws := shared_path
  have hparse : parse ("rules" :: ["--path", "."]) = .ok (.rules { path := some "." }) := by cbv
  have hrules : rules { path := some "." } Fixer.crowded =
      .ok (rulesData ⟨⟨Path.dot⟩, ⟨{}, none⟩⟩ Fixer.builtin.table, 0) := by
    simp only [rules, prepare_crowded, Setup.defaults, bind, Except.bind, Fixer.effective_empty]
    rfl
  have hreply : (run ("rules" :: ["--path", "."]) Fixer.crowded).1 =
      Reply.ofResult (rules { path := some "." } Fixer.crowded) := by
    simp only [run, hparse, answer]
  have hsuccess : (run ("rules" :: ["--path", "."]) Fixer.crowded).1.ReportsSuccess := by
    rw [hreply, hrules]
    exact ⟨_, rfl⟩
  obtain ⟨-, hshown⟩ := rules_shows_fix Fixer.crowded hws
  obtain ⟨o, data, fx, patterns, exclude, r, ho, hdata, -, hshows, hends, hrun⟩ :=
    hshown hsuccess
  obtain rfl : { path := some "." } = o := by simpa using hparse.symm.trans ho
  obtain rfl := (Prod.mk.inj (Except.ok.inj (hrules.symm.trans hdata))).1
  -- The data determine what is shown, so the files are those that the built-in patterns find.
  obtain ⟨rfl, rfl, rfl⟩ := hshows.unique (shows_rulesData _ _)
  cases hends with
  | refused e hfault =>
    have hnone := Fixer.findSome?_fault?_eq_none_iff.2 Fixer.compiles_empty
    exact absurd (hnone.symm.trans hfault) (by simp)
  | invalid e _ he => exact absurd (discover_crowded.symm.trans he) (by simp)
  | reports ps data' _ hps hids hfiles =>
    obtain rfl := Except.ok.inj (discover_crowded.symm.trans hps)
    refine ⟨hws, hsuccess, data', hrun, ?_, ?_⟩
    · rw [hids, enabledIds_rulesData]
      rfl
    · rw [hfiles]
      exact congrArg (fun r => r.toList.map FileReport.toJson) report_crowded

section Lengthy

def lengthyName (n : Nat) : String := String.ofList (List.replicate n 'a')

def lengthySettings (n : Nat) : Defaults :=
  { fqcn := Overrides.empty.insert (lengthyName n) "x.y.z" }

/-- A repository with nothing in it but a configuration, which has a row for such a name. -/
def lengthy (n : Nat) : Tree :=
  ⟨[], [([Config.fileName.toList], Tree.textFile (Config.toJson (lengthySettings n)).print)]⟩

variable {n : Nat}

theorem isShortName_lengthyName (hn : n ≠ 0) : ModuleTable.isShortName (lengthyName n) := by
  obtain ⟨m, rfl⟩ := Nat.exists_eq_succ_of_ne_zero hn
  simp [ModuleTable.isShortName, lengthyName, List.replicate_succ]

theorem length_lengthyName (n : Nat) : (lengthyName n).length = n := by
  simp [lengthyName]

/-- No length is too long for the table. -/
theorem effective_lengthy (hn : n ≠ 0) :
    ModuleTable.effective (lengthySettings n).fqcn =
      .ok (ModuleTable.merged (lengthySettings n).fqcn) :=
  ModuleTable.effective_insert_empty
    (ModuleTable.fault?_eq_none_iff.2 ⟨isShortName_lengthyName hn, by decide⟩) (by decide)

theorem prepare_lengthy (n : Nat) :
    ∃ p, Setup.prepare (lengthy n) (some ".") none =
      .ok ⟨⟨Path.dot⟩, ⟨lengthySettings n, some p⟩⟩ := by
  have hroot : resolveRoot (lengthy n) (some ".") = .ok ⟨Path.dot⟩ := by
    have hdot : Path.ofString "." = ⟨Path.dot⟩ := rfl
    have hdir : (lengthy n).isDirectory ⟨Path.dot⟩ = true := rfl
    simp [resolveRoot, rootPath, hdot, hdir]
  have htext : (lengthy n).readText (Config.filePath ⟨Path.dot⟩ none) =
      .ok (Config.toJson (lengthySettings n)).print :=
    Tree.readText_eq_ok_iff.2 ⟨[Config.fileName.toList], rfl, rfl⟩
  have hpatterns : ∀ p ∈ ({} : Defaults).patterns, Text.trim p ≠ "" := by decide
  have hload := Config.load_of_serialized (d := lengthySettings n) (by simp [lengthySettings])
    hpatterns htext (Json.denotes_print _)
  simp [Setup.prepare, hroot, hload, bind, Except.bind, pure, Except.pure]

/-- The row of a lengthy name is among those that are compiled. -/
theorem not_compiles_lengthy [Regex.Compiler]
    (hsize : Regex.Compiler.sizeLimit < Regex.Compiler.size (Qualify.pattern (lengthyName n))) :
    ¬ Fixer.Compiles (ModuleTable.merged (lengthySettings n).fqcn) := by
  intro h
  have hentry : (lengthyName n, "x.y.z") ∈ (lengthySettings n).fqcn.entries := by
    simp [lengthySettings, ModuleTable.entries_insert_empty]
  obtain ⟨r, hr, hshort⟩ := List.mem_map.1 (ModuleTable.mem_map_short_merged hentry)
  have hpattern : Qualify.pattern r.short ∈
      Fixer.patterns (ModuleTable.merged (lengthySettings n).fqcn) :=
    List.mem_append_left _ (List.mem_append_left _ (List.mem_map.2 ⟨r, hr, rfl⟩))
  have hle := h _ hpattern
  rw [hshort] at hle
  exact absurd hle (Nat.not_le.2 hsize)

/-- A name whose pattern is too large is shown by `rules` like any other, and no fixer can be made
for it. -/
theorem run_lengthy [Regex.Compiler] (hn : n ≠ 0)
    (hsize : Regex.Compiler.sizeLimit < Regex.Compiler.size (Qualify.pattern (lengthyName n))) :
    (run ["rules", "--path", "."] (lengthy n)).1.ReportsSuccess ∧
      ∃ e, e.cause.code = "internal.unexpected" ∧
        run ["fix", "--dry-run", "--path", "."] (lengthy n) =
          (Reply.ofResult (.error e), lengthy n) := by
  obtain ⟨p, hprepare⟩ := prepare_lengthy n
  have hparse : parse ["rules", "--path", "."] = .ok (.rules { path := some "." }) := by cbv
  have hdry : parse ["fix", "--dry-run", "--path", "."] =
      .ok (.fix { path := some ".", dryRun := true }) := by cbv
  constructor
  · have hrules : ∃ data, rules { path := some "." } (lengthy n) = .ok (data, 0) := by
      simp [rules, hprepare, Setup.defaults, effective_lengthy hn, bind, Except.bind, pure,
        Except.pure]
    obtain ⟨data, hdata⟩ := hrules
    simp only [run, hparse, answer, hdata]
    exact ⟨data, rfl⟩
  · -- The dry run comes by the same setup, but makes its fixer before it looks at files.
    have hnone := mt Fixer.findSome?_fault?_eq_none_iff.1 (not_compiles_lengthy hsize)
    obtain ⟨e, he⟩ := Option.ne_none_iff_exists'.1 hnone
    obtain ⟨q, -, hq⟩ := List.exists_of_findSome?_eq_some he
    have honFix : ({ path := some ".", dryRun := true } : FixOptions) =
        RulesOptions.onFix { path := some "." } { dryRun := true } := rfl
    have hfix : fix { path := some ".", dryRun := true } (lengthy n) = (.error e, lengthy n) := by
      rw [honFix]
      exact fix_of_refused rfl hprepare (effective_lengthy hn) he
    refine ⟨e, (Regex.code_of_fault? hq).1, ?_⟩
    simp only [run, hdry, answer, hfix]

/-- With a library whose patterns grow with the names, `rules` does not show all there is to say. -/
theorem exists_unshown [Regex.Compiler] (hgrows : Regex.Grows) :
    ∃ t, (run ["rules", "--path", "."] t).1.ReportsSuccess ∧
      ∃ e, e.cause.code = "internal.unexpected" ∧
        run ["fix", "--dry-run", "--path", "."] t = (Reply.ofResult (.error e), t) := by
  let n := Regex.Compiler.sizeLimit + 1
  have hn : n ≠ 0 := Nat.succ_ne_zero _
  have hsize := hgrows _ (isShortName_lengthyName hn)
  rw [length_lengthyName] at hsize
  exact ⟨lengthy n, run_lengthy hn hsize⟩

/-- With the library in use, a name of 450,000 letters is too long: `rules` succeeds and shows it,
and the dry run neither succeeds nor fails over a file pattern. -/
theorem rules_hides_refusal :
    ¬ ∀ (t : Tree) (ws : List String), (∀ w ∈ ws, Shared w) →
      (run ("rules" :: ws) t).1.ReportsSuccess →
      (run ("fix" :: "--dry-run" :: ws) t).1.ReportsSuccess ∨
        ∃ e : Failure, e.cause.code = "validation.invalid_pattern" ∧
          run ("fix" :: "--dry-run" :: ws) t = (Reply.ofResult (.error e), t) := by
  intro h
  have hn : 450000 ≠ 0 := by decide
  have hsize : Regex.Compiler.sizeLimit <
      Regex.Compiler.size (Qualify.pattern (lengthyName 450000)) := by
    rw [Regex.size_eq, Regex.sizeLimit_eq, Regex.length_pattern (isShortName_lengthyName hn),
      length_lengthyName]
    decide
  obtain ⟨hrules, e, he, hfix⟩ := run_lengthy hn hsize
  rcases h (lengthy 450000) ["--path", "."] shared_path hrules with hsuccess | ⟨e', he', hfix'⟩
  · rw [hfix] at hsuccess
    obtain ⟨data, code, hok⟩ := Reply.eq_ok_of_reportsSuccess hsuccess
    exact absurd hok nofun
  · -- The two failures have different exit codes.
    rw [hfix] at hfix'
    have hexit : Reply.clampExitCode e.cause.exitCode = Reply.clampExitCode e'.cause.exitCode :=
      congrArg (fun r => r.1.exitCode) hfix'
    have hone : e.cause.exitCode = 1 := Cause.exitCode_eq_one_iff.2 (by simp [he])
    have htwo : e'.cause.exitCode = 2 := by
      apply e'.cause.exitCode_cases.resolve_left
      rw [Cause.exitCode_eq_one_iff, he']
      decide
    rw [hone, htwo] at hexit
    exact absurd hexit (by decide)

end Lengthy

end PlaybookTidy.Command
