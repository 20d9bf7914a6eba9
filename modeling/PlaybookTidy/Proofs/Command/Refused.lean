import PlaybookTidy.Proofs.Command.Check

/-!
Failures through a fault of the caller: what they come from, step by step, and that none of them
comes after the first write.
-/

namespace PlaybookTidy

variable {α β : Type} {t t' : Tree} {root : Path}

def Failure.OfCaller (e : Failure) : Prop := e.cause.exitCode = 2

def Refused (r : Except Failure α) : Prop := ∃ e, r = .error e ∧ e.OfCaller

def OkOrRefused (r : Except Failure α) : Prop := ∀ e, r = .error e → e.OfCaller

theorem Cause.exitCode_cases (c : Cause) : c.exitCode = 1 ∨ c.exitCode = 2 := by
  cases c <;> simp [exitCode]

/-- The codes of the failures that are no fault of the caller. -/
theorem Cause.exitCode_eq_one_iff {c : Cause} : c.exitCode = 1 ↔
    c.code ∈ ["internal.io_error", "internal.json_error", "internal.unexpected"] := by
  cases c <;> simp [exitCode, code]

theorem Failure.OfWrite.not_ofCaller {e : Failure} (h : e.OfWrite) : ¬ e.OfCaller := by
  obtain ⟨error, place, hcause⟩ := h
  simp [OfCaller, hcause, Cause.exitCode]

@[simp] theorem not_refused_ok (a : α) : ¬ Refused (.ok a) := nofun

@[simp] theorem refused_error {e : Failure} :
    Refused (.error e : Except Failure α) ↔ e.OfCaller := by
  simp [Refused]

/-- Where the caller is to blame for every failure, what is refused is what gives no result. -/
theorem OkOrRefused.refused_iff {r : Except Failure α} (h : OkOrRefused r) :
    Refused r ↔ ¬ ∃ a, r = .ok a := by
  cases r with
  | ok a => simp
  | error e => simp [h e rfl]

/-- Of two steps the first one is refused, or it ends well and the second one is refused. -/
theorem refused_bind {r : Except Failure α} {f : α → Except Failure β} :
    Refused (r >>= f) ↔ Refused r ∨ ∃ a, r = .ok a ∧ Refused (f a) := by
  cases r <;> simp [Refused, bind, Except.bind]

theorem refused_map {r : Except Failure α} {f : α → β} : Refused (r.map f) ↔ Refused r := by
  cases r <;> simp [Refused, Except.map]

namespace ModuleTable

variable {o : Overrides}

/-- A table that cannot be in effect: an entry has a malformed name, or a row writes what a row
looks for. -/
def Unusable (o : Overrides) : Prop :=
  (∃ e ∈ o.entries, ¬ (isShortName e.1 ∧ isReplacement e.2)) ∨
    ∃ r ∈ merged o, ∃ q ∈ merged o, q.short = r.fqcn

theorem ofCaller_of_fault? {short fqcn : String} {e : Failure} (h : fault? short fqcn = some e) :
    e.OfCaller := by
  unfold fault? at h
  split at h
  · rw [← Option.some.inj h]
    rfl
  · split at h
    · rw [← Option.some.inj h]
      rfl
    · simp at h

/-- Only a fault of the caller keeps a table from being in effect. -/
theorem okOrRefused_effective (o : Overrides) : OkOrRefused (effective o) := by
  intro e h
  unfold effective at h
  split at h
  · rename_i hfault
    obtain ⟨x, -, hx⟩ := List.exists_of_findSome?_eq_some hfault
    exact ofCaller_of_fault? (Except.error.inj h ▸ hx)
  · split at h
    · rw [← Except.error.inj h]
      rfl
    · simp at h

theorem refused_effective_iff : Refused (effective o) ↔ Unusable o := by
  have husable : (∃ rows, effective o = .ok rows) ↔ ¬ Unusable o := by
    simp [effective_eq_ok_iff, fault?_eq_none_iff, Unusable]
  rw [(okOrRefused_effective o).refused_iff, husable, not_not]

end ModuleTable

namespace Config

variable {asked : Option Path}

/-- What makes a configuration unfit for work: the file that is asked for is not there, or the file
is no configuration, or one without patterns or with a blank one. -/
inductive Unusable (t : Tree) (root : Path) (asked : Option Path) : Prop
  | missing (p : Path) : asked = some p → t.isFile p = false → Unusable t root asked
  | malformed (text error : String) : t.readText (filePath root asked) = .ok text →
      parse text = .error error → Unusable t root asked
  | noPattern (text : String) (d : Defaults) : t.readText (filePath root asked) = .ok text →
      parse text = .ok d → d.patterns = [] → Unusable t root asked
  | blankPattern (text : String) (d : Defaults) (pattern : String) :
      t.readText (filePath root asked) = .ok text → parse text = .ok d → pattern ∈ d.patterns →
      Text.isBlankText pattern = true → Unusable t root asked

/-- Settings are refused without patterns or with a blank one. -/
theorem refused_check_iff {d : Defaults} :
    Refused d.check ↔ d.patterns = [] ∨ ∃ p ∈ d.patterns, Text.isBlankText p = true := by
  unfold Defaults.check
  by_cases hnone : d.patterns = []
  · simp [hnone, Failure.OfCaller, Defaults.invalidPatterns, Cause.exitCode]
  · rw [if_neg hnone]
    cases hfind : d.patterns.find? Text.isBlankText with
    | some p =>
      have hblank : ∃ p ∈ d.patterns, Text.isBlankText p = true :=
        ⟨p, List.mem_of_find?_eq_some hfind, List.find?_some hfind⟩
      simp [hblank, Failure.OfCaller, Defaults.invalidPatterns, Cause.exitCode]
    | none => simpa [hnone] using hfind

/-- Only a file that cannot be read makes a failure that is no fault of the caller. -/
theorem refused_loadFile_iff {p : Path} :
    Refused (loadFile t p) ↔ ∃ text, t.readText p = .ok text ∧
      ((∃ error, parse text = .error error) ∨ ∃ d, parse text = .ok d ∧ Refused d.check) := by
  unfold loadFile Tree.read
  rw [refused_bind]
  cases hread : t.readText p with
  | error e =>
    simp [Except.mapError, IoError.toFailure, Failure.OfCaller, Cause.exitCode]
  | ok text =>
    cases hparse : parse text with
    | error error =>
      simp [Except.mapError, hparse, Failure.OfCaller, Cause.exitCode]
    | ok d =>
      simp [Except.mapError, hparse, refused_bind, pure, Except.pure]

/-- A configuration is refused exactly if it is unfit for work. -/
theorem refused_load_iff : Refused (load t root asked) ↔ Unusable t root asked := by
  have hfile : ∀ p text, t.readText p = .ok text → t.isFile p = true := by
    intro p text h
    obtain ⟨l, hl, hs⟩ := Tree.readText_eq_ok_iff.1 h
    exact Tree.isFile_iff.2 ⟨l, _, hl, hs⟩
  unfold load
  constructor
  · intro h
    dsimp only at h
    split at h
    · obtain ⟨text, hread, ⟨error, hparse⟩ | ⟨d, hparse, hcheck⟩⟩ := refused_loadFile_iff.1 h
      · exact .malformed text error hread hparse
      · rcases refused_check_iff.1 hcheck with hnone | ⟨p, hp, hblank⟩
        · exact .noPattern text d hread hparse hnone
        · exact .blankPattern text d p hread hparse hp hblank
    · rename_i hmissing
      cases asked with
      | none => simp at h
      | some p => exact .missing p rfl (by simpa [filePath] using hmissing)
  · intro h
    dsimp only
    cases h with
    | missing p hasked hp =>
      subst hasked
      simp [filePath, hp, Failure.OfCaller, Failure.configNotFound, Cause.exitCode]
    | malformed text error hread hparse =>
      rw [if_pos (hfile _ _ hread), refused_loadFile_iff]
      exact ⟨text, hread, Or.inl ⟨error, hparse⟩⟩
    | noPattern text d hread hparse hnone =>
      rw [if_pos (hfile _ _ hread), refused_loadFile_iff]
      exact ⟨text, hread, Or.inr ⟨d, hparse, refused_check_iff.2 (Or.inl hnone)⟩⟩
    | blankPattern text d p hread hparse hp hblank =>
      rw [if_pos (hfile _ _ hread), refused_loadFile_iff]
      exact ⟨text, hread, Or.inr ⟨d, hparse, refused_check_iff.2 (Or.inr ⟨p, hp, hblank⟩)⟩⟩

end Config

namespace Discovery

variable {patterns exclude : List String}

/-- Discovery is refused for text that is no pattern and for nothing else. -/
theorem refused_discover_iff :
    Refused (discover t root patterns exclude) ↔
      (∃ x ∈ exclude, ∃ err, Glob.parse x.toList = .error err) ∨
        ∃ x ∈ patterns, ∃ err, Glob.Search.parse (rooted root x) = .error err := by
  have hstrict : OkOrRefused (discover t root patterns exclude) := by
    intro e h
    obtain ⟨pattern, error, rfl⟩ := discover_eq_error h
    rfl
  have hfail : ∀ {ε γ : Type} (r : Except ε γ), (∃ err, r = .error err) ↔ ¬ ∃ x, r = .ok x := by
    intro ε γ r
    cases r <;> simp
  rw [hstrict.refused_iff, exists_discover_iff, not_and_or]
  simp only [hfail, not_forall, exists_prop]

end Discovery

namespace Fixer

variable {fx : Fixer} {d : Defaults} {dryRun : Bool}

/-- Only the table is the caller's, not what the library says of a pattern. -/
theorem refused_ofDefaults_iff [Regex.Compiler] {only : Option (List Rule)} :
    Refused (ofDefaults d only) ↔ Refused (ModuleTable.effective d.fqcn) := by
  constructor
  · rintro ⟨e, he, hcaller⟩
    rcases ofDefaults_eq_error_iff.1 he with htable | ⟨table, -, hfault⟩
    · exact ⟨e, htable, hcaller⟩
    · obtain ⟨p, -, hp⟩ := List.exists_of_findSome?_eq_some hfault
      rw [Failure.OfCaller, (Regex.code_of_fault? hp).2] at hcaller
      contradiction
  · rintro ⟨e, he, hcaller⟩
    exact ⟨e, ofDefaults_eq_error_iff.2 (Or.inl he), hcaller⟩

/-- Visits fail only in writing. -/
theorem not_refused_runFiles (fx : Fixer) (root : Path) (dryRun : Bool) (ps : List Path)
    (t : Tree) : ¬ Refused (fx.runFiles root dryRun ps t).1 := by
  rintro ⟨e, he, hcaller⟩
  cases dryRun with
  | true => simp [runFiles_dry] at he
  | false => exact (ofWrite_of_runFiles (Prod.ext he rfl)).not_ofCaller hcaller

/-- The only fault of the caller that a run finds is one in the patterns. -/
theorem refused_run_iff :
    Refused (fx.run root d dryRun t).1 ↔
      Refused (Discovery.discover t root d.patterns d.exclude) := by
  unfold run
  cases Discovery.discover t root d.patterns d.exclude with
  | error e => simp
  | ok ps => simp [not_refused_runFiles]

/-- All patterns are looked at before the first visit. -/
theorem snd_run_refused (h : Refused (fx.run root d dryRun t).1) :
    (fx.run root d dryRun t).2 = t := by
  have hdiscover := refused_run_iff.1 h
  unfold run
  cases hps : Discovery.discover t root d.patterns d.exclude with
  | error e => rfl
  | ok ps => simp [hps] at hdiscover

end Fixer

namespace Command

variable {path config : Option String} {o : FixOptions} {s : Setup}

def UnusablePlaces (t : Tree) (path config : Option String) : Prop :=
  t.isDirectory (rootPath t path) = false ∨
    Config.Unusable t (rootPath t path) (config.map Path.ofString)

theorem refused_prepare_iff :
    Refused (Setup.prepare t path config) ↔ UnusablePlaces t path config := by
  unfold Setup.prepare UnusablePlaces
  simp only [refused_bind, Config.refused_load_iff, resolveRoot]
  cases t.isDirectory (rootPath t path) with
  | false => simp [Failure.OfCaller, Failure.notADirectory, Cause.exitCode]
  | true => simp [pure, Except.pure]

def UnknownRule (values : List String) : Prop := ∃ n ∈ ruleNames values, Rule.ofId? n = none

theorem okOrRefused_parseRules (values : List String) : OkOrRefused (parseRules values) := by
  intro e h
  unfold parseRules at h
  split at h
  · simp at h
  · cases hnames : (ruleNames values).mapM Rule.ofId with
    | ok rs => simp [hnames, Except.map] at h
    | error e' =>
      obtain rfl : e' = e := by simpa [hnames, Except.map] using h
      obtain ⟨n, -, hn⟩ := mapM_eq_error hnames
      unfold Rule.ofId at hn
      split at hn
      · simp at hn
      · rw [← Except.error.inj hn]
        rfl

/-- A selection is refused if a name in it is that of no rule. -/
theorem refused_parseRules_iff {values : List String} :
    Refused (parseRules values) ↔ UnknownRule values := by
  have hone : ∀ n, (∃ r, Rule.ofId n = .ok r) ↔ Rule.ofId? n ≠ none := by
    intro n
    unfold Rule.ofId
    cases Rule.ofId? n <;> simp
  have hall : (∃ rs, (ruleNames values).mapM Rule.ofId = .ok rs) ↔
      ∀ n ∈ ruleNames values, Rule.ofId? n ≠ none := by
    simp only [exists_mapM_eq_ok_iff, hone]
  rw [(okOrRefused_parseRules values).refused_iff, UnknownRule, ← not_iff_not, not_not]
  have hnone : (¬ ∃ n ∈ ruleNames values, Rule.ofId? n = none) ↔
      ∀ n ∈ ruleNames values, Rule.ofId? n ≠ none := by simp
  rw [hnone, ← hall]
  unfold parseRules
  by_cases hvalues : values = []
  · simp [hvalues, ruleNames, pure, Except.pure]
  · rw [if_neg hvalues]
    cases (ruleNames values).mapM Rule.ofId <;> simp [Except.map]

def UnusablePatterns (s : Setup) : Prop :=
  (∃ x ∈ s.defaults.exclude, ∃ err, Glob.parse x.toList = .error err) ∨
    ∃ x ∈ s.defaults.patterns, ∃ err,
      Glob.Search.parse (Discovery.rooted s.root x) = .error err

theorem refused_rules_iff {o : RulesOptions} :
    Refused (rules o t) ↔ UnusablePlaces t o.path o.config ∨
      ∃ s, Setup.prepare t o.path o.config = .ok s ∧ ModuleTable.Unusable s.defaults.fqcn := by
  unfold rules
  simp only [refused_bind, refused_prepare_iff, ModuleTable.refused_effective_iff]
  simp [pure, Except.pure]

variable [Regex.Compiler]

/-- The preparations blame the caller for places, rules and module names. -/
theorem refused_prepareFix_iff :
    Refused (prepareFix o t) ↔ UnusablePlaces t o.path o.config ∨
      ∃ s, Setup.prepare t o.path o.config = .ok s ∧
        (UnknownRule o.rules ∨ ModuleTable.Unusable s.defaults.fqcn) := by
  have honly := (okOrRefused_parseRules o.rules).refused_iff
  rw [refused_parseRules_iff] at honly
  unfold prepareFix
  simp only [refused_bind, refused_prepare_iff, refused_parseRules_iff,
    Fixer.refused_ofDefaults_iff, ModuleTable.refused_effective_iff]
  simp only [pure, Except.pure, not_refused_ok, and_false, exists_false, or_false,
    exists_and_right]
  -- Whether the table can be in effect is asked only after the names of the rules.
  by_cases hnames : UnknownRule o.rules
  · simp [hnames]
  · simp [hnames, not_not.1 (mt honly.2 hnames)]

theorem refused_fix_iff_prepareFix :
    Refused (fix o t).1 ↔ Refused (prepareFix o t) ∨
      ∃ s fx, prepareFix o t = .ok (s, fx) ∧ UnusablePatterns s := by
  cases hs : prepareFix o t with
  | error e => simp [fix, hs]
  | ok x =>
    obtain ⟨s, fx⟩ := x
    rw [fix_of_prepareFix hs]
    simp only [refused_map, Fixer.refused_run_iff, Discovery.refused_discover_iff]
    simp [UnusablePatterns]

/-- Once the root and the configuration are known and all patterns are compiled, only the caller is
to blame. -/
theorem prepareFix_of_prepare (h : Setup.prepare t o.path o.config = .ok s)
    (hcompiles : Fixer.Compiles (ModuleTable.merged s.defaults.fqcn)) :
    Refused (prepareFix o t) ∨ ∃ fx, prepareFix o t = .ok (s, fx) := by
  rw [refused_prepareFix_iff]
  cases honly : parseRules o.rules with
  | error e =>
    have hrule : UnknownRule o.rules :=
      refused_parseRules_iff.1 ⟨e, honly, okOrRefused_parseRules o.rules e honly⟩
    exact Or.inl (Or.inr ⟨s, h, Or.inl hrule⟩)
  | ok only =>
    cases htable : ModuleTable.effective s.defaults.fqcn with
    | error e =>
      have hunusable : ModuleTable.Unusable s.defaults.fqcn :=
        ModuleTable.refused_effective_iff.1
          ⟨e, htable, ModuleTable.okOrRefused_effective s.defaults.fqcn e htable⟩
      exact Or.inl (Or.inr ⟨s, h, Or.inr hunusable⟩)
    | ok table =>
      obtain ⟨-, -, rfl⟩ := ModuleTable.effective_eq_ok_iff.1 htable
      have hfx : ∃ fx, Fixer.ofDefaults s.defaults only = .ok fx :=
        ⟨_, Fixer.ofDefaults_eq_ok_iff.2 ⟨_, htable, hcompiles, rfl⟩⟩
      obtain ⟨fx, hfx⟩ := hfx
      exact Or.inr ⟨fx, prepareFix_eq_ok_iff.2 ⟨only, h, honly, hfx⟩⟩

/-- What a fixer was made for is compiled. -/
theorem compiles_of_prepareFix {fx : Fixer} (h : prepareFix o t = .ok (s, fx)) :
    Setup.prepare t o.path o.config = .ok s ∧
      Fixer.Compiles (ModuleTable.merged s.defaults.fqcn) := by
  obtain ⟨only, hsetup, -, hfx⟩ := prepareFix_eq_ok_iff.1 h
  obtain ⟨table, htable, hcompiles, -⟩ := Fixer.ofDefaults_eq_ok_iff.1 hfx
  obtain ⟨-, -, rfl⟩ := ModuleTable.effective_eq_ok_iff.1 htable
  exact ⟨hsetup, hcompiles⟩

/-- The command that fixes files is refused over what it is given. A file pattern is the last thing
that it looks at, so one is no reason if the library has refused a pattern of the passes before. -/
theorem refused_fix_iff :
    Refused (fix o t).1 ↔ UnusablePlaces t o.path o.config ∨
      ∃ s, Setup.prepare t o.path o.config = .ok s ∧
        (UnknownRule o.rules ∨ ModuleTable.Unusable s.defaults.fqcn ∨
          Fixer.Compiles (ModuleTable.merged s.defaults.fqcn) ∧ UnusablePatterns s) := by
  rw [refused_fix_iff_prepareFix]
  constructor
  · rintro (hprepare | ⟨s, fx, hs, hpatterns⟩)
    · rcases refused_prepareFix_iff.1 hprepare with hplaces | ⟨s, hs, hrule | htable⟩
      · exact Or.inl hplaces
      · exact Or.inr ⟨s, hs, Or.inl hrule⟩
      · exact Or.inr ⟨s, hs, Or.inr (Or.inl htable)⟩
    · obtain ⟨hsetup, hcompiles⟩ := compiles_of_prepareFix hs
      exact Or.inr ⟨s, hsetup, Or.inr (Or.inr ⟨hcompiles, hpatterns⟩)⟩
  · rintro (hplaces | ⟨s, hs, hrule | htable | ⟨hcompiles, hpatterns⟩⟩)
    · exact Or.inl (refused_prepareFix_iff.2 (Or.inl hplaces))
    · exact Or.inl (refused_prepareFix_iff.2 (Or.inr ⟨s, hs, Or.inl hrule⟩))
    · exact Or.inl (refused_prepareFix_iff.2 (Or.inr ⟨s, hs, Or.inr htable⟩))
    · -- A rule or the table may be refused first.
      rcases prepareFix_of_prepare hs hcompiles with hrefused | ⟨fx, hfx⟩
      · exact Or.inl hrefused
      · exact Or.inr ⟨s, fx, hfx, hpatterns⟩

/-- A refused command has not written anything. -/
theorem snd_fix_refused (h : Refused (fix o t).1) : (fix o t).2 = t := by
  cases hs : prepareFix o t with
  | error e => simp [fix, hs]
  | ok x =>
    rw [fix_of_prepareFix hs, refused_map] at h
    rw [fix_of_prepareFix hs]
    exact Fixer.snd_run_refused h

end Command

end PlaybookTidy
