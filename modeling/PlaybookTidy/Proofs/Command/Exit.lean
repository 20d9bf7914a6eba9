import PlaybookTidy.Proofs.Command.Data
import PlaybookTidy.Proofs.Command.Refused

/-!
The exit codes. A command exits with 2 exactly if it was given something that it cannot work with,
and then it leaves the tree as it was. Other failures exit with 1, and so does a check that finds
something to fix.
-/

namespace PlaybookTidy

namespace Reply

def ReportsFailure (r : Reply) : Prop := ∃ e, r.text = print (.error e)

/-- The envelope of a failure is printed for failures only. -/
theorem eq_error_of_reportsFailure {r : Except Failure (Json × Int)}
    (h : (ofResult r).ReportsFailure) : ∃ e, r = .error e := by
  obtain ⟨e, he⟩ := h
  cases r with
  | error e => exact ⟨e, rfl⟩
  | ok x => exact absurd (isOk_of_print he) (by simp [Except.isOk, Except.toBool])

theorem exitCode_error (e : Failure) :
    (ofResult (.error e)).exitCode = 1 ∨ (ofResult (.error e)).exitCode = 2 := by
  rcases e.cause.exitCode_cases with h | h <;> simp [ofResult, clampExitCode, h]

/-- Where a result that is no failure has exit code 0 or 1, a refused one alone has 2. -/
theorem exitCode_eq_two_iff {r : Except Failure (Json × Int)}
    (hcode : ∀ data code, r = .ok (data, code) → code = 0 ∨ code = 1) :
    (ofResult r).exitCode = 2 ↔ Refused r := by
  cases r with
  | error e =>
    rcases e.cause.exitCode_cases with h | h <;>
      simp [ofResult, clampExitCode, Failure.OfCaller, h]
  | ok x => rcases hcode x.1 x.2 rfl with h | h <;> simp [ofResult, clampExitCode, h]

end Reply

namespace Command

variable {words ws : List String} {t : Tree} {o : FixOptions} {r : Request}

/-- What a command line can be refused for: it cannot be read, or it names a root, a configuration,
rules or, by its configuration, module names or patterns that there is no working with. -/
inductive Invalid [Regex.Compiler] (words : List String) (t : Tree) : Prop
  | usage (e : UsageError) : parse words = .error e → Invalid words t
  | places (r : Request) (path config : Option String) : parse words = .ok r →
      r.places = some (path, config) → UnusablePlaces t path config → Invalid words t
  | table (r : Request) (path config : Option String) (s : Setup) : parse words = .ok r →
      r.places = some (path, config) → Setup.prepare t path config = .ok s →
      ModuleTable.Unusable s.defaults.fqcn → Invalid words t
  | rule (o : FixOptions) (s : Setup) : parse words = .ok (.fix o) →
      Setup.prepare t o.path o.config = .ok s → UnknownRule o.rules → Invalid words t
  | patterns (o : FixOptions) (s : Setup) : parse words = .ok (.fix o) →
      Setup.prepare t o.path o.config = .ok s →
      Fixer.Compiles (ModuleTable.merged s.defaults.fqcn) → UnusablePatterns s → Invalid words t

def IsCheck (words : List String) : Prop := words.head? = some "fix" ∧ "--check" ∈ words

instance (words : List String) : Decidable (IsCheck words) :=
  inferInstanceAs (Decidable (_ ∧ _))

/-- The command line asks for nothing that changes files. -/
def ReadOnly (words : List String) : Prop :=
  words.head? = some "rules" ∨
    words.head? = some "fix" ∧ ("--dry-run" ∈ words ∨ "--check" ∈ words)

/-- What the reply to a command line says by its exit code, and what is left of the tree. -/
structure Exits [Regex.Compiler] (words : List String) (t : Tree) (r : Reply) (t' : Tree) : Prop where
  code : r.exitCode = 0 ∨ r.exitCode = 1 ∨ r.exitCode = 2
  invalid : r.exitCode = 2 ↔ Invalid words t
  unchanged : r.exitCode = 2 → t' = t
  failure : r.ReportsFailure → r.exitCode ≠ 0
  success : r.ReportsSuccess → ∃ data, r.text = Reply.print (.ok data) ∧
    r.exitCode = if IsCheck words ∧ 0 < changedCount data then 1 else 0
  readOnly : ReadOnly words → t' = t

variable [Regex.Compiler]

/-- What a request that was read can be refused for. -/
theorem invalid_iff (hparse : parse words = .ok r) :
    Invalid words t ↔
      (∃ path config, r.places = some (path, config) ∧ (UnusablePlaces t path config ∨
        ∃ s, Setup.prepare t path config = .ok s ∧ ModuleTable.Unusable s.defaults.fqcn)) ∨
      ∃ o s, r = .fix o ∧ Setup.prepare t o.path o.config = .ok s ∧
        (UnknownRule o.rules ∨
          Fixer.Compiles (ModuleTable.merged s.defaults.fqcn) ∧ UnusablePatterns s) := by
  -- A command line asks for one thing.
  have hunique : ∀ r', parse words = .ok r' → r = r' := by
    intro r' hr
    exact Except.ok.inj (hparse.symm.trans hr)
  constructor
  · intro h
    cases h with
    | usage e he => simp [hparse] at he
    | places r' path config hr hplaces hunusable =>
      obtain rfl := hunique r' hr
      exact Or.inl ⟨path, config, hplaces, Or.inl hunusable⟩
    | table r' path config s hr hplaces hs htable =>
      obtain rfl := hunique r' hr
      exact Or.inl ⟨path, config, hplaces, Or.inr ⟨s, hs, htable⟩⟩
    | rule o s ho hs hrule => exact Or.inr ⟨o, s, hunique _ ho, hs, Or.inl hrule⟩
    | patterns o s ho hs hcompiles hpatterns =>
      exact Or.inr ⟨o, s, hunique _ ho, hs, Or.inr ⟨hcompiles, hpatterns⟩⟩
  · rintro (⟨path, config, hplaces, hunusable | ⟨s, hs, htable⟩⟩ |
      ⟨o, s, rfl, hs, hrule | ⟨hcompiles, hpatterns⟩⟩)
    · exact .places r path config hparse hplaces hunusable
    · exact .table r path config s hparse hplaces hs htable
    · exact .rule o s hparse hs hrule
    · exact .patterns o s hparse hs hcompiles hpatterns

/-- A command line for `fix` is invalid if `fix` blames the caller. -/
theorem invalid_fix_iff (hparse : parse words = .ok (.fix o)) :
    Invalid words t ↔ Refused (fix o t).1 := by
  rw [invalid_iff hparse, refused_fix_iff]
  constructor
  · rintro (⟨path, config, hplaces, hunusable | ⟨s, hs, htable⟩⟩ |
      ⟨o', s, ho, hs, hrule | hpatterns⟩)
    · obtain ⟨rfl, rfl⟩ : o.path = path ∧ o.config = config := by
        simpa [Request.places] using hplaces
      exact Or.inl hunusable
    · obtain ⟨rfl, rfl⟩ : o.path = path ∧ o.config = config := by
        simpa [Request.places] using hplaces
      exact Or.inr ⟨s, hs, Or.inr (Or.inl htable)⟩
    · obtain rfl := Request.fix.inj ho
      exact Or.inr ⟨s, hs, Or.inl hrule⟩
    · obtain rfl := Request.fix.inj ho
      exact Or.inr ⟨s, hs, Or.inr (Or.inr hpatterns)⟩
  · rintro (hunusable | ⟨s, hs, hrule | htable | hpatterns⟩)
    · exact Or.inl ⟨_, _, rfl, Or.inl hunusable⟩
    · exact Or.inr ⟨o, s, rfl, hs, Or.inl hrule⟩
    · exact Or.inl ⟨_, _, rfl, Or.inr ⟨s, hs, htable⟩⟩
    · exact Or.inr ⟨o, s, rfl, hs, Or.inr hpatterns⟩

theorem invalid_rules_iff {o : RulesOptions} (hparse : parse words = .ok (.rules o)) :
    Invalid words t ↔ Refused (rules o t) := by
  rw [invalid_iff hparse, refused_rules_iff]
  simp [Request.places]

/-- A text that is no envelope: there is neither failure nor success in it. -/
theorem exits_text {text : String} (hparse : parse words = .ok r) (hplaces : r.places = none)
    (htext : text.toList.head? ≠ some '\x7b') : Exits words t ⟨0, text⟩ t where
  code := Or.inl rfl
  invalid := by
    have hfix : ∀ o, r ≠ .fix o := by
      rintro o rfl
      simp [Request.places] at hplaces
    simp [invalid_iff hparse, hplaces, hfix]
  unchanged _ := rfl
  failure h := by
    obtain ⟨e, he⟩ := h
    exact absurd he (Reply.text_ne_print_of_head htext _)
  success h := absurd h (Reply.not_reportsSuccess_of_head htext)
  readOnly _ := rfl

/-- The exit code of a success is in the data that it prints. -/
theorem fix_eq_ok {data : Json} {code : Int} (h : (fix o t).1 = .ok (data, code)) :
    code = if o.check = true ∧ 0 < changedCount data then 1 else 0 := by
  cases hs : prepareFix o t with
  | error e => simp [fix, hs] at h
  | ok x =>
    rw [fix_of_prepareFix hs] at h
    cases hrun : (x.2.run x.1.root x.1.defaults o.writesNothing t).1 with
    | error e => simp [hrun, Except.map] at h
    | ok r =>
      obtain ⟨rfl, rfl⟩ : fixData o x.1 r = data ∧ fixExitCode o r = code := by
        simpa [hrun, Except.map] using h
      simp [fixExitCode, changedCount_fixData]

/-- The reply to a result: its exit code is that of the failure, or it tells what a check found. -/
theorem exits_ofResult {r : Except Failure (Json × Int)} {t' : Tree}
    (hcode : ∀ data code, r = .ok (data, code) →
      code = if IsCheck words ∧ 0 < changedCount data then 1 else 0)
    (hinvalid : Invalid words t ↔ Refused r) (hunchanged : Refused r → t' = t)
    (hreadOnly : ReadOnly words → t' = t) : Exits words t (Reply.ofResult r) t' := by
  have hsmall : ∀ data code, r = .ok (data, code) → code = 0 ∨ code = 1 := by
    intro data code h
    rw [hcode data code h]
    split <;> simp
  have htwo : (Reply.ofResult r).exitCode = 2 ↔ Refused r := Reply.exitCode_eq_two_iff hsmall
  refine ⟨?_, htwo.trans hinvalid.symm, fun h => hunchanged (htwo.1 h), ?_, ?_, hreadOnly⟩
  · cases r with
    | error e => exact Or.inr (Reply.exitCode_error e)
    | ok x =>
      rcases hsmall x.1 x.2 rfl with h | h <;> simp [Reply.ofResult, Reply.clampExitCode, h]
  · intro h
    obtain ⟨e, rfl⟩ := Reply.eq_error_of_reportsFailure h
    rcases Reply.exitCode_error e with h | h <;> simp [h]
  · intro h
    obtain ⟨data, code, rfl⟩ := Reply.eq_ok_of_reportsSuccess h
    refine ⟨data, rfl, ?_⟩
    rw [hcode data code rfl]
    split <;> rfl

/-- The exit code of `fix` says what it returned and what it left. -/
theorem exits_fix (hread : Reads fixGrammar ws {} o) :
    Exits ("fix" :: ws) t (Reply.ofResult (fix o t).1) (fix o t).2 := by
  have hparse : parse ("fix" :: ws) = .ok (.fix o) := parse_fix_iff.2 hread
  have hcheck : IsCheck ("fix" :: ws) ↔ o.check = true := by
    simp [IsCheck, hread.check_eq]
  apply exits_ofResult _ (invalid_fix_iff hparse) snd_fix_refused
  · intro h
    have hasks : "--dry-run" ∈ ws ∨ "--check" ∈ ws := by simpa [ReadOnly] using h
    apply fix_dry_tree
    simpa [FixOptions.writesNothing, hread.dryRun_eq, hread.check_eq] using hasks
  · intro data code h
    simp only [fix_eq_ok h, hcheck]

theorem exits_rules {o : RulesOptions} (hparse : parse ("rules" :: ws) = .ok (.rules o)) :
    Exits ("rules" :: ws) t (Reply.ofResult (rules o t)) t := by
  have hcheck : ¬ IsCheck ("rules" :: ws) := by simp [IsCheck]
  apply exits_ofResult _ (invalid_rules_iff hparse) (fun _ => rfl) fun _ => rfl
  intro data code h
  rw [if_neg (fun hpending => hcheck hpending.1)]
  obtain ⟨s, table, -, -, -, hcode⟩ := rules_eq_ok h
  exact hcode

theorem exits_usage {e : UsageError} (hparse : parse words = .error e) :
    Exits words t ⟨2, ""⟩ t where
  code := Or.inr (Or.inr rfl)
  invalid := iff_of_true rfl (.usage e hparse)
  unchanged _ := rfl
  failure _ := by simp
  success h := absurd h (Reply.not_reportsSuccess_of_head (by simp))
  readOnly _ := rfl

/-- For every command line and tree: the exit code is 0, 1 or 2. It is 2 exactly if the command line
is refused for what it is given, and then the tree is as before. It is not 0 if a failure is
printed; if a success is printed, it is 0 but for a check that counts a change, when it is 1. What
only reads leaves the tree as it is in every case. -/
theorem run_exits (words : List String) (t : Tree) :
    Exits words t (run words t).1 (run words t).2 := by
  cases hparse : parse words with
  | error e =>
    simp only [run, hparse]
    exact exits_usage hparse
  | ok r =>
    simp only [run, hparse]
    rcases parse_cases hparse with rfl | rfl | ⟨ws, o, rfl, rfl, hread⟩ | ⟨ws, o, rfl, rfl⟩
    · exact exits_text hparse rfl (by decide)
    · obtain ⟨s, hs⟩ := exists_helpText
      exact exits_text hparse rfl (by simp [hs])
    · exact exits_fix hread
    · exact exits_rules hparse

end Command

end PlaybookTidy
