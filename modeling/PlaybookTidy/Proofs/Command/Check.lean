import PlaybookTidy.Command.Answer
import PlaybookTidy.Proofs.Command.Arguments
import PlaybookTidy.Proofs.Run.Pending

/-!
The check of a repository. It writes nothing, and its exit code says whether the same command
without the check would write: exactly then some listed file needs fixing in the tree as it is.
-/

namespace PlaybookTidy

namespace Reply

def ReportsSuccess (r : Reply) : Prop := ∃ data, r.text = print (.ok data)

/-- How an envelope begins, up to the first letter of what it says of its success. -/
theorem exists_toList_print (r : Except Failure Json) :
    ∃ s, (print r).toList =
      "\x7b\n  \"success\": ".toList ++ (if r.isOk then 't' else 'f') :: s := by
  cases r <;>
  · simp only [print, printEnvelope, Json.print, String.toList_append, String.toList_ofList]
    exact ⟨_, rfl⟩

/-- A failure is not printed as a success. -/
theorem isOk_of_print {r r' : Except Failure Json} (h : print r = print r') : r.isOk = r'.isOk := by
  obtain ⟨s, hs⟩ := exists_toList_print r
  obtain ⟨s', hs'⟩ := exists_toList_print r'
  have hsame : (print r).toList = (print r').toList := congrArg String.toList h
  rw [hs, hs', List.append_cancel_left_eq, List.cons.injEq] at hsame
  cases hr : r.isOk <;> cases hr' : r'.isOk <;> simp [hr, hr'] at hsame ⊢

/-- The envelope of a success is printed for results only. -/
theorem eq_ok_of_reportsSuccess {r : Except Failure (Json × Int)}
    (h : (ofResult r).ReportsSuccess) : ∃ data code, r = .ok (data, code) := by
  obtain ⟨data, hdata⟩ := h
  cases r with
  | ok x => exact ⟨x.1, x.2, rfl⟩
  | error e => exact absurd (isOk_of_print hdata) (by simp [Except.isOk, Except.toBool])

/-- Nor is a text that does not begin as an envelope does. -/
theorem text_ne_print_of_head {r : Reply} (h : r.text.toList.head? ≠ some '\x7b')
    (x : Except Failure Json) : r.text ≠ print x := by
  intro hx
  obtain ⟨s, hs⟩ := exists_toList_print x
  rw [hx, hs] at h
  exact h rfl

/-- Text that does not begin with a brace is no envelope. -/
theorem not_reportsSuccess_of_head {r : Reply} (h : r.text.toList.head? ≠ some '\x7b') :
    ¬ r.ReportsSuccess := by
  rintro ⟨data, hdata⟩
  exact text_ne_print_of_head h _ hdata

end Reply

namespace Command

variable {words pre post : List String} {o : FixOptions} {t : Tree} {s : Setup} {fx : Fixer}
  {e : Failure} {r : Except Failure FixResult}

/-- The command line asks for a run of the fixer, and on this tree that comes to `r`. -/
def Runs [Regex.Compiler] (words : List String) (t : Tree) (r : Except Failure FixResult) : Prop :=
  ∃ o s fx, parse words = .ok (.fix o) ∧ prepareFix o t = .ok (s, fx) ∧
    (fx.run s.root s.defaults o.writesNothing t).1 = r

def Applies [Regex.Compiler] (words : List String) (t : Tree) : Prop :=
  ∃ res, Runs words t (.ok res) ∧ ∃ r ∈ res.files, r.applied = true

def AppliesNothing [Regex.Compiler] (words : List String) (t : Tree) : Prop :=
  ∃ res, Runs words t (.ok res) ∧ ∀ r ∈ res.files, r.applied = false

def FailsToWrite [Regex.Compiler] (words : List String) (t : Tree) : Prop :=
  ∃ e, Runs words t (.error e) ∧ e.OfWrite

set_option maxRecDepth 4000 in
theorem exists_helpText : ∃ s, helpText = String.ofList ('R' :: s) := ⟨_, rfl⟩

section

variable [Regex.Compiler]

theorem runs_iff (ho : parse words = .ok (.fix o)) (hs : prepareFix o t = .ok (s, fx)) :
    Runs words t r ↔ (fx.run s.root s.defaults o.writesNothing t).1 = r := by
  simp [Runs, ho, hs]

/-- A command line asks for one run at most. -/
theorem Runs.unique {r' : Except Failure FixResult} (h : Runs words t r) (h' : Runs words t r') :
    r = r' := by
  obtain ⟨o, s, fx, ho, hs, hr⟩ := h
  exact hr.symm.trans ((runs_iff ho hs).1 h')

/-- What a command does on a tree is at most one of these. -/
theorem AppliesNothing.not_writes (h : AppliesNothing words t) :
    ¬ (Applies words t ∨ FailsToWrite words t) := by
  obtain ⟨res, hres, hnone⟩ := h
  rintro (⟨res', hres', r, hr, happ⟩ | ⟨e, he, -⟩)
  · obtain rfl : res = res' := Except.ok.inj (hres.unique hres')
    simp [hnone r hr] at happ
  · exact absurd (hres.unique he) nofun

/-- After the preparations `fix` is a run of the fixer, and its exit code follows from the result.
-/
theorem fix_of_prepareFix (hs : prepareFix o t = .ok (s, fx)) :
    fix o t =
      ((fx.run s.root s.defaults o.writesNothing t).1.map fun r =>
        (fixData o s r, fixExitCode o r), (fx.run s.root s.defaults o.writesNothing t).2) := by
  unfold fix
  rw [hs]
  cases hrun : fx.run s.root s.defaults o.writesNothing t with
  | mk r t' => cases r <;> simp [hrun, Except.map]

/-- The preparations end well if the root and the configuration do, the rules are known, and there
is a fixer for both. -/
theorem prepareFix_eq_ok_iff :
    prepareFix o t = .ok (s, fx) ↔ ∃ only, Setup.prepare t o.path o.config = .ok s ∧
      parseRules o.rules = .ok only ∧ Fixer.ofDefaults s.defaults only = .ok fx := by
  constructor
  · intro h
    unfold prepareFix at h
    cases hsetup : Setup.prepare t o.path o.config with
    | error e => simp [hsetup, bind, Except.bind] at h
    | ok s' =>
      cases honly : parseRules o.rules with
      | error e => simp [hsetup, honly, bind, Except.bind] at h
      | ok only =>
        cases hfx : Fixer.ofDefaults s'.defaults only with
        | error e => simp [hsetup, honly, hfx, bind, Except.bind] at h
        | ok fx' =>
          obtain ⟨rfl, rfl⟩ : s' = s ∧ fx' = fx := by
            simpa [hsetup, honly, hfx, bind, Except.bind, pure, Except.pure] using h
          exact ⟨only, rfl, rfl, hfx⟩
  · rintro ⟨only, hsetup, honly, hfx⟩
    simp [prepareFix, hsetup, honly, hfx, bind, Except.bind, pure, Except.pure]

/-- A dry run leaves the tree as it is, and so does a check. -/
theorem fix_dry_tree (hdry : o.writesNothing = true) : (fix o t).2 = t := by
  cases hs : prepareFix o t with
  | error e => simp [fix, hs]
  | ok x =>
    rw [fix_of_prepareFix hs, hdry]
    exact Fixer.snd_run_dry x.2 x.1.root x.1.defaults t

/-- The exit code of a check tells whether a listed file is not clean. -/
theorem fix_check_eq_ok {data : Json} {code : Int} (ho : o.check = true)
    (h : (fix o t).1 = .ok (data, code)) :
    ∃ s fx ps, prepareFix o t = .ok (s, fx) ∧
      Discovery.discover t s.root s.defaults.patterns s.defaults.exclude = .ok ps ∧
      ((code = 0 ∧ ∀ p ∈ ps, fx.Clean t p) ∨ (code = 1 ∧ ∃ p ∈ ps, ¬ fx.Clean t p)) := by
  have hdry : o.writesNothing = true := by simp [FixOptions.writesNothing, ho]
  cases hs : prepareFix o t with
  | error e => simp [fix, hs] at h
  | ok x =>
    obtain ⟨s, fx⟩ := x
    rw [fix_of_prepareFix hs, hdry, Fixer.run] at h
    cases hps : Discovery.discover t s.root s.defaults.patterns s.defaults.exclude with
    | error e => simp [hps, Except.map] at h
    | ok ps =>
      refine ⟨s, fx, ps, rfl, hps, ?_⟩
      simp only [hps, Fixer.runFiles_dry, Except.map, Except.ok.injEq, Prod.mk.injEq] at h
      have hpos := Fixer.changed_pos_iff fx s.root t ps
      by_cases hclean : ∀ p ∈ ps, fx.Clean t p
      · have hzero : ¬ ∃ p ∈ ps, ¬ fx.Clean t p := by simpa using hclean
        rw [← hpos] at hzero
        exact Or.inl ⟨by simp [← h.2, fixExitCode, hzero], hclean⟩
      · have hpending : ∃ p ∈ ps, ¬ fx.Clean t p := by simpa using hclean
        exact Or.inr ⟨by simp [← h.2, fixExitCode, ho, hpos.2 hpending], hpending⟩

/-- What a check that succeeds says of the command without it. -/
theorem writes_of_check {data : Json} {code : Int} (hcheck : o.check = true)
    (hdry : o.dryRun = false) (hparse : parse words = .ok (.fix o.unchecked))
    (h : (fix o t).1 = .ok (data, code)) :
    (code = 0 ∧ AppliesNothing words t) ∨
      (code = 1 ∧ (Applies words t ∨ FailsToWrite words t)) := by
  obtain ⟨s, fx, ps, hs, hps, hcode⟩ := fix_check_eq_ok hcheck h
  have hwrites : o.unchecked.writesNothing = false := by
    simp [FixOptions.writesNothing, FixOptions.unchecked, hdry]
  -- The command without the check prepares the same and goes through the same files.
  have hs' : prepareFix o.unchecked t = .ok (s, fx) := hs
  have hruns : ∀ r, Runs words t r ↔ (fx.runFiles s.root false ps t).1 = r := by
    intro r
    rw [runs_iff hparse hs', hwrites, Fixer.run, hps]
  rcases hcode with ⟨hzero, hclean⟩ | ⟨hone, hpending⟩
  · obtain ⟨only, -, -, hfx⟩ := prepareFix_eq_ok_iff.1 hs
    obtain ⟨res, hrun, hres⟩ :=
      Fixer.runFiles_clean (Fixer.accepted_of_ofDefaults hfx) s.root hclean
    exact Or.inl ⟨hzero, res, (hruns _).2 (by rw [hrun]), hres⟩
  · refine Or.inr ⟨hone, ?_⟩
    rcases Fixer.runFiles_pending s.root hpending with ⟨res, t', hrun, hres⟩ | ⟨e, t', hrun, he⟩
    · exact Or.inl ⟨res, (hruns _).2 (by rw [hrun]), hres⟩
    · exact Or.inr ⟨e, (hruns _).2 (by rw [hrun]), he⟩

/-- Checking a repository leaves it as it is. If the check succeeds, it exits with 1 exactly if the
same command without the check would apply a change or fail in writing one, and with 0 exactly if
that command would succeed and apply none. -/
theorem check_is_exact (t : Tree) (hdry : "--dry-run" ∉ pre ++ post) :
    let check := "fix" :: (pre ++ "--check" :: post)
    let original := "fix" :: (pre ++ post)
    (run check t).2 = t ∧
      ((run check t).1.ReportsSuccess →
        ((run check t).1.exitCode = 1 ↔ Applies original t ∨ FailsToWrite original t) ∧
        ((run check t).1.exitCode = 0 ↔ AppliesNothing original t)) := by
  intro check original
  cases hparse : parse check with
  | error e =>
    -- Without a request no result is printed, so no success is reported.
    have hnone : run check t = (⟨2, ""⟩, t) := by simp only [run, hparse]
    rw [hnone]
    exact ⟨rfl, fun h => absurd h (Reply.not_reportsSuccess_of_head (by simp))⟩
  | ok request =>
    rcases parse_fix_cases hparse with rfl | ⟨o, rfl⟩
    · have hhelp : run check t = (⟨0, helpText⟩, t) := by simp only [run, hparse, answer]
      obtain ⟨s, hs⟩ := exists_helpText
      rw [hhelp, hs]
      exact ⟨rfl, fun h => absurd h (Reply.not_reportsSuccess_of_head (by simp))⟩
    · have hfix : run check t = (Reply.ofResult (fix o t).1, (fix o t).2) := by
        simp only [run, hparse, answer]
      obtain ⟨hcheck, hdryRun, horiginal⟩ := parse_erase_check hdry hparse
      rw [hfix]
      refine ⟨fix_dry_tree (by simp [FixOptions.writesNothing, hcheck]), fun h => ?_⟩
      obtain ⟨data, code, hok⟩ := Reply.eq_ok_of_reportsSuccess h
      have hcases : (code = 0 ∧ AppliesNothing original t) ∨
          (code = 1 ∧ (Applies original t ∨ FailsToWrite original t)) :=
        writes_of_check hcheck hdryRun horiginal hok
      rw [hok]
      rcases hcases with ⟨rfl, hnothing⟩ | ⟨rfl, hwrites⟩
      · have hexit : (Reply.ofResult (.ok (data, 0))).exitCode = 0 := rfl
        simp [hexit, hnothing, hnothing.not_writes]
      · have hexit : (Reply.ofResult (.ok (data, 1))).exitCode = 1 := rfl
        have hsome : ¬ AppliesNothing original t := fun h => h.not_writes hwrites
        simp [hexit, hwrites, hsome]

end

/-- A repository without a configuration file. -/
theorem prepare_crowded :
    Setup.prepare Fixer.crowded (some ".") none = .ok ⟨⟨Path.dot⟩, ⟨{}, none⟩⟩ := by
  have hroot : resolveRoot Fixer.crowded (some ".") = .ok ⟨Path.dot⟩ := by
    have hdot : Path.ofString "." = ⟨Path.dot⟩ := rfl
    have hdir : Fixer.crowded.isDirectory ⟨Path.dot⟩ = true := by decide
    simp [resolveRoot, rootPath, hdot, hdir]
  have hload : Config.load Fixer.crowded ⟨Path.dot⟩ none = .ok ⟨{}, none⟩ := by
    have hmissing : Fixer.crowded.isFile (Config.filePath ⟨Path.dot⟩ none) = false := by decide
    simp [Config.load, hmissing]
  simp [Setup.prepare, hroot, hload, bind, Except.bind, pure, Except.pure]

theorem prepareFix_crowded :
    prepareFix { path := some ".", rules := ["truthy"], check := true } Fixer.crowded =
      .ok (⟨⟨Path.dot⟩, ⟨{}, none⟩⟩, Fixer.truthyOnly) := by
  have honly : parseRules ["truthy"] = .ok (some [.truthy]) := by cbv
  exact prepareFix_eq_ok_iff.2
    ⟨some [.truthy], prepare_crowded, honly, Fixer.ofDefaults_truthyOnly⟩

/-- A check that succeeds, of a playbook to fix whose temporary file has the name of another. -/
theorem check_is_exact_crowded :
    let check := "fix" :: (["--path", "."] ++ "--check" :: ["--rule", "truthy"])
    let original := "fix" :: (["--path", "."] ++ ["--rule", "truthy"])
    "--dry-run" ∉ ["--path", "."] ++ ["--rule", "truthy"] ∧
      (run check Fixer.crowded).2 = Fixer.crowded ∧
      (run check Fixer.crowded).1.ReportsSuccess ∧ (run check Fixer.crowded).1.exitCode = 1 ∧
      (Applies original Fixer.crowded ∨ FailsToWrite original Fixer.crowded) ∧
      ¬ AppliesNothing original Fixer.crowded := by
  intro check original
  have hdry : "--dry-run" ∉ ["--path", "."] ++ ["--rule", "truthy"] := by decide
  have hparse : parse check =
      .ok (.fix { path := some ".", rules := ["truthy"], check := true }) := by cbv
  have hrun : Fixer.truthyOnly.run ⟨Path.dot⟩ {} true Fixer.crowded =
      (.ok (Fixer.truthyOnly.resultOf ⟨Path.dot⟩ true
        [.report ⟨"playbooks/a.yml", true, false, { truthy := 1 }⟩]), Fixer.crowded) := by
    cbv
  have hreply : ∃ data, (run check Fixer.crowded).1 = ⟨1, Reply.print (.ok data)⟩ := by
    simp only [run, hparse, answer, fix_of_prepareFix prepareFix_crowded,
      FixOptions.writesNothing, Setup.defaults, Bool.or_true, hrun]
    exact ⟨_, rfl⟩
  obtain ⟨data, hdata⟩ := hreply
  obtain ⟨hsame, hexact⟩ := check_is_exact Fixer.crowded hdry
  have hsuccess : (run check Fixer.crowded).1.ReportsSuccess := ⟨data, by rw [hdata]⟩
  obtain ⟨hone, hzero⟩ := hexact hsuccess
  have hexit : (run check Fixer.crowded).1.exitCode = 1 := by rw [hdata]
  refine ⟨hdry, hsame, hsuccess, hexit, hone.1 hexit, fun hnothing => ?_⟩
  have hexit' := hzero.2 hnothing
  rw [hexit] at hexit'
  contradiction

end Command

end PlaybookTidy
