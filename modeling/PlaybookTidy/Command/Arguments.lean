import PlaybookTidy.Path

/-!
The command line: which command is asked for, and with which options.
-/

namespace PlaybookTidy.Command

inductive UsageError
  | noCommand
  | unknownCommand (word : String)
  | unexpected (word : String)
  | missingValue (option : String)
  | unneededValue (option : String)
  | repeated (option : String)
  deriving DecidableEq, Repr

def UsageError.text : UsageError → String
  | noCommand => "a command is required"
  | unknownCommand word => "unrecognized command '" ++ word ++ "'"
  | unexpected word => "unexpected argument '" ++ word ++ "'"
  | missingValue option => "a value is required for '" ++ option ++ "'"
  | unneededValue option => "a flag takes no value: '" ++ option ++ "'"
  | repeated option => "'" ++ option ++ "' cannot be used several times"

structure FixOptions where
  path : Option String := none
  config : Option String := none
  /-- The values of the rule option, in the order in which they are given. -/
  rules : List String := []
  dryRun : Bool := false
  check : Bool := false
  deriving DecidableEq, Repr

structure RulesOptions where
  path : Option String := none
  config : Option String := none
  deriving DecidableEq, Repr

inductive Request
  | version
  | help
  | fix (options : FixOptions)
  | rules (options : RulesOptions)
  deriving DecidableEq, Repr

/-- How an option is given: as a flag that sets something once, or with a value. -/
inductive Setter (σ : Type)
  | flag (isSet : σ → Bool) (set : σ → σ)
  | value (isSet : σ → Bool) (set : String → σ → σ)

/-- The options of a command by their names. -/
abbrev Grammar (σ : Type) := String → Option (Setter σ)

def fixGrammar : Grammar FixOptions
  | "path" => some (.value (·.path.isSome) fun v o => { o with path := some v })
  | "config" => some (.value (·.config.isSome) fun v o => { o with config := some v })
  | "rule" => some (.value (fun _ => false) fun v o => { o with rules := o.rules ++ [v] })
  | "dry-run" => some (.flag FixOptions.dryRun fun o => { o with dryRun := true })
  | "check" => some (.flag FixOptions.check fun o => { o with check := true })
  | _ => none

def rulesGrammar : Grammar RulesOptions
  | "path" => some (.value (·.path.isSome) fun v o => { o with path := some v })
  | "config" => some (.value (·.config.isSome) fun v o => { o with config := some v })
  | _ => none

/-- An argument as it looks by itself. -/
inductive Shape
  /-- Two hyphens and nothing more: no option follows. -/
  | separator
  /-- A long option, and the value attached to it. -/
  | long (name : String) (value : Option String)
  /-- Short options. -/
  | short (letters : List Char)
  | plain

def Shape.of (word : String) : Shape :=
  match word.toList with
  | ['-', '-'] => separator
  | '-' :: '-' :: s =>
    match s.dropWhile (· ≠ '=') with
    | '=' :: v => long (String.ofList (s.takeWhile (· ≠ '='))) (some (String.ofList v))
    | _ => long (String.ofList s) none
  | '-' :: c :: s => short (c :: s)
  | _ => plain

/-- Reads the options of a command; `none` is a request for help. -/
def readOptions {σ : Type} (g : Grammar σ) : List String → σ → Except UsageError (Option σ)
  | [], o => .ok (some o)
  | word :: words, o =>
    match Shape.of word with
    | .separator =>
      match words with
      | [] => .ok (some o)
      | w :: _ => .error (.unexpected w)
    | .plain => .error (.unexpected word)
    | .short letters => if letters.head? = some 'h' then .ok none else .error (.unexpected word)
    | .long name attached =>
      match g name with
      | none => if name = "help" && attached.isNone then .ok none else .error (.unexpected word)
      | some (.flag isSet set) =>
        if attached.isSome then .error (.unneededValue word)
        else if isSet o then .error (.repeated word)
        else readOptions g words (set o)
      | some (.value isSet set) =>
        match attached, words with
        | some v, words =>
          if isSet o then .error (.repeated word) else readOptions g words (set v o)
        | none, v :: words =>
          match Shape.of v with
          | .plain => if isSet o then .error (.repeated word) else readOptions g words (set v o)
          | _ => .error (.missingValue word)
        | none, [] => .error (.missingValue word)

/-- The words after a request for help may name one command. -/
def helpRequest : List String → Except UsageError Request
  | [] => .ok .help
  | [word] => if word ∈ ["fix", "rules", "help"] then .ok .help else .error (.unknownCommand word)
  | _ :: word :: _ => .error (.unknownCommand word)

def parse : List String → Except UsageError Request
  | [] => .error .noCommand
  | "fix" :: words => (readOptions fixGrammar words {}).map fun o => o.elim .help .fix
  | "rules" :: words => (readOptions rulesGrammar words {}).map fun o => o.elim .help .rules
  | "help" :: words => helpRequest words
  | word :: _ =>
    match Shape.of word with
    | .long "version" none => .ok .version
    | .long "help" none => .ok .help
    | .short (c :: _) =>
      if c = 'V' then .ok .version else if c = 'h' then .ok .help else .error (.unexpected word)
    | .plain => .error (.unknownCommand word)
    | _ => .error (.unexpected word)

end PlaybookTidy.Command
