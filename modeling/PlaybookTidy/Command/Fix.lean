import PlaybookTidy.Command.Arguments
import PlaybookTidy.Command.Setup
import PlaybookTidy.Report

/-!
The command that fixes the files of a repository, or shows what it would fix.
-/

namespace PlaybookTidy.Command

/-- The names in the values of the rule option. Commas separate names, and white space around one
does not count. -/
def ruleNames (values : List String) : List String :=
  values.flatMap fun v => (Text.splitOn ',' v.toList).map fun n => Text.trim (String.ofList n)

/-- The rules that a selection names, or the first name of no rule. Without a value there is no
selection. -/
def parseRules (values : List String) : Except Failure (Option (List Rule)) :=
  if values = [] then .ok none else ((ruleNames values).mapM Rule.ofId).map some

def hintsFor (r : FixResult) (check : Bool) : List String :=
  (if r.summary.total = 0 then
    ["No files matched. Run from the repository root or pass --path."] else []) ++
  (if r.dryRun && 0 < r.summary.changed then
    [toString r.summary.changed ++ " file(s) " ++ (if check then "need" else "would need") ++
      " fixing. Run 'ansible-lintfix fix' to apply."] else []) ++
  (if r.skipped = [] then [] else
    [toString r.skipped.length ++
      " file(s) could not be read as UTF-8 text and were skipped."])

def prepareFix [Regex.Compiler] (o : FixOptions) (t : Tree) : Except Failure (Setup × Fixer) := do
  let s ← Setup.prepare t o.path o.config
  let only ← parseRules o.rules
  return (s, ← Fixer.ofDefaults s.defaults only)

/-- A check writes no more than a dry run. -/
def FixOptions.writesNothing (o : FixOptions) : Bool := o.dryRun || o.check

/-- A check fails if a file needs fixing. -/
def fixExitCode (o : FixOptions) (r : FixResult) : Int :=
  if o.check && 0 < r.summary.changed then 1 else 0

def fixData (o : FixOptions) (s : Setup) (r : FixResult) : Json :=
  .object ([("command", .string "fix")] ++ s.configMember ++ r.members ++
    Json.optionalList "hints" ((hintsFor r o.check).map .string))

def fix [Regex.Compiler] (o : FixOptions) (t : Tree) : Except Failure (Json × Int) × Tree :=
  match prepareFix o t with
  | .error e => (.error e, t)
  | .ok (s, fx) =>
    match fx.run s.root s.defaults o.writesNothing t with
    | (.error e, t) => (.error e, t)
    | (.ok r, t) => (.ok (fixData o s r, fixExitCode o r), t)

end PlaybookTidy.Command
