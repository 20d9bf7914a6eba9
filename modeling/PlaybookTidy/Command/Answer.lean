import PlaybookTidy.Command.Fix
import PlaybookTidy.Command.Rules

/-!
The answer to a command line: what is printed, the exit code, and the tree that is left.
-/

namespace PlaybookTidy.Command

def versionText : String := "ansible-lintfix 0.1.0\n"

def helpText : String := "Rewrite Ansible playbooks and roles to satisfy common ansible-lint rules

Usage: ansible-lintfix <COMMAND>

Commands:
  fix    Rewrite playbooks and role files in place
           --path <PATH>      Repository root (default: current directory)
           --config <CONFIG>  Config file (default: <root>/.ansible-lintfix.json when present)
           --rule <RULE>      Only run these rules: fqcn, truthy, names (repeatable)
           --dry-run          Report what would change without writing files
           --check            Like --dry-run, but exit 1 when any file needs fixing
  rules  Show the rewrite rules, FQCN table and file patterns in effect
           --path <PATH>      Repository root used to locate the config file
           --config <CONFIG>  Config file (default: <root>/.ansible-lintfix.json when present)
  help   Print this message
"

def answer [Regex.Compiler] (r : Request) (t : Tree) : Reply × Tree :=
  match r with
  | .version => (⟨0, versionText⟩, t)
  | .help => (⟨0, helpText⟩, t)
  | .fix o =>
    let (result, t) := fix o t
    (Reply.ofResult result, t)
  | .rules o => (Reply.ofResult (rules o t), t)

/-- Answers a command line. One that cannot be read exits with 2 and prints nothing. -/
def run [Regex.Compiler] (words : List String) (t : Tree) : Reply × Tree :=
  match parse words with
  | .error _ => (⟨2, ""⟩, t)
  | .ok r => answer r t

def Request.places : Request → Option (Option String × Option String)
  | .fix o => some (o.path, o.config)
  | .rules o => some (o.path, o.config)
  | .version | .help => none

def Request.configFile? (r : Request) (t : Tree) : Option Path :=
  r.places.map fun (path, config) =>
    Config.filePath (rootPath t path) (config.map Path.ofString)

/-- The files that a request reads once its configuration is known. -/
def Request.sources [Regex.Compiler] (r : Request) (t : Tree) : List Path :=
  match r with
  | .fix o =>
    match prepareFix o t with
    | .ok (s, _) =>
      ((Discovery.discover t s.root s.defaults.patterns s.defaults.exclude).toOption).getD []
    | .error _ => []
  | .rules _ | .version | .help => []

end PlaybookTidy.Command
