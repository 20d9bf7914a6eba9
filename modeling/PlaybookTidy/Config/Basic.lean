import PlaybookTidy.ModuleTable
import PlaybookTidy.Rule

/-!
The settings of a repository, and the values that hold where nothing is configured.
-/

namespace PlaybookTidy

/-- What to look at and what to do there. A field that is not configured has its built-in value. -/
structure Defaults where
  /-- Which files to read, relative to the root. -/
  patterns : List String := ["playbooks/*.yml", "roles/*/tasks/*.yml", "roles/*/handlers/*.yml",
    "roles/*/defaults/*.yml"]
  /-- Which of these files to leave alone. -/
  exclude : List String := []
  rules : List Rule := Rule.all
  fqcn : Overrides := Overrides.empty
  deriving DecidableEq

namespace Defaults

def invalidPatterns (value : Option String) (problem : String) : Failure :=
  { cause := .invalidValue "defaults.patterns" value problem }

/-- A configuration needs a pattern, and none that is blank. -/
def check (d : Defaults) : Except Failure Unit :=
  if d.patterns = [] then
    .error (invalidPatterns none "At least one file pattern is required")
  else
    match d.patterns.find? Text.isBlankText with
    | some p => .error (invalidPatterns (some p) "File patterns must not be empty")
    | none => .ok ()

end Defaults

end PlaybookTidy
