import PlaybookTidy.Command.Reply
import PlaybookTidy.Config.Load

/-!
What every command begins with: the root of the repository and its configuration.
-/

namespace PlaybookTidy.Command

/-- The root that is asked for, else the working directory. -/
def rootPath (t : Tree) (path : Option String) : Path := (path.map Path.ofString).getD t.workingPath

/-- The root of the repository, which has to be a directory. -/
def resolveRoot (t : Tree) (path : Option String) : Except Failure Path :=
  let root := rootPath t path
  if t.isDirectory root then .ok root else .error (Failure.notADirectory (toString root))

structure Setup where
  root : Path
  loaded : Config.Loaded

def Setup.prepare (t : Tree) (path config : Option String) : Except Failure Setup := do
  let root ← resolveRoot t path
  return ⟨root, ← Config.load t root (config.map Path.ofString)⟩

def Setup.defaults (s : Setup) : Defaults := s.loaded.defaults

/-- The configuration file as results name it, if there is one. -/
def Setup.configMember (s : Setup) : List (String × Json) :=
  Json.optional "config" (s.loaded.path.map fun p => .string (toString p))

end PlaybookTidy.Command
