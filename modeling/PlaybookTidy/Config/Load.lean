import PlaybookTidy.Config.Reader
import PlaybookTidy.Tree.Files

/-!
Finding the configuration of a repository. A file that is asked for has to be there; the one below
the root may be missing.
-/

namespace PlaybookTidy.Config

def fileName : String := ".ansible-lintfix.json"

structure Loaded where
  defaults : Defaults
  path : Option Path

def loadFile (t : Tree) (p : Path) : Except Failure Loaded := do
  let text ← t.read p ("read " ++ toString p)
  match parse text with
  | .error e => .error { cause := .invalidJson (toString p) e }
  | .ok d =>
    d.check
    return ⟨d, some p⟩

def filePath (root : Path) (asked : Option Path) : Path :=
  asked.getD (root.join (Path.ofString fileName))

/-- The configuration for a root: the file asked for, else the file below the root, else the
built-in settings. -/
def load (t : Tree) (root : Path) (asked : Option Path) : Except Failure Loaded :=
  let p := filePath root asked
  if t.isFile p then loadFile t p
  else if asked.isSome then .error (Failure.configNotFound (toString p))
  else .ok ⟨{}, none⟩

end PlaybookTidy.Config
