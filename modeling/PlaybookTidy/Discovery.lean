import PlaybookTidy.Failure
import PlaybookTidy.Glob.Search

/-!
The files that patterns find below a root, each once, without those that are excluded.
-/

namespace PlaybookTidy.Discovery

def compileExcludes (exclude : List String) : Except Failure (List (List Glob.Token)) :=
  exclude.mapM fun e => (Glob.parse e.toList).mapError fun err =>
    Failure.invalidPattern e err.text

/-- A pattern below a root. Every character of the root stands for itself. -/
def rooted (root : Path) (pattern : String) : List Char :=
  Text.dropEndWhile (· = '/') (Glob.escape root.text) ++ '/' :: pattern.toList

def candidates (t : Tree) (root : Path) (pattern : String) : Except Failure (List Path) :=
  match Glob.Search.parse (rooted root pattern) with
  | .error err => .error (Failure.invalidPattern pattern err.text)
  | .ok s => .ok ((s.run t).filter t.isFile)

/-- An exclude pattern matches the path relative to the root. -/
def excluded (root : Path) (exclude : List (List Glob.Token)) (p : Path) : Bool :=
  exclude.any fun ts => Glob.accepts ts (p.relativeTo root).toList

/-- Adds a path unless it is there with the same components. -/
def addNew (found : List Path) (p : Path) : List Path :=
  if found.any fun q => q.components = p.components then found else found ++ [p]

def discover (t : Tree) (root : Path) (patterns exclude : List String) :
    Except Failure (List Path) := do
  let exclude ← compileExcludes exclude
  patterns.foldlM (fun found pattern => do
    let ps ← candidates t root pattern
    return (ps.filter fun p => !excluded root exclude p).foldl addNew found) []

end PlaybookTidy.Discovery
