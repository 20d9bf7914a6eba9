import PlaybookTidy.Glob.Match
import PlaybookTidy.Tree.Resolve

/-!
The paths in a tree that a pattern finds, component by component. A component without wildcards is
looked up by its name; others are compared with the names in a directory.
-/

namespace PlaybookTidy.Glob

inductive Segment
  | literal (name : Name)
  | anyDepth
  | wild (tokens : List Token)
  deriving DecidableEq, Repr

namespace Segment

def char? : Token → Option Char
  | .char c => some c
  | _ => none

def ofTokens (ts : List Token) : Segment :=
  match ts.mapM char? with
  | some name => literal name
  | none => if ts = [.anyDepth] then anyDepth else wild ts

def admits : Segment → Name → Bool
  | literal name, n => name = n
  | anyDepth, _ => true
  | wild ts, n => accepts ts n

/-- Neighbouring segments for any depth are one. -/
def collapse : List Segment → List Segment
  | anyDepth :: anyDepth :: ss => collapse (anyDepth :: ss)
  | s :: ss => s :: collapse ss
  | [] => []

end Segment

/-- A pattern made ready for looking up paths. -/
structure Search where
  /-- The root or the current directory. -/
  start : Path
  segments : List Segment
  /-- Only directories are wanted. -/
  directoriesOnly : Bool
  deriving DecidableEq, Repr

/-- The pieces of a pattern that its slashes end or separate. -/
def pieces (s : List Char) : List Name :=
  let ps := Text.splitOn '/' s
  if ps.getLast? = some [] then ps.dropLast else ps

/-- Reads a pattern. First the whole text has to be a pattern, then each of its components. -/
def Search.parse (s : List Char) : Except PatternError Search := do
  let _ ← Glob.parse s
  let absolute := s.head? = some '/'
  let components := if s = ['/'] then [[]] else pieces (if absolute then s.drop 1 else s)
  let segments ← components.mapM fun c => (Glob.parse c).map Segment.ofTokens
  return {
    start := ⟨if absolute then ['/'] else Path.dot⟩
    segments := Segment.collapse segments
    directoriesOnly := s.getLast? = some '/' }

/-- The path of a name in a directory. The current directory is not written. -/
def child (p : Path) (n : Name) : Path := if p.isHere then ⟨n⟩ else p.join ⟨n⟩

/-- The paths below a directory, a directory before what it contains, as far as `visit` takes them. -/
def below (t : Tree) (visit : Path → Name → List Path) : Nat → Path → List Path
  | 0, _ => []
  | fuel + 1, p =>
    if t.isDirectory p then
      (t.namesAt p).flatMap fun n => visit (child p n) n ++ below t visit fuel (child p n)
    else []

/-- The two entries of each directory that lead to it and to the one above. They are found only by
a component that begins with a dot. -/
def dotEntries : List Token → List Name
  | .char '.' :: ts => [Path.dotDot, Path.dot].filter (accepts (.char '.' :: ts))
  | _ => []

def expand (t : Tree) (directoriesOnly : Bool) : List Segment → Path → List Path
  | [], p => if directoriesOnly && !t.isDirectory p then [] else [p]
  | .literal n :: ss, p =>
    let present :=
      if n = Path.dot || n = Path.dotDot then t.isDirectory p else t.contains (child p n)
    if present then expand t directoriesOnly ss (child p n) else []
  | .wild ts :: ss, p =>
    if t.isDirectory p then
      ((dotEntries ts).flatMap fun n => expand t directoriesOnly ss (p.join ⟨n⟩)) ++
      (t.namesAt p).flatMap fun n =>
        if accepts ts n then expand t directoriesOnly ss (child p n) else []
    else []
  | [.anyDepth], p =>
    below t (fun q _ => if t.isDirectory q then [q] else []) (t.depth + 1) p
  | .anyDepth :: s :: ss, p =>
    below t (fun q n => if s.admits n then expand t directoriesOnly ss q else []) (t.depth + 1) p

def Search.run (s : Search) (t : Tree) : List Path :=
  expand t s.directoriesOnly s.segments s.start

end PlaybookTidy.Glob
