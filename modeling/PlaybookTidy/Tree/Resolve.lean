import PlaybookTidy.Tree.Basic

/-!
Where a path leads in a tree. A path is walked piece by piece; each piece needs a directory to
start from, even one that says nothing. The errors are those that the tree and the text of a path
determine; permissions and links add none.
-/

namespace PlaybookTidy

inductive IoError
  | notFound
  | busy
  | notDirectory
  | isDirectory
  | nameTooLong
  | nulByte
  | notText
  deriving DecidableEq, Repr

def IoError.text : IoError → String
  | notFound => "No such file or directory (os error 2)"
  | busy => "Device or resource busy (os error 16)"
  | notDirectory => "Not a directory (os error 20)"
  | isDirectory => "Is a directory (os error 21)"
  | nameTooLong => "File name too long (os error 36)"
  | nulByte => "file name contained an unexpected NUL byte"
  | notText => "stream did not contain valid UTF-8"

namespace Tree

/-- The longest name, in bytes. -/
def maxNameLength : Nat := 255

/-- The longest path, in bytes. -/
def maxPathLength : Nat := 4095

def walk (t : Tree) (l : Location) : List Name → Except IoError Location
  | [] => .ok l
  | n :: ns =>
    match t.get? l with
    | none => .error .notFound
    | some (.file _) => .error .notDirectory
    | some .directory =>
      if Path.isVoid n then t.walk l ns
      else if n = Path.dotDot then t.walk l.dropLast ns
      else if Text.byteLength n > maxNameLength then .error .nameTooLong
      else if (t.get? (l ++ [n])).isNone then .error .notFound
      else t.walk (l ++ [n]) ns

/-- Texts that no file system takes for a path. -/
def checkPath (p : Path) : Except IoError Unit :=
  if '\x00' ∈ p.text then .error .nulByte
  else if p.text = [] then .error .notFound
  else if Text.byteLength p.text > maxPathLength then .error .nameTooLong
  else .ok ()

def start (t : Tree) (p : Path) : Location := if p.isAbsolute then [] else t.workingDirectory

def resolve (t : Tree) (p : Path) : Except IoError Location := do
  checkPath p
  t.walk (t.start p) (Text.splitOn '/' p.text)

/-- The directory in which the last piece of a path is looked up. -/
def resolveParent (t : Tree) (p : Path) (pieces : List Name) : Except IoError Location := do
  checkPath p
  t.walk (t.start p) (pieces.dropLast ++ [[]])

def entry? (t : Tree) (p : Path) : Option Entry :=
  match t.resolve p with
  | .ok l => t.get? l
  | .error _ => none

def contains (t : Tree) (p : Path) : Bool := (t.entry? p).isSome

def isDirectory (t : Tree) (p : Path) : Bool := t.entry? p = some .directory

def isFile (t : Tree) (p : Path) : Bool :=
  match t.entry? p with
  | some (.file _) => true
  | _ => false

def namesAt (t : Tree) (p : Path) : List Name :=
  match t.resolve p with
  | .ok l => t.names l
  | .error _ => []

end Tree

end PlaybookTidy
