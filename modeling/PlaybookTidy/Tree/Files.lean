import PlaybookTidy.Failure
import PlaybookTidy.Tree.Resolve

/-!
Reading a text file, and replacing one as a whole: the new content is written beside the file and
then takes its name, so that a failure leaves the old content.

Creating and renaming fail here for what the tree is like, and then change nothing. Faults after a
file was created are not modelled, such as a full disk, which would leave a part of the temporary
file behind; neither are permissions, symbolic links, and other programs that change the tree.
-/

namespace PlaybookTidy

def IoError.toFailure (e : IoError) (operation : String) : Failure :=
  { cause := .io e.text (some operation) }

namespace Tree

def textFile (s : String) : Entry := .file s.toUTF8

/-- The bytes of a text read back as the text. -/
theorem fromUTF8?_toUTF8 (s : String) : String.fromUTF8? s.toUTF8 = some s := by
  simp only [String.fromUTF8?, String.toUTF8_eq_toByteArray, dif_pos s.isValidUTF8]
  rfl

def readText (t : Tree) (p : Path) : Except IoError String := do
  match t.get? (← t.resolve p) with
  | none => .error .notFound
  | some .directory => .error .isDirectory
  | some (.file content) =>
    match String.fromUTF8? content with
    | some s => .ok s
    | none => .error .notText

def read (t : Tree) (p : Path) (operation : String) : Except Failure String :=
  (t.readText p).mapError fun e => e.toFailure operation

/-- Writes a file whose directory exists, and gives its location. -/
def create (t : Tree) (p : Path) (content : String) : Except IoError (Location × Tree) := do
  let pieces := Text.splitOn '/' p.text
  let l := (← t.resolveParent p pieces) ++ [pieces.getLastD []]
  if Text.byteLength (pieces.getLastD []) > maxNameLength then .error .nameTooLong
  else if t.get? l = some .directory then .error .isDirectory
  else .ok (l, t.set l (textFile content))

/-- Gives the file at `l` the name that `p` says, in the place of a file that has it. -/
def rename (t : Tree) (l : Location) (p : Path) : Except IoError Tree := do
  let pieces := Text.splitOn '/' p.text
  let named := Text.dropEndWhile (· = []) pieces
  let last := named.getLastD []
  let target := (← t.resolveParent p named) ++ [last]
  if last = Path.dot || last = Path.dotDot then .error .busy
  else if pieces ≠ named then .error .notDirectory
  else
    match t.get? target, t.get? l with
    | some .directory, _ => .error .isDirectory
    | _, some e => .ok ((t.erase l).set target e)
    | _, none => .error .notFound

/-- The name under which new content of the file `n` is written. -/
def tempName (n : Name) : Name := '.' :: n ++ ".tmp".toList

/-- Replaces the content of a file as a whole, or leaves the tree as it was. -/
def writeAtomic (t : Tree) (p : Path) (content operation : String) :
    Except Failure Unit × Tree :=
  match p.splitName? with
  | none =>
    (.error { cause := .io ("Invalid path: " ++ toString p) (some operation) }, t)
  | some (dir, n) =>
    match t.create (dir.join ⟨tempName n⟩) content with
    | .error e => (.error (e.toFailure (operation ++ " (write temp)")), t)
    | .ok (l, t) =>
      match t.rename l p with
      | .error e => (.error (e.toFailure (operation ++ " (rename)")), t.erase l)
      | .ok t => (.ok (), t)

end Tree

end PlaybookTidy
