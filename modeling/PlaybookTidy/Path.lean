import PlaybookTidy.Text.Split

/-!
Paths as text. Two views of the text matter: the pieces between slashes, which are kept when text
is taken from a path, and the components, by which paths are compared.
-/

namespace PlaybookTidy

/-- The name of a file or directory, or any piece of text between slashes. -/
abbrev Name := List Char

structure Path where
  text : List Char
  deriving DecidableEq, Repr

inductive Component
  | root
  | here
  | up
  | name (n : Name)
  deriving DecidableEq, Repr

namespace Path

def ofString (s : String) : Path := ⟨s.toList⟩

instance : ToString Path := ⟨fun p => String.ofList p.text⟩

def joinPieces (ps : List Name) : List Char := ['/'].intercalate ps

def dot : Name := ['.']

def dotDot : Name := ['.', '.']

/-- Pieces that say nothing inside a path. -/
def isVoid (p : Name) : Bool := p = [] || p = dot

/-- The component that a piece stands for, if it says something. -/
def component? (p : Name) : Option Component :=
  if isVoid p then none else if p = dotDot then some .up else some (.name p)

/-- A path begins at the root, names the current directory first, or does neither. -/
inductive Lead
  | root
  | here
  | bare
  deriving DecidableEq, Repr

def parts (p : Path) : Lead × List Name :=
  match Text.splitOn '/' p.text with
  | [] => (.bare, [])
  | piece :: ps =>
    if p.text.head? = some '/' then (.root, ps)
    else if piece = dot then (.here, ps)
    else (.bare, piece :: ps)

def Lead.components : Lead → List Component
  | root => [.root]
  | here => [.here]
  | bare => []

/-- The components: repeated slashes are one, and a dot counts only in the first place. -/
def components (p : Path) : List Component :=
  let (lead, ps) := p.parts
  lead.components ++ ps.filterMap component?

def isAbsolute (p : Path) : Bool := p.text.head? = some '/'

/-- The path is the current directory, however it is written. -/
def isHere (p : Path) : Bool := p.components = [.here]

def Lead.attach (lead : Lead) (ps : List Name) : Path :=
  match lead with
  | root => ⟨'/' :: joinPieces ps⟩
  | here => ⟨joinPieces (dot :: ps)⟩
  | bare => ⟨joinPieces ps⟩

/-- Puts a path after another one. An absolute path stands for itself. -/
def join (p q : Path) : Path :=
  if q.isAbsolute then q
  else if p.text = [] || p.text.getLast? = some '/' then ⟨p.text ++ q.text⟩
  else ⟨p.text ++ '/' :: q.text⟩

def dropComponents : Nat → List Name → List Name
  | 0, ps => ps
  | _ + 1, [] => []
  | n + 1, p :: ps => if isVoid p then dropComponents (n + 1) ps else dropComponents n ps

/-- The text of `p` after the components of `root`, if `p` begins with them. -/
def below? (root p : Path) : Option Path :=
  let (lead, ps) := p.parts
  if root.components.isPrefixOf p.components then
    if root.components = [] then some (lead.attach (Text.dropEndWhile isVoid ps))
    else
      let rest := dropComponents (root.components.length - lead.components.length) ps
      some ⟨joinPieces (Text.dropEndWhile isVoid (rest.dropWhile isVoid))⟩
  else none

/-- The path relative to a root, in the spelling of reports and exclude patterns. A path that is
not below the root is taken whole. -/
def relativeTo (p root : Path) : String :=
  String.ofList (((below? root p).getD p).text.map fun c => if c = '\\' then '/' else c)

def splitName? (p : Path) : Option (Path × Name) :=
  let (lead, ps) := p.parts
  let ps := Text.dropEndWhile isVoid ps
  match ps.getLast? with
  | none => none
  | some n =>
    if n = dotDot then none
    else some (lead.attach (Text.dropEndWhile isVoid ps.dropLast), n)

end Path

end PlaybookTidy
