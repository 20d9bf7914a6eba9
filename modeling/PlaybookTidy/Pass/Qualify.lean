import PlaybookTidy.ModuleTable
import PlaybookTidy.Regex
import PlaybookTidy.Text.Line

/-!
The pass that replaces short module names by fully-qualified ones. A name is replaced where it is
an indented key that stands alone on its line. Names are literal text of any kind: one that holds
line ends is found across lines.
-/

namespace PlaybookTidy.Qualify

def pattern (name : String) : String := "(?mR)^([ \\t]+)" ++ Regex.escape name ++ ":$"

/-- The lines that make up `name` as a key. -/
def keyLines (name : String) : List Line := Line.split (name.toList ++ [':'])

/-- How the lines `key` end in the text that begins with them. The last line may end in any way. -/
def spelled? : List Line → List Line → Option Ending
  | [k], l :: _ => if l.body = k.body then some l.ending else none
  | k :: ks, l :: ls => if l = k then spelled? ks ls else none
  | _, _ => none

/-- The indentation before a key with which the text begins, and how the key's last line ends. -/
def find? (key : List Line) : List Line → Option (List Char × Ending)
  | [] => none
  | l :: ls =>
    let n := l.body.length - (key.head?.elim 0 fun k => k.body.length)
    let indent := l.body.take n
    if indent = [] || !indent.all Line.isIndent then none
    else (spelled? key ({ l with body := l.body.drop n } :: ls)).map fun e => (indent, e)

/-- The lines of a text, the last one with the given ending. -/
def splitEnding (s : List Char) (e : Ending) : List Line :=
  let ls := Line.split s
  ls.dropLast ++ (ls.getLast?.map fun l => { l with ending := e }).toList

/-- Puts `name` for each key found, from the line after the next `skip` lines on. -/
def rewriteKey (key : List Line) (name : List Char) : Nat → List Line → List Line × Nat
  | _, [] => ([], 0)
  | skip + 1, _ :: ls => rewriteKey key name skip ls
  | 0, l :: ls =>
    match find? key (l :: ls) with
    | none =>
      let (out, n) := rewriteKey key name 0 ls
      (l :: out, n)
    | some (indent, e) =>
      let (out, n) := rewriteKey key name (key.length - 1) ls
      (splitEnding (indent ++ name ++ [':']) e ++ out, n + 1)

def rewriteRow (m : ModuleName) (ls : List Line) : List Line × Nat :=
  rewriteKey (keyLines m.short) m.fqcn.toList 0 ls

/-- The rows in their order, each applied to what the one before it wrote. -/
def rewrite (rows : List ModuleName) (ls : List Line) : List Line × Nat :=
  rows.foldl (fun (ls, n) m =>
    let (out, k) := rewriteRow m ls
    (out, n + k)) (ls, 0)

end PlaybookTidy.Qualify
