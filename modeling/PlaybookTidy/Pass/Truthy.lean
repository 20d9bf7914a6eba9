import PlaybookTidy.Text.Line
import PlaybookTidy.Text.WordChar

/-!
The pass that replaces `yes` and `no` by `true` and `false` where they are the plain value of an
indented key.
-/

namespace PlaybookTidy.Truthy

def patterns : List String :=
  ["(?mR)^([ \\t]+\\w+):[ \\t]+yes[ \\t]*$", "(?mR)^([ \\t]+\\w+):[ \\t]+no[ \\t]*$"]

/-- The value of a line after its key and the blanks before it; blanks may follow it. -/
def value? : List Char → Option (List Char)
  | 'y' :: 'e' :: 's' :: s => if s.all Line.isIndent then some "true".toList else none
  | 'n' :: 'o' :: s => if s.all Line.isIndent then some "false".toList else none
  | _ => none

/-- A line of indentation, a word, a colon, blanks and a value becomes the same key with the new
value, one blank between them. -/
def rewriteBody? (body : List Char) : Option (List Char) :=
  let indent := body.takeWhile Line.isIndent
  let rest := body.dropWhile Line.isIndent
  let word := rest.takeWhile Text.isWordChar
  match rest.dropWhile Text.isWordChar with
  | ':' :: s =>
    if indent = [] || word = [] || !(s.head?.any Line.isIndent) then none
    else (value? (s.dropWhile Line.isIndent)).map fun v => indent ++ word ++ [':', ' '] ++ v
  | _ => none

def rewrite (ls : List Line) : List Line × Nat := Line.rewriteEach rewriteBody? ls

end PlaybookTidy.Truthy
