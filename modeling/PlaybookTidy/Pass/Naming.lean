import PlaybookTidy.Text.Line

/-!
The pass that capitalizes names. A handler is found by its name, so the names of tasks and handlers
and the references to handlers change in the same way.
-/

namespace PlaybookTidy.Naming

def patterns : List String :=
  ["(?mR)^([ \\t]*- name: )([a-z])", "(?mR)^([ \\t]+notify: )([a-z])"]

/-- Splits a line after the key that a name or a reference follows. References are indented, names
may stand at the margin. -/
def afterKey? (body : List Char) : Option (List Char × List Char) :=
  let indent := body.takeWhile Line.isIndent
  let rest := body.dropWhile Line.isIndent
  let nameKey := "- name: ".toList
  let notifyKey := "notify: ".toList
  match nameKey.isPrefixOf? rest with
  | some s => some (indent ++ nameKey, s)
  | none =>
    if indent = [] then none
    else (notifyKey.isPrefixOf? rest).map fun s => (indent ++ notifyKey, s)

/-- A name that begins with an ASCII lower-case letter gets the upper-case one. -/
def rewriteBody? (body : List Char) : Option (List Char) :=
  match afterKey? body with
  | some (lead, c :: s) => if c.isLower then some (lead ++ c.toUpper :: s) else none
  | _ => none

def rewrite (ls : List Line) : List Line × Nat := Line.rewriteEach rewriteBody? ls

end PlaybookTidy.Naming
