import PlaybookTidy.Failure

/-!
Regular expressions. What the passes find is written out in their own modules; what is left here is
that a pattern has to be compiled, and that the library refuses one that gets too large. How large a
pattern gets and how large it may get are up to the library, so both are parameters.
-/

namespace PlaybookTidy.Regex

/-- A library that compiles patterns: the bytes that a compiled pattern takes, and the bytes that it
may take. -/
class Compiler where
  size : String → Nat
  sizeLimit : Nat

/-- The library in use allows ten mebibytes, and takes 32 bytes for each character of a pattern of
letters. -/
instance defaultCompiler : Compiler where
  size pattern := 32 * pattern.length
  sizeLimit := 10 * (1024 * 1024)

def isSpecial (c : Char) : Bool := c ∈ "\\.+*?()|[]\x7b\x7d^$#&-~".toList

/-- A pattern for the text itself. -/
def escape (s : String) : String :=
  String.ofList (s.toList.flatMap fun c => if isSpecial c then ['\\', c] else [c])

variable [Compiler]

/-- What the library says against a pattern that it does not compile. -/
def refusal? (pattern : String) : Option String :=
  if Compiler.sizeLimit < Compiler.size pattern then
    some ("Compiled regex exceeds size limit of " ++ toString Compiler.sizeLimit ++ " bytes.")
  else none

def fault? (pattern : String) : Option Failure :=
  (refusal? pattern).map fun e => { cause := .unexpected ("compile " ++ pattern ++ ": " ++ e) }

end PlaybookTidy.Regex
