import PlaybookTidy.Decimal.Shortest
import PlaybookTidy.Text.Quoted
import PlaybookTidy.Text.Split

/-!
What can be wrong with a JSON text, and where. Positions count lines from one and bytes within a
line.
-/

namespace PlaybookTidy.Json

/-- A line, counted from one, and the bytes of it that lie behind. -/
structure Position where
  line : Nat := 1
  column : Nat := 0
  deriving DecidableEq, Repr

namespace Position

def after (p : Position) (c : Char) : Position :=
  if c = '\n' then ⟨p.line + 1, 0⟩ else ⟨p.line, p.column + c.utf8Size⟩

/-- The position `n` bytes into a text. It may lie inside a character. -/
def advance (p : Position) (n : Nat) : List Char → Position
  | [] => p
  | c :: s =>
    if c.utf8Size ≤ n then (p.after c).advance (n - c.utf8Size) s
    else { p with column := p.column + n }

end Position

inductive Found
  | null
  | bool (b : Bool)
  | integer (n : Int)
  | real (f : Float)
  | string (s : String)
  | sequence
  | map

def Found.text : Found → String
  | null => "null"
  | bool b => "boolean `" ++ toString b ++ "`"
  | integer n => "integer `" ++ toString n ++ "`"
  | real f => "floating point `" ++ Decimal.print f ++ "`"
  | string s => "string " ++ Text.quote s
  | sequence => "sequence"
  | map => "map"

inductive Problem
  | endInList
  | endInObject
  | endInString
  | endInValue
  | missingColon
  | missingListComma
  | missingObjectComma
  | brokenLiteral
  | missingValue
  | invalidEscape
  | invalidNumber
  | numberOutOfRange
  | controlCharacter
  | keyNotString
  | loneSurrogate
  | unpairedSurrogate
  | tooDeep
  | trailingComma
  | trailingCharacters
  | wrongType (found : Found) (wanted : String)
  | unknownVariant (name : String) (known : List String)
  | duplicateField (name : String)

def Problem.text : Problem → String
  | endInList => "EOF while parsing a list"
  | endInObject => "EOF while parsing an object"
  | endInString => "EOF while parsing a string"
  | endInValue => "EOF while parsing a value"
  | missingColon => "expected `:`"
  | missingListComma => "expected `,` or `]`"
  | missingObjectComma => "expected `,` or `\x7d`"
  | brokenLiteral => "expected ident"
  | missingValue => "expected value"
  | invalidEscape => "invalid escape"
  | invalidNumber => "invalid number"
  | numberOutOfRange => "number out of range"
  | controlCharacter => "control character (\\u0000-\\u001F) found while parsing a string"
  | keyNotString => "key must be a string"
  | loneSurrogate => "lone leading surrogate in hex escape"
  | unpairedSurrogate => "unexpected end of hex escape"
  | tooDeep => "recursion limit exceeded"
  | trailingComma => "trailing comma"
  | trailingCharacters => "trailing characters"
  | wrongType found wanted => "invalid type: " ++ found.text ++ ", expected " ++ wanted
  | unknownVariant name known =>
    "unknown variant `" ++ name ++ "`, expected one of " ++
      ", ".intercalate (known.map fun k => "`" ++ k ++ "`")
  | duplicateField name => "duplicate field `" ++ name ++ "`"

/-- Where reading stopped and why: `ahead` bytes into what was left to read. -/
structure Stop where
  problem : Problem
  rest : List Char
  ahead : Nat := 0

def Stop.position (e : Stop) (text : List Char) : Position :=
  ({} : Position).advance (Text.byteLength text - Text.byteLength e.rest + e.ahead) text

def Stop.text (e : Stop) (text : List Char) : String :=
  let p := e.position text
  e.problem.text ++ " at line " ++ toString p.line ++ " column " ++ toString p.column

end PlaybookTidy.Json
