import PlaybookTidy.Json.Basic

/-!
The text of a JSON value: two blanks for each level, a member or an item on each line, and nothing
escaped that may stand for itself.
-/

namespace PlaybookTidy.Json

def hexDigit (n : Nat) : Char := if n < 10 then Char.ofNat (48 + n) else Char.ofNat (87 + n)

/-- A character inside a string. Quotes, backslashes and controls are escaped. -/
def escapeChar (c : Char) : List Char :=
  match c with
  | '"' => ['\\', '"']
  | '\\' => ['\\', '\\']
  | '\x08' => ['\\', 'b']
  | '\x0c' => ['\\', 'f']
  | '\n' => ['\\', 'n']
  | '\r' => ['\\', 'r']
  | '\t' => ['\\', 't']
  | c =>
    if c.toNat < 0x20 then
      ['\\', 'u', '0', '0', hexDigit (c.toNat / 16), hexDigit (c.toNat % 16)]
    else [c]

def quoted (s : String) : List Char := '"' :: (s.toList.flatMap escapeChar ++ ['"'])

def newline (level : Nat) : List Char := '\n' :: List.replicate (2 * level) ' '

mutual

/-- The text of a value that stands at an indentation level. -/
def printAt (level : Nat) : Json → List Char
  | null => "null".toList
  | bool true => "true".toList
  | bool false => "false".toList
  | number n => (toString n).toList
  | string s => quoted s
  | array [] => ['[', ']']
  | array (v :: vs) =>
    '[' :: (newline (level + 1) ++ printAt (level + 1) v ++ printItems (level + 1) vs ++
      newline level ++ [']'])
  | object [] => ['\x7b', '\x7d']
  | object ((k, v) :: ms) =>
    '\x7b' :: (newline (level + 1) ++ quoted k ++ [':', ' '] ++ printAt (level + 1) v ++
      printMembers (level + 1) ms ++ newline level ++ ['\x7d'])

def printItems (level : Nat) : List Json → List Char
  | [] => []
  | v :: vs => ',' :: (newline level ++ printAt level v ++ printItems level vs)

def printMembers (level : Nat) : List (String × Json) → List Char
  | [] => []
  | (k, v) :: ms =>
    ',' :: (newline level ++ quoted k ++ [':', ' '] ++ printAt level v ++ printMembers level ms)

end

def print (v : Json) : String := String.ofList (printAt 0 v)

end PlaybookTidy.Json
