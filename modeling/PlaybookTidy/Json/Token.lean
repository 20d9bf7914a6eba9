import PlaybookTidy.Json.Problem

/-!
The tokens of JSON: literals, strings and numbers. A reader takes a text and gives what it read and
the rest.
-/

namespace PlaybookTidy.Json

abbrev Reader (α : Type) := List Char → Except Stop (α × List Char)

def isSpace (c : Char) : Bool := c = ' ' || c = '\n' || c = '\t' || c = '\r'

def dropSpace (s : List Char) : List Char := s.dropWhile isSpace

def readLiteral : List Char → Reader Unit
  | [], s => .ok ((), s)
  | _ :: _, [] => .error ⟨.endInValue, [], 0⟩
  | l :: ls, c :: s => if c = l then readLiteral ls s else .error ⟨.brokenLiteral, c :: s, 1⟩

def hexValue? (c : Char) : Option Nat :=
  if '0' ≤ c && c ≤ '9' then some (c.toNat - 48)
  else if 'a' ≤ c && c ≤ 'f' then some (c.toNat - 87)
  else if 'A' ≤ c && c ≤ 'F' then some (c.toNat - 55)
  else none

/-- The number that four hexadecimal digits make, and the rest. -/
def readHex : Reader Nat := fun s =>
  let broken := if Text.byteLength s < 4 then ⟨.endInString, [], 0⟩ else ⟨.invalidEscape, s, 4⟩
  match s with
  | a :: b :: c :: d :: r =>
    match hexValue? a, hexValue? b, hexValue? c, hexValue? d with
    | some a, some b, some c, some d => .ok (((a * 16 + b) * 16 + c) * 16 + d, r)
    | _, _, _, _ => .error broken
  | _ => .error broken

def isLeading (n : Nat) : Bool := 0xD800 ≤ n && n ≤ 0xDBFF

def isTrailing (n : Nat) : Bool := 0xDC00 ≤ n && n ≤ 0xDFFF

def letterEscape? : Char → Option Char
  | '"' => some '"'
  | '\\' => some '\\'
  | '/' => some '/'
  | 'b' => some '\x08'
  | 'f' => some '\x0c'
  | 'n' => some '\n'
  | 'r' => some '\r'
  | 't' => some '\t'
  | _ => none

/-- Reads the escape of the second half of a surrogate pair. -/
def readTrailing : Reader Nat
  | [] | ['\\'] => .error ⟨.endInString, [], 0⟩
  | '\\' :: 'u' :: s =>
    match readHex s with
    | .error e => .error e
    | .ok (n, r) => if isTrailing n then .ok (n, r) else .error ⟨.loneSurrogate, r, 0⟩
  | '\\' :: s => .error ⟨.unpairedSurrogate, s, 1⟩
  | s => .error ⟨.unpairedSurrogate, s, 1⟩

def readEscape : Reader Char
  | [] => .error ⟨.endInString, [], 0⟩
  | 'u' :: s =>
    match readHex s with
    | .error e => .error e
    | .ok (n, r) =>
      if isTrailing n then .error ⟨.loneSurrogate, r, 0⟩
      else if isLeading n then
        match readTrailing r with
        | .error e => .error e
        | .ok (m, r) => .ok (Char.ofNat (0x10000 + (n - 0xD800) * 0x400 + (m - 0xDC00)), r)
      else .ok (Char.ofNat n, r)
  | c :: s =>
    match letterEscape? c with
    | some e => .ok (e, s)
    | none => .error ⟨.invalidEscape, c :: s, 1⟩

theorem length_readHex {s r : List Char} {n : Nat} (h : readHex s = .ok (n, r)) :
    r.length < s.length := by
  unfold readHex at h
  grind

theorem length_readTrailing {s r : List Char} {n : Nat} (h : readTrailing s = .ok (n, r)) :
    r.length < s.length := by
  unfold readTrailing at h
  grind [→ length_readHex]

/-- An escape takes at least a character, so reading a string comes to an end. -/
theorem length_readEscape {s r : List Char} {c : Char} (h : readEscape s = .ok (c, r)) :
    r.length < s.length := by
  unfold readEscape at h
  grind [→ length_readHex, → length_readTrailing]

/-- Reads a string after its opening quote; `held` are the characters so far, the last one first. -/
def readChars (held s : List Char) : Except Stop (String × List Char) :=
  match s with
  | [] => .error ⟨.endInString, [], 0⟩
  | '"' :: s => .ok (String.ofList held.reverse, s)
  | '\\' :: s =>
    match h : readEscape s with
    | .error e => .error e
    | .ok (c, r) =>
      have := length_readEscape h
      readChars (c :: held) r
  | c :: s =>
    if c.toNat < 0x20 then .error ⟨.controlCharacter, s, 0⟩ else readChars (c :: held) s
  termination_by s.length

def readString : Reader String := readChars []

/-- Passes over the escape after a backslash. Its surrogates need not be paired. -/
def skipEscape : List Char → Except Stop (List Char)
  | [] => .error ⟨.endInString, [], 0⟩
  | 'u' :: s =>
    match readHex s with
    | .error e => .error e
    | .ok (_, r) => .ok r
  | c :: s =>
    match letterEscape? c with
    | some _ => .ok s
    | none => .error ⟨.invalidEscape, c :: s, 1⟩

theorem length_skipEscape {s r : List Char} (h : skipEscape s = .ok r) :
    r.length < s.length := by
  unfold skipEscape at h
  grind [→ length_readHex]

def skipString (s : List Char) : Except Stop (List Char) :=
  match s with
  | [] => .error ⟨.endInString, [], 0⟩
  | '"' :: s => .ok s
  | '\\' :: s =>
    match h : skipEscape s with
    | .error e => .error e
    | .ok r =>
      have := length_skipEscape h
      skipString r
  | c :: s => if c.toNat < 0x20 then .error ⟨.controlCharacter, c :: s, 0⟩ else skipString s
  termination_by s.length

end PlaybookTidy.Json
