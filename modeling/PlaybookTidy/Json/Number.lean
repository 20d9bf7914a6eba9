import PlaybookTidy.Json.Token

/-!
Numbers in JSON text. An integer that fits a machine word stays exact; all else is a double, made
from the digits that fit a word and a power of ten.
-/

namespace PlaybookTidy.Json

def isDigit (c : Char) : Bool := '0' ≤ c && c ≤ '9'

def digitValue (c : Char) : Nat := c.toNat - 48

def maxWord : Nat := 0xFFFFFFFFFFFFFFFF

def maxExponent : Nat := 0x7FFFFFFF

/-- Adds digits to a number as long as it stays below a limit, and gives the digits left. -/
def takeDigits (limit n : Nat) : List Char → Nat × List Char
  | [] => (n, [])
  | c :: s =>
    if isDigit c && n * 10 + digitValue c ≤ limit then takeDigits limit (n * 10 + digitValue c) s
    else (n, c :: s)

def dropDigits (s : List Char) : List Char := s.dropWhile isDigit

def powerOfTen (n : Nat) : Float := Float.ofScientific 1 false n

/-- `n * 10 ^ e` as a double, in one step where the power is one, unless it is too large. -/
def scale? (n : Nat) (e : Int) : Option Float :=
  let f := Float.ofNat n
  if n = 0 then some 0
  else if 308 < e then none
  else if 0 ≤ e then
    let g := f * powerOfTen e.toNat
    if g.isInf then none else some g
  else if -308 ≤ e then some (f / powerOfTen (-e).toNat)
  else if -616 ≤ e then some (f / powerOfTen 308 / powerOfTen (-e - 308).toNat)
  else some 0

def signed (positive : Bool) (f : Float) : Found := .real (if positive then f else -f)

def scaled (positive : Bool) (n : Nat) (e : Int) : Reader Found := fun s =>
  match scale? n e with
  | some f => .ok (signed positive f, s)
  | none => .error ⟨.numberOutOfRange, s, 0⟩

def readExponent (positive : Bool) (n : Nat) (e : Int) : Reader Found := fun s =>
  let (up, s) := match s with
    | '+' :: s => (true, s)
    | '-' :: s => (false, s)
    | s => (true, s)
  match s with
  | [] => .error ⟨.endInValue, [], 0⟩
  | c :: _ =>
    if !isDigit c then .error ⟨.invalidNumber, s, 1⟩
    else
      let (x, r) := takeDigits maxExponent 0 s
      match r with
      | d :: r' =>
        if isDigit d then
          if n ≠ 0 && up then .error ⟨.numberOutOfRange, r', 0⟩
          else .ok (signed positive 0, dropDigits r')
        else scaled positive n (if up then e + x else e - x) r
      | [] => scaled positive n (if up then e + x else e - x) r

def isExponentLetter (c : Char) : Bool := c = 'e' || c = 'E'

def readOptionalExponent (positive : Bool) (n : Nat) (e : Int) : Reader Found := fun s =>
  match s with
  | c :: r => if isExponentLetter c then readExponent positive n e r else scaled positive n e s
  | [] => scaled positive n e s

def readFraction (positive : Bool) (n : Nat) (e : Int) : Reader Found := fun s =>
  match s with
  | [] => .error ⟨.endInValue, [], 0⟩
  | c :: _ =>
    if !isDigit c then .error ⟨.invalidNumber, s, 1⟩
    else
      let (m, r) := takeDigits maxWord n s
      readOptionalExponent positive m (e - (s.length - r.length : Nat)) (dropDigits r)

/-- The integer that digits and a sign make. A zero with a sign and what exceeds a word are doubles. -/
def integer (positive : Bool) (n : Nat) : Found :=
  if positive then .integer n
  else if 0 < n && n ≤ 0x8000000000000000 then .integer (-n)
  else .real (-(Float.ofNat n))

def readNumber (positive : Bool) : Reader Found := fun s =>
  match s with
  | [] => .error ⟨.endInValue, [], 0⟩
  | c :: r =>
    if !isDigit c then .error ⟨.invalidNumber, s, 1⟩
    else if c = '0' && r.head?.any isDigit then .error ⟨.invalidNumber, r, 1⟩
    else
      let (n, more) := if c = '0' then (0, r) else takeDigits maxWord 0 s
      let rest := dropDigits more
      let e := more.length - rest.length
      match rest with
      | '.' :: r => readFraction positive n e r
      | c :: r =>
        if isExponentLetter c then readExponent positive n e r
        else if e = 0 then .ok (integer positive n, rest)
        else scaled positive n e rest
      | [] => if e = 0 then .ok (integer positive n, rest) else scaled positive n e rest

/-- Passes over an exponent after its letter, whatever its size. -/
def skipExponent (s : List Char) : Except Stop (List Char) :=
  let s := match s with
    | '+' :: s => s
    | '-' :: s => s
    | s => s
  match s with
  | [] => .error ⟨.invalidNumber, [], 0⟩
  | c :: r => if isDigit c then .ok (dropDigits r) else .error ⟨.invalidNumber, s, 1⟩

def skipOptionalExponent (s : List Char) : Except Stop (List Char) :=
  match s with
  | c :: r => if isExponentLetter c then skipExponent r else .ok s
  | [] => .ok s

def skipNumber (s : List Char) : Except Stop (List Char) :=
  match s with
  | [] => .error ⟨.invalidNumber, [], 0⟩
  | c :: r =>
    if !isDigit c then .error ⟨.invalidNumber, s, 1⟩
    else if c = '0' && r.head?.any isDigit then .error ⟨.invalidNumber, r, 1⟩
    else
      match dropDigits s with
      | '.' :: r =>
        if r.head?.any isDigit then skipOptionalExponent (dropDigits r)
        else .error ⟨.invalidNumber, r, 1⟩
      | r => skipOptionalExponent r

end PlaybookTidy.Json
