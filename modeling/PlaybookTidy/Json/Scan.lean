import PlaybookTidy.Json.Number

/-!
Passing over a JSON value. With a limit on its depth a value is read as strictly as one that is
kept; without one only its form matters, and neither the size of a number nor the pairing of
surrogates does.
-/

namespace PlaybookTidy.Json

/-- Reads a value that is no list and no object, and says what it is. -/
def readScalar : Reader Found := fun s =>
  match s with
  | 'n' :: s => (readLiteral "ull".toList s).map fun x => (.null, x.2)
  | 't' :: s => (readLiteral "rue".toList s).map fun x => (.bool true, x.2)
  | 'f' :: s => (readLiteral "alse".toList s).map fun x => (.bool false, x.2)
  | '-' :: s => readNumber false s
  | '"' :: s => (readString s).map fun x => (.string x.1, x.2)
  | [] => .error ⟨.endInValue, [], 0⟩
  | c :: r => if isDigit c then readNumber true (c :: r) else .error ⟨.missingValue, c :: r, 1⟩

def skipScalar (s : List Char) : Except Stop (List Char) :=
  match s with
  | '-' :: s => skipNumber s
  | '"' :: s => skipString s
  | c :: r => if isDigit c then skipNumber (c :: r) else (readScalar (c :: r)).map Prod.snd
  | [] => .error ⟨.endInValue, [], 0⟩

def skipColon (s : List Char) : Except Stop (List Char) :=
  match dropSpace s with
  | ':' :: s => .ok s
  | [] => .error ⟨.endInObject, [], 0⟩
  | s => .error ⟨.missingColon, s, 1⟩

/-- The text after the comma of a list or an object, `close` being its bracket. A strict reader
says more about a comma that nothing follows. -/
def afterComma (strict : Bool) (close : Char) (s : List Char) : Except Stop (List Char) :=
  let s := dropSpace s
  if !strict then .ok s
  else if s = [] then .error ⟨.endInValue, [], 0⟩
  else if s.head? = some close then .error ⟨.trailingComma, s, 1⟩
  else .ok s

def skipKey (strict : Bool) (s : List Char) : Except Stop (List Char) :=
  match dropSpace s with
  | '"' :: s => do
    skipColon (← if strict then (readString s).map Prod.snd else skipString s)
  | [] => .error ⟨.endInObject, [], 0⟩
  | s => .error ⟨.keyNotString, s, 1⟩

mutual

/-- Passes over a value. `limit` says how many levels are left. -/
def skipValue (limit : Option Nat) : Nat → List Char → Except Stop (List Char)
  | 0, s => .error ⟨.missingValue, s, 0⟩
  | fuel + 1, s =>
    match dropSpace s with
    | [] => .error ⟨.endInValue, [], 0⟩
    | '[' :: r =>
      if limit.any (· ≤ 1) then .error ⟨.tooDeep, '[' :: r, 1⟩
      else skipItems (limit.map (· - 1)) fuel true r
    | '\x7b' :: r =>
      if limit.any (· ≤ 1) then .error ⟨.tooDeep, '\x7b' :: r, 1⟩
      else skipMembers (limit.map (· - 1)) fuel true r
    | s => if limit.isSome then (readScalar s).map Prod.snd else skipScalar s

/-- Passes over the items of a list after its bracket or after an item, and over what closes it. -/
def skipItems (limit : Option Nat) : Nat → Bool → List Char → Except Stop (List Char)
  | 0, _, s => .error ⟨.missingValue, s, 0⟩
  | fuel + 1, first, s =>
    match dropSpace s with
    | [] => .error ⟨.endInList, [], 0⟩
    | ']' :: s => .ok s
    | c :: s =>
      if first then do skipItems limit fuel false (← skipValue limit fuel (c :: s))
      else if c = ',' then do
        let s ← afterComma limit.isSome ']' s
        skipItems limit fuel false (← skipValue limit fuel s)
      else .error ⟨.missingListComma, c :: s, 1⟩

/-- Passes over the members of an object after its bracket or after a member, and over what closes
it. -/
def skipMembers (limit : Option Nat) : Nat → Bool → List Char → Except Stop (List Char)
  | 0, _, s => .error ⟨.missingValue, s, 0⟩
  | fuel + 1, first, s =>
    match dropSpace s with
    | [] => .error ⟨.endInObject, [], 0⟩
    | '\x7d' :: s => .ok s
    | c :: s =>
      if first then do
        let s ← skipKey limit.isSome (c :: s)
        skipMembers limit fuel false (← skipValue limit fuel s)
      else if c = ',' then do
        let s ← skipKey limit.isSome (← afterComma limit.isSome '\x7d' s)
        skipMembers limit fuel false (← skipValue limit fuel s)
      else .error ⟨.missingObjectComma, c :: s, 1⟩

end

/-- Enough steps for any value in a text: each bracket and each item takes at least a character. -/
def stepsFor (s : List Char) : Nat := 2 * s.length + 2

def skipAny (s : List Char) : Except Stop (List Char) := skipValue none (stepsFor s) s

/-- The end of a text: nothing but space is left. -/
def finish (s : List Char) : Except Stop Unit :=
  match dropSpace s with
  | [] => .ok ()
  | s => .error ⟨.trailingCharacters, s, 1⟩

/-- The levels that a value may have, and one more. -/
def depthLimit : Nat := 128

def fault? (text : String) : Option String :=
  match skipValue (some depthLimit) (stepsFor text.toList) text.toList >>= finish with
  | .ok () => none
  | .error e => some (e.text text.toList)

end PlaybookTidy.Json
