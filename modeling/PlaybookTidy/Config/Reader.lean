import PlaybookTidy.Config.Basic
import PlaybookTidy.Json.Scan

/-!
Reading a configuration from JSON. A record is an object with named fields or an array of its fields
in order; fields that are absent have their built-in values, and fields that are not known are
passed over.
-/

namespace PlaybookTidy.Config

open Json

/-- The fault of a value of the wrong type, which is read as far as it has to be named. -/
def wrongType (wanted : String) (s : List Char) : Stop :=
  match s with
  | '[' :: _ => ⟨.wrongType .sequence wanted, s, 0⟩
  | '\x7b' :: _ => ⟨.wrongType .map wanted, s, 0⟩
  | s =>
    match readScalar s with
    | .error e => e
    | .ok (found, r) => ⟨.wrongType found wanted, r, 0⟩

def readText : Reader String := fun s =>
  match dropSpace s with
  | [] => .error ⟨.endInValue, [], 0⟩
  | '"' :: s => readString s
  | s => .error (wrongType "a string" s)

def nextItem? (first : Bool) (s : List Char) : Except Stop (Option (List Char)) :=
  match dropSpace s with
  | [] => .error ⟨.endInList, [], 0⟩
  | ']' :: _ => .ok none
  | c :: s =>
    if first then .ok (some (c :: s))
    else if c = ',' then (afterComma true ']' s).map some
    else .error ⟨.missingListComma, c :: s, 1⟩

/-- Where the next key of an object begins, after its quote, if there is one. -/
def nextKey? (first : Bool) (s : List Char) : Except Stop (Option (List Char)) :=
  let key (s : List Char) : Except Stop (Option (List Char)) :=
    match s with
    | '"' :: s => .ok (some s)
    | s => .error ⟨.keyNotString, s, 1⟩
  match dropSpace s with
  | [] => .error ⟨.endInObject, [], 0⟩
  | '\x7d' :: _ => .ok none
  | c :: s =>
    if first then key (c :: s)
    else if c = ',' then afterComma true '\x7d' s >>= key
    else .error ⟨.missingObjectComma, c :: s, 1⟩

def closeArray (s : List Char) : Except Stop (List Char) :=
  match dropSpace s with
  | [] => .error ⟨.endInList, [], 0⟩
  | ']' :: s => .ok s
  | ',' :: s =>
    let s := dropSpace s
    if s.head? = some ']' then .error ⟨.trailingComma, s, 1⟩
    else .error ⟨.trailingCharacters, s, 1⟩
  | s => .error ⟨.trailingCharacters, s, 1⟩

/-- The items up to the closing bracket, which is left. -/
def readItems {α : Type} (item : Reader α) : Nat → Bool → Reader (List α)
  | 0, _, s => .error ⟨.missingValue, s, 0⟩
  | fuel + 1, first, s => do
    match ← nextItem? first s with
    | none => return ([], s)
    | some s =>
      let (x, s) ← item s
      let (xs, s) ← readItems item fuel false s
      return (x :: xs, s)

/-- Reads the members up to the closing bracket, which is left. `member` reads what follows a key. -/
def readMembers {σ : Type} (member : String → σ → Reader σ) : Nat → Bool → σ → Reader σ
  | 0, _, _, s => .error ⟨.missingValue, s, 0⟩
  | fuel + 1, first, state, s => do
    match ← nextKey? first s with
    | none => return (state, s)
    | some s =>
      let (key, s) ← readString s
      let (state, s) ← member key state s
      readMembers member fuel false state s

def readArray {α : Type} (item : Reader α) : Reader (List α) := fun s =>
  match dropSpace s with
  | [] => .error ⟨.endInValue, [], 0⟩
  | '[' :: s => do
    let (xs, s) ← readItems item (stepsFor s) true s
    return (xs, ← closeArray s)
  | s => .error (wrongType "a sequence" s)

def closeObject (s : List Char) : List Char := (dropSpace s).drop 1

def readOverride (short : String) (o : Overrides) : Reader Overrides := fun s => do
  let (fqcn, s) ← readText (← skipColon s)
  return (o.insert short fqcn, s)

/-- Reads texts by name; of several for a name the last one counts. -/
def readOverrides : Reader Overrides := fun s =>
  match dropSpace s with
  | [] => .error ⟨.endInValue, [], 0⟩
  | '\x7b' :: s => do
    let (o, s) ← readMembers readOverride (stepsFor s) true Overrides.empty s
    return (o, closeObject s)
  | s => .error (wrongType "a map" s)

def ruleOfName (name : String) : Reader Rule := fun s =>
  match Rule.ofId? name with
  | some r => .ok (r, s)
  | none => .error ⟨.unknownVariant name (Rule.all.map Rule.id), s, 0⟩

def readNull : Reader Unit := fun s =>
  match dropSpace s with
  | [] => .error ⟨.endInValue, [], 0⟩
  | 'n' :: s => readLiteral "ull".toList s
  | s => .error (wrongType "unit" s)

def readRuleKey : Reader String := fun s =>
  match dropSpace s with
  | [] => .error ⟨.endInObject, [], 0⟩
  | '"' :: s => readString s
  | '\x7d' :: s => .error ⟨.missingValue, '\x7d' :: s, 1⟩
  | s => .error ⟨.keyNotString, s, 1⟩

/-- Reads a rule: its name, or an object with the name and a null. -/
def readRule : Reader Rule := fun s =>
  match dropSpace s with
  | [] => .error ⟨.endInValue, [], 0⟩
  | '"' :: s => do
    let (name, s) ← readString s
    ruleOfName name s
  | '\x7b' :: s => do
    let (name, s) ← readRuleKey s
    let (r, s) ← ruleOfName name s
    let (_, s) ← readNull (← skipColon s)
    match dropSpace s with
    | [] => .error ⟨.endInObject, [], 0⟩
    | '\x7d' :: s => .ok (r, s)
    | s => .error ⟨.missingValue, s, 0⟩
  | s => .error ⟨.missingValue, s, 1⟩

/-- A field that occurs again. The fault is seen before the value, and placed after a bracket that
closes the object there. -/
def duplicateField (name : String) (s : List Char) : Stop :=
  let s := dropSpace s
  ⟨.duplicateField name, if s.head? = some '\x7d' then s.drop 1 else s, 0⟩

/-- Reads a field of an object, which may not have been read before. -/
def readField {α : Type} (name : String) (old : Option α) (value : Reader α) : Reader (Option α) :=
  fun s => do
    if old.isSome then .error (duplicateField name s)
    else
      let (x, s) ← value (← skipColon s)
      return (some x, s)

def readNext {α : Type} (first : Bool) (value : Reader α) : Reader (Option α) := fun s => do
  match ← nextItem? first s with
  | none => return (none, s)
  | some s =>
    let (x, s) ← value s
    return (some x, s)

def skipField {σ : Type} (state : σ) : Reader σ := fun s => do
  return (state, ← skipAny (← skipColon s))

/-- Reads a record that is written as an array or as an object. -/
def readRecord {σ : Type} (wanted : String) (fields : Reader σ)
    (member : String → σ → Reader σ) (state : σ) : Reader σ := fun s =>
  match dropSpace s with
  | [] => .error ⟨.endInValue, [], 0⟩
  | '[' :: s => do
    let (x, s) ← fields s
    return (x, ← closeArray s)
  | '\x7b' :: s => do
    let (x, s) ← readMembers member (stepsFor s) true state s
    return (x, closeObject s)
  | s => .error (wrongType wanted s)

structure Fields where
  patterns : Option (List String) := none
  exclude : Option (List String) := none
  rules : Option (List Rule) := none
  fqcn : Option Overrides := none

def Fields.toDefaults (f : Fields) : Defaults :=
  let d : Defaults := {}
  { patterns := f.patterns.getD d.patterns
    exclude := f.exclude.getD d.exclude
    rules := f.rules.getD d.rules
    fqcn := f.fqcn.getD d.fqcn }

def readTexts : Reader (List String) := readArray readText

def readRules : Reader (List Rule) := readArray readRule

/-- Reads the fields of settings that are written as an array. -/
def readInOrder : Reader Fields := fun s => do
  let (patterns, s) ← readNext true readTexts s
  let (exclude, s) ← readNext false readTexts s
  let (rules, s) ← readNext false readRules s
  let (fqcn, s) ← readNext false readOverrides s
  return ({ patterns, exclude, rules, fqcn }, s)

def readSetting (key : String) (f : Fields) : Reader Fields := fun s => do
  match key with
  | "patterns" =>
    let (x, s) ← readField key f.patterns readTexts s
    return ({ f with patterns := x }, s)
  | "exclude" =>
    let (x, s) ← readField key f.exclude readTexts s
    return ({ f with exclude := x }, s)
  | "rules" =>
    let (x, s) ← readField key f.rules readRules s
    return ({ f with rules := x }, s)
  | "fqcn" =>
    let (x, s) ← readField key f.fqcn readOverrides s
    return ({ f with fqcn := x }, s)
  | _ => skipField f s

def readDefaults : Reader Defaults := fun s => do
  let (f, s) ← readRecord "struct Defaults" readInOrder readSetting {} s
  return (f.toDefaults, s)

def readSection (key : String) (d : Option Defaults) : Reader (Option Defaults) :=
  if key = "defaults" then readField key d readDefaults else skipField d

def readConfig : Reader Defaults := fun s => do
  let (d, s) ← readRecord "struct LintfixConfig" (readNext true readDefaults) readSection none s
  return (d.getD {}, s)

def parse (text : String) : Except String Defaults :=
  match readConfig text.toList with
  | .error e => .error (e.text text.toList)
  | .ok (d, s) =>
    match finish s with
    | .error e => .error (e.text text.toList)
    | .ok () => .ok d

end PlaybookTidy.Config
