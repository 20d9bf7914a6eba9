/-!
Glob patterns: what their text means and what is wrong with it. A pattern is literal text with
wildcards: `?` for a character, `*` for any characters, `**` for whole path components, and bracketed
sets of characters.
-/

namespace PlaybookTidy.Glob

inductive Specifier
  | single (c : Char)
  | range (lo hi : Char)
  deriving DecidableEq, Repr

inductive Token
  | char (c : Char)
  | anyChar
  | anySequence
  | anyDepth
  | within (set : List Specifier)
  | outside (set : List Specifier)
  deriving DecidableEq, Repr

inductive Problem
  | wildcards
  | recursiveWildcards
  | invalidRange
  deriving DecidableEq, Repr

/-- What is wrong and where, counted in characters. -/
structure PatternError where
  position : Nat
  problem : Problem
  deriving DecidableEq, Repr

def Problem.text : Problem → String
  | wildcards => "wildcards are either regular `*` or recursive `**`"
  | recursiveWildcards => "recursive wildcards must form a single path component"
  | invalidRange => "invalid range pattern"

def PatternError.text (e : PatternError) : String :=
  "Pattern syntax error near position " ++ toString e.position ++ ": " ++ e.problem.text

/-- The members of a set. A hyphen between two characters makes a range. -/
def specifiers : List Char → List Specifier
  | a :: '-' :: b :: s => .range a b :: specifiers s
  | a :: s => .single a :: specifiers s
  | [] => []

/-- Reads a set after its opening bracket, and gives what follows it. The first character is a
member even if it is a closing bracket. -/
def readSet? : List Char → Option (Token × List Char)
  | '!' :: a :: s =>
    if ']' ∈ s then
      some (.outside (specifiers (a :: s.takeWhile (· ≠ ']'))), (s.dropWhile (· ≠ ']')).drop 1)
    else none
  | a :: s =>
    if a ≠ '!' && ']' ∈ s then
      some (.within (specifiers (a :: s.takeWhile (· ≠ ']'))), (s.dropWhile (· ≠ ']')).drop 1)
    else none
  | [] => none

/-- A set takes at least its closing bracket. -/
theorem length_readSet? {s r : List Char} {t : Token} (h : readSet? s = some (t, r)) :
    r.length < s.length := by
  have bound : ∀ s : List Char, ((s.dropWhile (· ≠ ']')).drop 1).length ≤ s.length := fun s => by
    have := (List.dropWhile_suffix (· ≠ ']') (l := s)).length_le
    simp only [List.length_drop]
    omega
  unfold readSet? at h
  split at h
  · rename_i a s
    split at h
    · simp only [Option.some.injEq, Prod.mk.injEq] at h
      rw [← h.2]
      have := bound s
      simp only [List.length_cons]
      omega
    · simp at h
  · rename_i a s _
    split at h
    · simp only [Option.some.injEq, Prod.mk.injEq] at h
      rw [← h.2]
      have := bound s
      simp only [List.length_cons]
      omega
    · simp at h
  · simp at h

/-- The tokens of a text that begins at position `i` of the pattern, after the character `before`. -/
def tokensFrom (i : Nat) (before : Option Char) (s : List Char) :
    Except PatternError (List Token) :=
  match s with
  | [] => .ok []
  | '?' :: s => do return .anyChar :: (← tokensFrom (i + 1) (some '?') s)
  | '*' :: '*' :: '*' :: _ => .error ⟨i + 2, .wildcards⟩
  | '*' :: '*' :: s =>
    if before = none || before = some '/' then
      match s with
      | [] => .ok [.anyDepth]
      | '/' :: s => do return .anyDepth :: (← tokensFrom (i + 3) (some '/') s)
      | _ => .error ⟨i + 2, .recursiveWildcards⟩
    else .error ⟨i - 1, .recursiveWildcards⟩
  | '*' :: s => do return .anySequence :: (← tokensFrom (i + 1) (some '*') s)
  | '[' :: s =>
    match h : readSet? s with
    | some (t, r) => do
      have := length_readSet? h
      return t :: (← tokensFrom (i + (s.length - r.length) + 1) (some ']') r)
    | none => .error ⟨i, .invalidRange⟩
  | c :: s => do return .char c :: (← tokensFrom (i + 1) (some c) s)
  termination_by s.length

def parse (s : List Char) : Except PatternError (List Token) := tokensFrom 0 none s

def isSpecial (c : Char) : Bool := c = '?' || c = '*' || c = '[' || c = ']'

/-- A pattern that only the given text matches. -/
def escape (s : List Char) : List Char :=
  s.flatMap fun c => if isSpecial c then ['[', c, ']'] else [c]

end PlaybookTidy.Glob
