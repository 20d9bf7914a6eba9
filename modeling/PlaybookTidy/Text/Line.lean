/-!
Text as a list of lines. A line ends at a line feed, at a carriage return, or at the two together;
no other character ends a line.
-/

namespace PlaybookTidy

/-- How a line ends. `absent` belongs to a last line that nothing ends. -/
inductive Ending
  | absent
  | lf
  | crlf
  | cr
  deriving DecidableEq, Repr

def Ending.chars : Ending → List Char
  | absent => []
  | lf => ['\n']
  | crlf => ['\r', '\n']
  | cr => ['\r']

structure Line where
  body : List Char
  ending : Ending
  deriving DecidableEq, Repr

namespace Line

def chars (l : Line) : List Char := l.body ++ l.ending.chars

/-- The lines of a text whose first, unfinished line already holds `held`, last character first. -/
def splitAfter (held : List Char) : List Char → List Line
  | [] => if held = [] then [] else [⟨held.reverse, .absent⟩]
  | '\r' :: '\n' :: s => ⟨held.reverse, .crlf⟩ :: splitAfter [] s
  | '\r' :: s => ⟨held.reverse, .cr⟩ :: splitAfter [] s
  | '\n' :: s => ⟨held.reverse, .lf⟩ :: splitAfter [] s
  | c :: s => splitAfter (c :: held) s

/-- The lines of a text. The empty text has none. -/
def split (s : List Char) : List Line := splitAfter [] s

def join (ls : List Line) : List Char := ls.flatMap chars

/-- Rewrites each line that `f` answers, and counts those lines. -/
def rewriteEach (f : List Char → Option (List Char)) (ls : List Line) : List Line × Nat :=
  (ls.map fun l => { l with body := (f l.body).getD l.body }, ls.countP fun l => (f l.body).isSome)

def onText (f : List Line → List Line × Nat) (s : String) : String × Nat :=
  let (ls, n) := f (split s.toList)
  (String.ofList (join ls), n)

/-- Blanks and tabs: the only characters that indent a line. -/
def isIndent (c : Char) : Bool := c = ' ' || c = '\t'

end Line

theorem Line.join_splitAfter (held s : List Char) :
    join (splitAfter held s) = held.reverse ++ s := by
  fun_induction splitAfter held s <;> simp_all [join, chars, Ending.chars]

/-- Splitting a text loses nothing. -/
theorem Line.join_split (s : List Char) : join (split s) = s := by
  simp [split, join_splitAfter]

end PlaybookTidy
