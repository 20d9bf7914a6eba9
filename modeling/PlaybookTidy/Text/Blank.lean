import PlaybookTidy.Text.Split

/-!
White space in the Unicode sense, and text without the white space around it.
-/

namespace PlaybookTidy.Text

/-- The characters with the property White_Space. -/
def isBlank (c : Char) : Bool :=
  let n := c.toNat
  (9 ≤ n && n ≤ 13) || n = 0x20 || n = 0x85 || n = 0xA0 || n = 0x1680 ||
    (0x2000 ≤ n && n ≤ 0x200A) || n = 0x2028 || n = 0x2029 || n = 0x202F || n = 0x205F || n = 0x3000

def trim (s : String) : String :=
  String.ofList (dropEndWhile isBlank (s.toList.dropWhile isBlank))

/-- Every character is white space; so is the empty text. -/
def isBlankText (s : String) : Bool := s.toList.all isBlank

end PlaybookTidy.Text
