import MarkupLint.Text.Ranges

/-! # White space

    The white space that trimming, splitting into words and the test for a
    blank line go by is the White_Space property of Unicode.  Patterns know
    only the five ASCII characters of `isPatternSpace`. -/

namespace MarkupLint.Text

/-- White space, in any script. -/
def isBlankChar (c : Char) : Bool :=
  let n := c.toNat
  if n < 0x80 then n == 0x20 || decide (0x09 ≤ n ∧ n ≤ 0x0D)
  else n == 0x85 || n == 0xA0 || n == 0x1680 || decide (0x2000 ≤ n ∧ n ≤ 0x200A)
    || n == 0x2028 || n == 0x2029 || n == 0x202F || n == 0x205F || n == 0x3000

/-- The white space a pattern knows: tab, line feed, form feed, carriage
    return and space. -/
def isPatternSpace (c : Char) : Bool :=
  c == ' ' || c == '\t' || c == '\n' || c == '\r' || c == '\x0c'

/-- Removes the characters of `p` at the end. -/
def dropRightWhile (p : Char → Bool) (s : List Char) : List Char :=
  (s.reverse.dropWhile p).reverse

/-- Removes white space at both ends. -/
def trim (s : List Char) : List Char :=
  dropRightWhile isBlankChar (s.dropWhile isBlankChar)

/-- Whether there is nothing but white space. -/
def isBlank (s : List Char) : Bool := s.all isBlankChar

/-- The words of a text: its maximal runs without a character of `p`. -/
def wordsBy (p : Char → Bool) (s : List Char) : List (List Char) :=
  go [] s
where
  /-- `word` holds the characters of the present word in reverse. -/
  go (word : List Char) : List Char → List (List Char)
    | [] => if word.isEmpty then [] else [word.reverse]
    | c :: rest =>
      if p c then
        if word.isEmpty then go [] rest else word.reverse :: go [] rest
      else go (c :: word) rest

/-- The words of a text, divided by white space. -/
def words (s : List Char) : List (List Char) := wordsBy isBlankChar s

/-- The text without its white space. -/
def squeeze (s : List Char) : List Char := s.filter (!isBlankChar ·)

/-- The words divided by single spaces. -/
def collapse (s : List Char) : List Char := [' '].intercalate (words s)

end MarkupLint.Text
