import MarkupLint.Text.Blank
import MarkupLint.Text.Search

/-! # Lines

    A text is read as lines without tabs, form feeds or space at their
    ends, whatever its newline convention. -/

namespace MarkupLint

/-- A line of text, without its newline. -/
abbrev Line := List Char

namespace Line

/-- The spaces a line starts with. -/
def indent (l : Line) : Nat := (l.takeWhile (· == ' ')).length

/-- Whether a line is indented. -/
def isIndented (l : Line) : Bool := decide (0 < l.indent)

/-- The text of some lines. -/
def joinLines (ls : List Line) : List Char := ['\n'].intercalate ls

end Line

/-- Expands the tabs of a text that starts in column `col`: every tab goes
    on to the next multiple of the width. -/
def expandTabsFrom (width : Nat) (col : Nat) : List Char → List Char
  | [] => []
  | c :: rest =>
    if c = '\t' then
      let n := width - col % width
      List.replicate n ' ' ++ expandTabsFrom width (col + n) rest
    else c :: expandTabsFrom width (col + 1) rest

/-- The longest run of spaces that can be asked for: as long as there are
    addresses in memory. -/
def longestRun : Nat := 0x1000000000000

/-- Whether no tab of a text that starts in column `col` asks for a longer
    run. -/
def tabsFit (width : Nat) (col : Nat) : List Char → Bool
  | [] => true
  | c :: rest =>
    if c = '\t' then
      let n := width - col % width
      decide (n ≤ longestRun) && tabsFit width (col + n) rest
    else tabsFit width (col + 1) rest

/-- Expands the tabs of a text.  A text with a tab has no expansion for a
    width that is not positive or asks for a run of spaces that is too
    long. -/
def expandTabs? (width : Int) (s : List Char) : Option (List Char) :=
  if s.contains '\t' then
    if 0 < width && tabsFit width.toNat 0 s then some (expandTabsFrom width.toNat 0 s) else none
  else some s

/-- Puts a line feed for every carriage return, alone or with a line feed
    after it. -/
def normalizeNewlines : List Char → List Char
  | [] => []
  | '\r' :: '\n' :: rest => '\n' :: normalizeNewlines rest
  | '\r' :: rest => '\n' :: normalizeNewlines rest
  | c :: rest => c :: normalizeNewlines rest

/-- The pieces between line feeds, without an empty piece at the end. -/
def rawLines (s : List Char) : List (List Char) :=
  let pieces := Text.splitOn '\n' s
  if pieces.getLast? = some [] then pieces.dropLast else pieces

/-- A raw line with vertical tabs and form feeds as spaces, tabs expanded
    and the spaces at its end removed. -/
def cleanLine? (width : Int) (l : List Char) : Option Line :=
  let spaced := l.map fun c => if c = '\x0b' || c = '\x0c' then ' ' else c
  (expandTabs? width spaced).map (Text.dropRightWhile (· == ' '))

/-- The lines of a text, a byte order mark at its start apart; none if a tab
    cannot be expanded. -/
def splitLines? (width : Int) (text : List Char) : Option (List Line) :=
  let text := normalizeNewlines text
  let text := match text with
    | '\ufeff' :: rest => rest
    | _ => text
  (rawLines text).mapM (cleanLine? width)

/-! ## Indented blocks

    The lines that belong to a construct are those after its first one that
    are blank or indented.  An extract is such a run with its indentation
    removed; it ends well if the text ends with it or a blank line is last. -/

/-- Lines cut out of a body. -/
structure Extract where
  /-- The lines without their indentation and without blank lines at the
      end. -/
  lines : List Line
  /-- How many lines after the first were taken. -/
  extra : Nat
  /-- Whether the text ends here or a blank line came last. -/
  blankFinish : Bool
  deriving DecidableEq, Repr

namespace Extract

/-- Drops the blank lines at the end. -/
def trimEnd (ls : List Line) : List Line :=
  (ls.reverse.dropWhile Text.isBlank).reverse

/-- The smallest indentation of the lines that are not blank. -/
def commonIndent (ls : List Line) : Nat :=
  (((ls.filter (!Text.isBlank ·)).map Line.indent).min?).getD 0

/-- Removes the common indentation. -/
def dedent (ls : List Line) : List Line := ls.map (·.drop (commonIndent ls))

/-- Whether a line goes on with an indented block. -/
def inBlock (l : Line) : Bool := Text.isBlank l || l.isIndented

/-- Whether a line goes on with a block indented by `k` columns. -/
def inKnown (k : Nat) (l : Line) : Bool := Text.isBlank l || decide (k ≤ l.indent)

/-- The extract that takes `taken` after `first`, with `rest` not taken. -/
def finish (first : Line) (taken rest lines : List Line) : Extract where
  lines := trimEnd lines
  extra := taken.length
  blankFinish := rest.isEmpty || Text.isBlank (taken.getLastD first)

/-- The indented lines from `first` on. -/
def indented (first : Line) (rest : List Line) : Extract :=
  let taken := rest.takeWhile inBlock
  finish first taken (rest.drop taken.length) (dedent (first :: taken))

/-- `first` without its first `k` columns, and the lines after it that are
    indented by at least as much. -/
def known (k : Nat) (first : Line) (rest : List Line) : Extract :=
  let taken := rest.takeWhile (inKnown k)
  finish first taken (rest.drop taken.length) ((first :: taken).map (·.drop k))

/-- `first` without its first `k` columns, and the indented lines after it
    without their common indentation. -/
def firstKnown (k : Nat) (first : Line) (rest : List Line) : Extract :=
  let taken := rest.takeWhile inBlock
  finish first taken (rest.drop taken.length) (first.drop k :: dedent taken)

end Extract

end MarkupLint
