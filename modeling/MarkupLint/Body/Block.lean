import MarkupLint.Body.Line
import MarkupLint.Diagnostic.Level

/-! # Blocks

    What a body of text consists of, one level deep: a block that holds
    text of its own holds it as a body still to be read.  Reading a body
    depends on nothing but its lines, so what is wrong with the layout is
    found here as well, as blocks that complain. -/

namespace MarkupLint

/-- Lines to be read, with the number of the line before the first. -/
structure Body where
  offset : Nat
  lines : List Line
  deriving DecidableEq, Repr

/-- The characters of a body, and one more for each line. -/
def Body.size (b : Body) : Nat := b.lines.flatten.length + b.lines.length

/-- A complaint about a place in the text. -/
structure Problem where
  level : Severity
  line : Nat
  text : String
  /-- The markup the complaint quotes. -/
  literal : Option (List Char) := none
  deriving DecidableEq, Repr

/-- The characters a title is adorned with. -/
structure TitleStyle where
  underline : Char
  overline : Option Char := none
  deriving DecidableEq, Repr

/-- A line with the lines that adorn it. -/
structure Heading where
  text : List Char
  /-- Title and adornment as they stand in the text. -/
  markup : List Char
  style : TitleStyle
  line : Nat
  /-- The complaint about an adornment that is too short. -/
  shortage : Option Problem
  deriving DecidableEq, Repr

/-- An item of a bullet or enumerated list. -/
structure ListItem where
  line : Nat
  body : Body
  deriving DecidableEq, Repr

/-- A field or an option: a head and a body. -/
structure HeadedItem where
  line : Nat
  head : List Char
  body : Body
  deriving DecidableEq, Repr

/-- A term with its definition. -/
structure DefinitionItem where
  line : Nat
  term : List Char
  classifier : Option (List Char)
  /-- Whether the term looks like the announcement of a literal block. -/
  announces : Bool
  body : Body
  deriving DecidableEq, Repr

/-- One construct of a body. -/
inductive Block where
  /-- A complaint. -/
  | problem (p : Problem)
  /-- Text, which may be empty, and the line of an indented line that
      follows without a blank one. -/
  | paragraph (line : Nat) (text : List Char) (stray : Option Nat)
  | literal (line : Nat) (text : List Char)
  | heading (h : Heading)
  | transition (line : Nat)
  | quote (line : Nat) (body : Body)
  | bulletList (line : Nat) (items : List ListItem)
  /-- The number the list starts with and its text, unless it is one. -/
  | enumeratedList (line : Nat) (start : Option (Nat × List Char)) (items : List ListItem)
  /-- A list whose first number does not fit 64 bits, and the number of the
      first line of the body it stands in.  None of its items is read, so
      reading never gets past its line. -/
  | stuckList (line first : Nat)
  | fieldList (line : Nat) (fields : List HeadedItem)
  | optionList (line : Nat) (options : List HeadedItem)
  | definitionList (line : Nat) (items : List DefinitionItem)
  | doctest (line : Nat) (text : List Char)
  | lineBlock (line : Nat) (lines : List (Nat × List Char))
  | table (line : Nat) (text : List Char)
  /-- Explicit markup: the lines after the marker and the markup itself. -/
  | explicit (line : Nat) (lines : List Line) (markup : List Char)
  | anonymousTarget (line : Nat) (lines : List Line)
  deriving DecidableEq, Repr

end MarkupLint
