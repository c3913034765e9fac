import MarkupLint.Text.Blank
import MarkupLint.Text.Case
import MarkupLint.Text.Quoted

/-! # Choices by name

    Several settings are chosen by a word, in any letter case and with
    blanks around it. -/

namespace MarkupLint.Text

/-- The complaint about a word that names none of the choices. -/
structure UnknownName where
  /-- What is being chosen. -/
  what : String
  given : String
  /-- The choices, as a sentence lists them. -/
  wanted : String
  deriving DecidableEq, Repr

/-- The text of the complaint. -/
def UnknownName.message (e : UnknownName) : String :=
  "unknown " ++ e.what ++ " " ++ quoted e.given ++ " (want " ++ e.wanted ++ ")"

/-- The value that a word stands for. -/
def choose (what wanted : String) (choices : List (String × α)) (word : String) :
    Except UnknownName α :=
  match choices.lookup (String.ofList (lower (trim word.toList))) with
  | some value => .ok value
  | none => .error { what := what, given := word, wanted := wanted }

end MarkupLint.Text
