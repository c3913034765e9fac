import MarkupLint.Data.Value
import MarkupLint.Text.Case

/-! # Settings

    What a configuration file says, before anything is known of what the
    settings mean: scalars, lists and tables.  The two file formats differ
    in how far a scalar may stand for a value of another kind. -/

namespace MarkupLint

/-- One value in a configuration file. -/
inductive Setting where
  /-- A scalar as it is written, and the value it is taken for; dates and
      times are taken for no value. -/
  | scalar (text : String) (value : Data.Value)
  | list (items : List Setting)
  | table (fields : List (String × Setting))
  deriving Inhabited

/-- How settings are read. -/
inductive Dialect where
  /-- Every value must be of its own kind; names are found in any letter case. -/
  | exact
  /-- Any scalar is also a text, a fraction also an integer, some words also
      truth values, and no value leaves the setting alone. -/
  | lenient
  deriving DecidableEq, Repr

namespace Dialect

/-- The setting that a name stands for. -/
def settingName (d : Dialect) (name : String) : String :=
  match d with
  | .exact => Text.lowerString name
  | .lenient => name

end Dialect

namespace Setting

/-- Reads a text; `some none` leaves the setting alone. -/
def asText? (d : Dialect) : Setting → Option (Option String)
  | .scalar _ (.text s) => some (some s)
  | .scalar text value =>
    if d = .exact then none
    else if value matches .null then some none
    else some (some text)
  | _ => none

/-- Reads an integer. -/
def asInt? (d : Dialect) : Setting → Option (Option Int)
  | .scalar _ (.int n) => some (some n)
  | .scalar _ (.float x) =>
    if d = .lenient && x.abs < 9.3e18 then some (some x.toInt64.toInt) else none
  | .scalar _ .null => if d = .lenient then some none else none
  | _ => none

/-- The words that a lenient dialect takes for truth values. -/
def truthWords : List (String × Bool) :=
  [("y", true), ("Y", true), ("yes", true), ("on", true),
   ("n", false), ("N", false), ("no", false), ("off", false)]

/-- Reads a truth value. -/
def asBool? (d : Dialect) : Setting → Option (Option Bool)
  | .scalar _ (.bool b) => some (some b)
  | .scalar _ (.text s) => if d = .lenient then (truthWords.lookup s).map some else none
  | .scalar _ .null => if d = .lenient then some none else none
  | _ => none

/-- Reads a list of texts; items without a value are left out. -/
def asTexts? (d : Dialect) : Setting → Option (Option (List String))
  | .list items => ((items.mapM (asText? d)).map fun texts => some (texts.filterMap id))
  | .scalar _ .null => if d = .lenient then some none else none
  | _ => none

/-- Reads a table. -/
def asTable? (d : Dialect) : Setting → Option (List (String × Setting))
  | .table fields => some fields
  | .scalar _ .null => if d = .lenient then some [] else none
  | _ => none

end Setting

end MarkupLint
