import MarkupLint.Data.Value
import MarkupLint.Text.Choice

/-! # Log entries

    An entry has a level, a message and named values, and is written on one
    line, as pairs or as an object. -/

namespace MarkupLint

/-! ## Formats -/

/-- How log lines are written. -/
inductive LogFormat where
  /-- Pairs of names and values. -/
  | text
  /-- One object for each line. -/
  | json
  deriving DecidableEq, Repr, Inhabited

namespace LogFormat

/-- The name of a format. -/
def name : LogFormat → String
  | .text => "text"
  | .json => "json"

/-- The formats by name. -/
def named : List (String × LogFormat) := [("", .text), ("text", .text), ("json", .json)]

/-- Reads the name of a format. -/
def parse (word : String) : Except Text.UnknownName LogFormat :=
  Text.choose "log format" "text or json" named word

end LogFormat

/-! ## Entries -/

/-- How important a log entry is. -/
inductive LogLevel where
  | debug | info | warn | error
  deriving DecidableEq, Repr, Inhabited

/-- The name of a level. -/
def LogLevel.name : LogLevel → String
  | .debug => "DEBUG"
  | .info => "INFO"
  | .warn => "WARN"
  | .error => "ERROR"

/-- The levels by name. -/
def LogLevel.named : List (String × LogLevel) :=
  [("debug", .debug), ("info", .info), ("warn", .warn), ("error", .error)]

/-- Named values of a log entry. -/
abbrev LogFields := List (String × Data.Value)

/-- One log entry. -/
structure LogEntry where
  level : LogLevel
  message : String
  fields : LogFields := []
  deriving Inhabited

namespace LogFields

/-- The name of a value that comes without one. -/
def missingName : String := "!BADKEY"

/-- Names and values that alternate. -/
def ofArguments : List Data.Value → LogFields
  | [] => []
  | .text name :: value :: rest => (name, value) :: ofArguments rest
  | value :: rest => (missingName, value) :: ofArguments rest

/-- The fields but those without name and value. -/
def visible (fields : LogFields) : LogFields :=
  fields.filter fun (name, value) => name ≠ "" || !(value matches .null)

end LogFields

namespace LogEntry

/-- Log lines write numbers positionally from `1e-4` up to, but not
    including, `1e6`, and exponents with two digits. -/
def numberLayout : Data.NumberLayout := ⟨-3, 6, 2⟩

/-- Whether a text stands between quotes in a line of pairs. -/
def needsQuotes (s : String) : Bool :=
  s = "" || s.toList.any fun c =>
    if c.toNat < 0x80 then c = ' ' || c = '=' || c = '"' || c.toNat < 0x20
    else Text.isBlankChar c || !Text.isPrintable c || c = '\ufffd'

/-- A text in a line of pairs. -/
def pairText (s : String) : String := if needsQuotes s then Text.quoted s else s

mutual

/-- A value as words. -/
def words : Data.Value → String
  | .null => "<nil>"
  | .bool b => if b then "true" else "false"
  | .int n => Text.intText n
  | .float x => Data.floatText numberLayout x
  | .text s => s
  | .list items => "[" ++ " ".intercalate (listWords items) ++ "]"
  | .table fields => "map[" ++ " ".intercalate (fieldWords fields) ++ "]"

/-- Values as words. -/
def listWords : List Data.Value → List String
  | [] => []
  | v :: rest => words v :: listWords rest

/-- Named values as words. -/
def fieldWords : List (String × Data.Value) → List String
  | [] => []
  | (name, v) :: rest => (name ++ ":" ++ words v) :: fieldWords rest

end

/-- A value in a line of pairs. -/
def pairValue (v : Data.Value) : String :=
  match v with
  | .text s => pairText s
  | .list _ => pairText (words v.sortKeys)
  | .table _ => pairText (words v.sortKeys)
  | _ => words v

/-- The entry as a line of pairs. -/
def pairs (e : LogEntry) : String :=
  let fields : LogFields :=
    [("level", .text e.level.name), ("msg", .text e.message)] ++ LogFields.visible e.fields
  " ".intercalate (fields.map fun (name, v) => pairText name ++ "=" ++ pairValue v)

/-- The entry as an object. -/
def object (e : LogEntry) : String :=
  let fields : LogFields :=
    [("level", .text e.level.name), ("msg", .text e.message)]
      ++ (LogFields.visible e.fields).map fun (name, v) => (name, v.sortKeys)
  String.ofList (Data.Value.compact false (.table fields))

/-- The line of an entry. -/
def render (e : LogEntry) : LogFormat → String
  | .text => e.pairs
  | .json => e.object

end LogEntry

/-- Which entries are written, and how. -/
structure Logger where
  verbose : Bool := false
  format : LogFormat := .text
  /-- Values that every entry has. -/
  fields : LogFields := []

namespace Logger

/-- A logger whose entries have more values. -/
def including (l : Logger) (fields : LogFields) : Logger := { l with fields := l.fields ++ fields }

/-- The line of an entry; none if it is not written. -/
def line? (l : Logger) (e : LogEntry) : Option String :=
  if e.level = .debug && !l.verbose then none
  else some ({ e with fields := l.fields ++ e.fields }.render l.format)

end Logger

end MarkupLint
