import MarkupLint.Data.Value
import MarkupLint.Diagnostic.Record

/-! # Printed records

    A record is printed as a line of text, coloured by level if asked for,
    or as an object of a JSON array. -/

namespace MarkupLint

/-- The terminal attributes that colour the name of a level. -/
inductive Tint where
  | grey | blue | yellow | red | boldRed | green
  deriving DecidableEq, Repr

namespace Tint

/-- What switches the colour on and off again. -/
def codes : Tint → String × String
  | .grey => ("\x1b[90m", "\x1b[0m")
  | .blue => ("\x1b[34m", "\x1b[0m")
  | .yellow => ("\x1b[33m", "\x1b[0m")
  | .red => ("\x1b[31m", "\x1b[0m")
  | .boldRed => ("\x1b[31;1m", "\x1b[0;22m")
  | .green => ("\x1b[32m", "\x1b[0m")

/-- The text in a colour. -/
def paint (t : Tint) (s : String) : String := t.codes.1 ++ s ++ t.codes.2

/-- The colour of a level; whatever has no name is as loud as the highest. -/
def ofLevel (l : Level) : Tint :=
  if l = .debug then .grey
  else if l = .info then .blue
  else if l = .warning then .yellow
  else if l = .error then .red
  else .boldRed

end Tint

namespace Record

/-- One line: level, place and message. -/
def render (colour : Bool) (r : Record) : String :=
  let type := if colour then (Tint.ofLevel r.level).paint r.type else r.type
  type ++ " " ++ r.source ++ ":" ++ r.lineText ++ " " ++ r.message

/-- One line for each record. -/
def renderLines (colour : Bool) (records : List Record) : String :=
  String.join (records.map fun r => r.render colour ++ "\n")

/-- The line for a file without records. -/
def cleanLine (colour : Bool) (path : String) : String :=
  let type := if colour then Tint.green.paint Level.info.name else Level.info.name
  type ++ " File " ++ path ++ " is clean."

/-- The fields of the JSON object, in their order. -/
def fields (r : Record) : List (String × Data.Value) :=
  [("line", (r.line.map Data.Value.int).getD .null), ("source", .text r.source),
   ("level", .int r.level.rank), ("type", .text r.type), ("message", .text r.message),
   ("full_message", .text r.fullMessage)]

/-- The JSON array of the records on one line, or, with an indent, one
    field to a line. -/
def renderJson (indent : String) (records : List Record) : String :=
  let text (s : List Char) := String.ofList s
  if records.isEmpty then "[]\n"
  else if indent.isEmpty then
    text (Data.Value.compact false (.list (records.map fun r => .table r.fields))) ++ "\n"
  else
    let field (f : String × Data.Value) : String :=
      indent ++ indent ++ text (Data.Value.jsonString false f.1) ++ ": "
        ++ text (Data.Value.compact false f.2)
    let object (r : Record) : String :=
      indent ++ "\x7b\n" ++ ",\n".intercalate (r.fields.map field) ++ "\n" ++ indent ++ "\x7d"
    "[\n" ++ ",\n".intercalate (records.map object) ++ "\n]\n"

end Record

end MarkupLint
