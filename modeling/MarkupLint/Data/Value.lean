import MarkupLint.Data.Shortest
import MarkupLint.Text.Integer
import MarkupLint.Text.Quoted

/-! # Loose values

    The values that options, configuration files and log attributes hold,
    and their compact and indented JSON text. -/

namespace MarkupLint.Data

/-- A value whose shape is only known when it is used. -/
inductive Value where
  | null
  | bool (b : Bool)
  | int (n : Int)
  | float (x : Float)
  | text (s : String)
  | list (items : List Value)
  | table (fields : List (String × Value))
  deriving Inhabited

namespace Value

/-- The field of a table. -/
def field? (fields : List (String × Value)) (key : String) : Option Value :=
  (fields.find? (·.1 == key)).map (·.2)

/-- JSON writes numbers positionally from `1e-6` up to, but not including,
    `1e21`, and exponents without padding. -/
def jsonNumber : NumberLayout := ⟨-5, 21, 1⟩

/-- How JSON text writes one character of a string.  `html` also escapes
    the characters that are special in HTML. -/
def jsonChar (html : Bool) (c : Char) : List Char :=
  if c = '"' then ['\\', '"']
  else if c = '\\' then ['\\', '\\']
  else if c = '\n' then ['\\', 'n']
  else if c = '\r' then ['\\', 'r']
  else if c = '\t' then ['\\', 't']
  else if c = '\x08' then ['\\', 'b']
  else if c = '\x0c' then ['\\', 'f']
  else if c.toNat < 0x20 || c.toNat = 0x2028 || c.toNat = 0x2029
      || html && (c = '<' || c = '>' || c = '&') then
    '\\' :: 'u' :: Text.hexDigits 4 c.toNat
  else [c]

/-- A JSON string. -/
def jsonString (html : Bool) (s : String) : List Char :=
  '"' :: s.toList.flatMap (jsonChar html) ++ ['"']

mutual

/-- The compact JSON text of a value. -/
def compact (html : Bool) : Value → List Char
  | .null => "null".toList
  | .bool b => (if b then "true" else "false").toList
  | .int n => (Text.intText n).toList
  | .float x => (floatText jsonNumber x).toList
  | .text s => jsonString html s
  | .list items => '[' :: compactItems html items ++ [']']
  | .table fields => '\x7b' :: compactFields html fields ++ ['\x7d']

/-- The items of a list with commas between them. -/
def compactItems (html : Bool) : List Value → List Char
  | [] => []
  | [v] => compact html v
  | v :: w :: rest => compact html v ++ ',' :: compactItems html (w :: rest)

/-- The fields of a table with commas between them. -/
def compactFields (html : Bool) : List (String × Value) → List Char
  | [] => []
  | [(k, v)] => jsonString html k ++ ':' :: compact html v
  | (k, v) :: f :: rest =>
    jsonString html k ++ ':' :: compact html v ++ ',' :: compactFields html (f :: rest)

end

mutual

/-- The same value with the fields of every table in order of their keys. -/
def sortKeys : Value → Value
  | .list items => .list (sortItems items)
  | .table fields => .table ((sortFields fields).mergeSort fun a b => a.1 ≤ b.1)
  | v => v

/-- Sorts the tables inside the items of a list. -/
def sortItems : List Value → List Value
  | [] => []
  | v :: rest => sortKeys v :: sortItems rest

/-- Sorts the tables inside the fields of a table. -/
def sortFields : List (String × Value) → List (String × Value)
  | [] => []
  | (k, v) :: rest => (k, sortKeys v) :: sortFields rest

end

end Value

end MarkupLint.Data
