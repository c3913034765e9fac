import MarkupLint.Text.Blank
import MarkupLint.Text.Integer

/-! # Comma-separated values

    Records of fields divided by a delimiter.  A field may stand between
    double quotes, inside which delimiters and line breaks are ordinary and
    a quote is written twice; a lone quote is taken as it is.  Empty lines
    are passed over. -/

namespace MarkupLint.Data.Csv

/-- How the fields are written. -/
structure Dialect where
  delimiter : Char := ','
  /-- Whether white space before a field is dropped. -/
  trim : Bool := true
  deriving Repr

/-- Whether a character can divide fields. -/
def Dialect.isValid (d : Dialect) : Bool :=
  d.delimiter ≠ '\x00' && d.delimiter ≠ '"' && d.delimiter ≠ '\r' && d.delimiter ≠ '\n'
    && d.delimiter ≠ '\ufffd'

/-- One line feed at the end of every line, and no carriage return before
    it or at the end of the text. -/
def normalize : List Char → List Char
  | [] => []
  | ['\r'] => []
  | '\r' :: '\n' :: rest => '\n' :: normalize rest
  | c :: rest => c :: normalize rest

/-- What ended a field: a delimiter, after which the record goes on, or the
    end of the record. -/
inductive Ending where
  | delimiter | record
  deriving DecidableEq, Repr

/-- A field without quotes, its ending, and the text after that. -/
def plainField (d : Dialect) : List Char → List Char × Ending × List Char
  | [] => ([], .record, [])
  | c :: rest =>
    if c = d.delimiter then ([], .delimiter, rest)
    else if c = '\n' then ([], .record, rest)
    else
      let (field, ending, after) := plainField d rest
      (c :: field, ending, after)

/-- The field after an opening quote, its ending, and the text after that. -/
def quotedField (d : Dialect) : List Char → List Char × Ending × List Char
  | [] => ([], .record, [])
  | ['"'] => ([], .record, [])
  | '"' :: '"' :: rest =>
    let (field, ending, after) := quotedField d rest
    ('"' :: field, ending, after)
  | '"' :: c :: rest =>
    if c = d.delimiter then ([], .delimiter, rest)
    else if c = '\n' then ([], .record, rest)
    else
      let (field, ending, after) := quotedField d (c :: rest)
      ('"' :: field, ending, after)
  | c :: rest =>
    let (field, ending, after) := quotedField d rest
    (c :: field, ending, after)

/-- A field, its ending, and the text after that. -/
def field (d : Dialect) (s : List Char) : List Char × Ending × List Char :=
  let s := if d.trim then s.dropWhile fun c => c ≠ '\n' && Text.isBlankChar c else s
  match s with
  | '"' :: rest => quotedField d rest
  | _ => plainField d s

/-- The fields of a record and the text after it, at most `count` fields. -/
def record (d : Dialect) : Nat → List Char → List (List Char) × List Char
  | 0, s => ([], s)
  | count + 1, s =>
    match field d s with
    | (f, .delimiter, rest) =>
      let (fields, after) := record d count rest
      (f :: fields, after)
    | (f, .record, rest) => ([f], rest)

/-- The records of a normalized text, at most `count` of them. -/
def recordsWithin (d : Dialect) : Nat → List Char → List (List (List Char))
  | 0, _ => []
  | count + 1, s =>
    match s.dropWhile (· == '\n') with
    | [] => []
    | c :: rest =>
      let (fields, after) := record d (rest.length + 2) (c :: rest)
      fields :: recordsWithin d count after

/-- The records of a text; none if the delimiter cannot be one. -/
def records? (d : Dialect) (s : List Char) : Option (List (List (List Char))) :=
  if d.isValid then
    let s := normalize s
    some (recordsWithin d (s.length + 1) s)
  else none

end MarkupLint.Data.Csv

/-! ## Single rows

    The first row of comma-separated values, read strictly: a quote stands
    at the start of a field or is written twice, and what starts with a
    quote also ends with one. -/

namespace MarkupLint.Data.Row

/-- Where a row is malformed: a line, and a column in bytes. -/
structure Place where
  line : Nat
  column : Nat
  deriving DecidableEq, Repr

/-- Why a row cannot be read. -/
inductive Error where
  /-- There is no row. -/
  | missing
  /-- A quote inside a field that does not start with one. -/
  | bareQuote (at_ : Place)
  /-- A quote that ends nothing, or none where there should be one.  The row
      starts on line `start`. -/
  | quote (start : Nat) (at_ : Place)
  deriving DecidableEq, Repr

/-- The text of a row error. -/
def Error.message : Error → String
  | .missing => "EOF"
  | .bareQuote p =>
    "parse error on line " ++ Text.natText p.line ++ ", column " ++ Text.natText p.column
      ++ ": bare \" in non-quoted field"
  | .quote start p =>
    (if start = p.line then "" else "record on line " ++ Text.natText start ++ "; ")
      ++ "parse error on line " ++ Text.natText p.line ++ ", column " ++ Text.natText p.column
      ++ ": extraneous or missing \" in quoted-field"

/-- The number of bytes of a text. -/
def width (s : List Char) : Nat := s.foldl (fun n c => n + c.utf8Size) 0

/-- What a field in quotes ends in: nothing more, or another field. -/
abbrev Ended := List Char × Option (List Char × Place)

/-- Reads a field after its opening quote. -/
def quoted (start : Nat) (p : Place) : List Char → Except Error Ended
  | [] => .error (.quote start p)
  | '"' :: '"' :: rest => do
    let (field, ending) ← quoted start { p with column := p.column + 2 } rest
    return ('"' :: field, ending)
  | '"' :: ',' :: rest => .ok ([], some (rest, { p with column := p.column + 2 }))
  | '"' :: '\n' :: _ => .ok ([], none)
  | ['"'] => .ok ([], none)
  | '"' :: _ => .error (.quote start p)
  | '\n' :: rest => do
    let next : Place :=
      if rest.isEmpty then { p with column := p.column + 1 } else ⟨p.line + 1, 1⟩
    let (field, ending) ← quoted start next rest
    return ('\n' :: field, ending)
  | c :: rest => do
    let (field, ending) ← quoted start { p with column := p.column + c.utf8Size } rest
    return (c :: field, ending)

/-- Reads a field that does not start with a quote. -/
def plain (p : Place) (s : List Char) : Except Error Ended :=
  let field := s.takeWhile fun c => c ≠ ',' && c ≠ '\n'
  let before := field.takeWhile (· ≠ '"')
  if before.length < field.length then
    .error (.bareQuote { p with column := p.column + width before })
  else
    match s.drop field.length with
    | ',' :: rest => .ok (field, some (rest, { p with column := p.column + width field + 1 }))
    | _ => .ok (field, none)

/-- Reads the fields of a row, at most `count`. -/
def fields (start : Nat) : Nat → Place → List Char → Except Error (List (List Char))
  | 0, _, _ => .ok []
  | count + 1, p, s => do
    let (field, ending) ← match s with
      | '"' :: rest => quoted start { p with column := p.column + 1 } rest
      | _ => plain p s
    match ending with
    | none => return [field]
    | some (rest, p) => return field :: (← fields start count p rest)

/-- Reads the first row of a text. -/
def first (s : List Char) : Except Error (List (List Char)) :=
  let s := Csv.normalize s
  let blank := s.takeWhile (· = '\n')
  let s := s.drop blank.length
  if s.isEmpty then .error .missing
  else fields (blank.length + 1) (s.length + 1) ⟨blank.length + 1, 1⟩ s

end MarkupLint.Data.Row
