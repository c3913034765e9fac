import MarkupLint.Config.Number
import MarkupLint.Config.Setting
import MarkupLint.Data.Table

/-! # TOML

    The TOML format: pairs of dotted keys and values below table headers.
    A file is read into statements, and these into one table; a name can
    only be given a value once, and a table only one header. -/

namespace MarkupLint.Toml

/-! ## Lines -/

/-- Blanks within a line. -/
def isGap (c : Char) : Bool := c = ' ' || c = '\t'

/-- Characters that may stand in strings and comments. -/
def isPlain (c : Char) : Bool := c = '\t' || 0x20 ≤ c.toNat && c.toNat ≠ 0x7f

/-- Passes over blanks. -/
def skipGap (s : List Char) : List Char := s.dropWhile isGap

/-- Passes over a line break or the end of the text. -/
def lineBreak? : List Char → Option (List Char)
  | [] => some []
  | '\n' :: rest => some rest
  | '\r' :: '\n' :: rest => some rest
  | _ => none

/-- Passes over a comment, up to the line break. -/
def skipComment? : List Char → Option (List Char)
  | '#' :: rest =>
    let line := rest.takeWhile (· ≠ '\n')
    let body := if line.length < rest.length && line.getLast? = some '\r' then line.dropLast else line
    if body.all isPlain then some (rest.drop body.length) else none
  | s => some s

/-- Passes over what may follow a value or a header on its line. -/
def lineEnd? (s : List Char) : Option (List Char) := do lineBreak? (← skipComment? (skipGap s))

/-- Passes over blanks, comments and line breaks. -/
def skipSpace? : Nat → List Char → Option (List Char)
  | 0, _ => none
  | fuel + 1, s =>
    match skipGap s with
    | '#' :: rest => do skipSpace? fuel (← skipComment? ('#' :: rest))
    | '\n' :: rest => skipSpace? fuel rest
    | '\r' :: '\n' :: rest => skipSpace? fuel rest
    | s => some s

/-! ## Strings -/

/-- The character that a letter after a backslash stands for. -/
def escape? : Char → Option Char
  | 'b' => some '\x08'
  | 't' => some '\t'
  | 'n' => some '\n'
  | 'f' => some '\x0c'
  | 'r' => some '\r'
  | 'e' => some '\x1b'
  | '"' => some '"'
  | '\\' => some '\\'
  | _ => none

/-- The character with a hexadecimal number. -/
def coded? (digits : List Char) : Option Char := do
  let n ← Text.digitsValue? 16 digits
  if n < 0xd800 || 0xe000 ≤ n && n < 0x110000 then some (Char.ofNat n) else none

/-- Adds characters in front of what was read. -/
def prepend (cs : List Char) (x : Option (List Char × List Char)) :
    Option (List Char × List Char) :=
  x.map fun (text, rest) => (cs ++ text, rest)

/-- The end of a string in triple quotes: up to two more quotes belong to
    the string. -/
def closing (quote : Char) (s : List Char) : List Char × List Char :=
  let extra := (s.takeWhile (· = quote)).take 2
  (extra, s.drop extra.length)

/-- Whether nothing but blanks comes before the next line break. -/
def breaksLine (s : List Char) : Bool :=
  match s.dropWhile isGap with
  | '\n' :: _ => true
  | '\r' :: '\n' :: _ => true
  | _ => false

/-- Whether a character may stand in a string over several lines. -/
def isLineText (c : Char) (rest : List Char) : Bool :=
  isPlain c || c = '\n' || c = '\r' && rest.head? = some '\n'

/-- The rest of a string with escapes, after its opening quotes.  After a
    backslash at the end of a line, blanks are passed over (`trim`). -/
def escaped (multi : Bool) (trim : Bool) : List Char → Option (List Char × List Char)
  | [] => none
  | c :: rest =>
    if trim && (isGap c || c = '\n' || c = '\r') then escaped multi true rest
    else if c = '"' then
      if !multi then some ([], rest)
      else
        match rest with
        | '"' :: '"' :: after => some (closing '"' after)
        | _ => prepend ['"'] (escaped multi false rest)
    else if c = '\\' then
      match rest with
      | 'u' :: a :: b :: c :: d :: after =>
        (coded? [a, b, c, d]).bind fun x => prepend [x] (escaped multi false after)
      | 'U' :: a :: b :: c :: d :: e :: f :: g :: h :: after =>
        (coded? [a, b, c, d, e, f, g, h]).bind fun x => prepend [x] (escaped multi false after)
      | e :: after =>
        match escape? e with
        | some x => prepend [x] (escaped multi false after)
        | none => if multi && breaksLine rest then escaped multi true after else none
      | [] => none
    else if isPlain c || multi && isLineText c rest then prepend [c] (escaped multi false rest)
    else none

/-- The rest of a string without escapes, after its opening quotes. -/
def verbatim (multi : Bool) : List Char → Option (List Char × List Char)
  | [] => none
  | c :: rest =>
    if c = '\x27' then
      if !multi then some ([], rest)
      else
        match rest with
        | '\x27' :: '\x27' :: after => some (closing '\x27' after)
        | _ => prepend ['\x27'] (verbatim multi rest)
    else if isPlain c || multi && isLineText c rest then prepend [c] (verbatim multi rest)
    else none

/-- Passes over a line break at the start of a string over several lines. -/
def skipFirstBreak : List Char → List Char
  | '\n' :: rest => rest
  | '\r' :: '\n' :: rest => rest
  | s => s

/-- Reads a string that starts with a quote. -/
def string? : List Char → Option (List Char × List Char)
  | '"' :: '"' :: '"' :: rest => escaped true false (skipFirstBreak rest)
  | '"' :: rest => escaped false false rest
  | '\x27' :: '\x27' :: '\x27' :: rest => verbatim true (skipFirstBreak rest)
  | '\x27' :: rest => verbatim false rest
  | _ => none

/-! ## Keys -/

/-- Characters of a key without quotes. -/
def isBare (c : Char) : Bool := c.isAlphanum || c = '_' || c = '-'

/-- Reads one name of a key. -/
def name? : List Char → Option (String × List Char)
  | '"' :: rest => (escaped false false rest).map fun (s, rest) => (String.ofList s, rest)
  | '\x27' :: rest => (verbatim false rest).map fun (s, rest) => (String.ofList s, rest)
  | s =>
    let bare := s.takeWhile isBare
    if bare.isEmpty then none else some (String.ofList bare, s.drop bare.length)

/-- Reads a key, names with dots between them. -/
def key? : Nat → List Char → Option (List String × List Char)
  | 0, _ => none
  | fuel + 1, s => do
    let (name, rest) ← name? s
    match skipGap rest with
    | '.' :: rest =>
      let (names, rest) ← key? fuel (skipGap rest)
      return (name :: names, rest)
    | rest => return ([name], rest)

/-! ## Words -/

/-- Characters of a number, a date or a truth value. -/
def isWordChar (c : Char) : Bool :=
  c.isAlphanum || c = '_' || c = '+' || c = '-' || c = '.' || c = ':'

/-- Whether a text is two digits below a bound, and what follows them. -/
def twoDigits? (bound : Nat) : List Char → Option (List Char)
  | a :: b :: rest => do
    let n ← Text.digitsValue? 10 [a, b]
    if n < bound then some rest else none
  | _ => none

/-- What follows a time of day. -/
def time? (s : List Char) : Option (List Char) := do
  let ':' :: s ← twoDigits? 24 s | none
  let ':' :: s ← twoDigits? 60 s | none
  match ← twoDigits? 61 s with
  | '.' :: s =>
    let digits := s.takeWhile Char.isDigit
    if digits.isEmpty then none else some (s.drop digits.length)
  | s => some s

/-- What follows a date. -/
def date? (s : List Char) : Option (List Char) := do
  let _ ← Text.digitsValue? 10 (s.take 4)
  let '-' :: m ← if s.length < 5 then none else some (s.drop 4) | none
  let '-' :: d ← twoDigits? 13 m | none
  let rest ← twoDigits? 32 d
  if m.take 2 = ['0', '0'] || d.take 2 = ['0', '0'] then none else some rest

/-- Whether a text is the offset of a time zone. -/
def isOffset : List Char → Bool
  | [] => true
  | [c] => c = 'Z' || c = 'z'
  | c :: rest => (c = '+' || c = '-') && (do
      let ':' :: s ← twoDigits? 24 rest | none
      twoDigits? 60 s) = some []

/-- Whether a text is a date, a time, or both. -/
def isMoment (s : List Char) : Bool :=
  match date? s with
  | some [] => true
  | some (c :: rest) =>
    (c = 'T' || c = 't' || c = ' ') && match time? rest with
      | some zone => isOffset zone
      | none => false
  | none => time? s = some []

/-- The value of an integer. -/
def integer? (s : List Char) : Option Int :=
  match Numeral.radix? s with
  | some (base, digits) => (Numeral.grouped? base digits).bind (Numeral.word? false)
  | none =>
    let (negative, digits) := Numeral.signed s
    if digits.head? = some '0' && 1 < digits.length then none
    else (Numeral.grouped? 10 digits).bind (Numeral.word? negative)

/-- The value of a fraction. -/
def fraction? (s : List Char) : Option Float := do
  let (negative, body) := Numeral.signed s
  if body = "inf".toList then return if negative then -(1.0 / 0.0) else 1.0 / 0.0
  if body = "nan".toList then return 0.0 / 0.0
  let (whole, fraction, exponent) := Numeral.parts body
  if fraction.isNone && exponent.isNone then none
  else if whole.head? = some '0' && 1 < whole.length then none
  else
    let n ← Numeral.grouped? 10 whole
    let digits := (fraction.getD ['0']).filter (· ≠ '_')
    let f ← Numeral.grouped? 10 (fraction.getD ['0'])
    let (down, power) := Numeral.signed (exponent.getD ['0'])
    let e ← Numeral.grouped? 10 power
    return Numeral.scientific negative (n * Nat.pow 10 digits.length + f)
      ((if down then -(e : Int) else e) - digits.length)

/-- The value of a word. -/
def word? (s : List Char) : Option Data.Value :=
  if s = "true".toList then some (.bool true)
  else if s = "false".toList then some (.bool false)
  else if isMoment s then some .null
  else match integer? s with
    | some n => some (.int n)
    | none => (fraction? s).map .float

/-- The word at the start of a text; a blank may stand between a date and a
    time. -/
def takeWord (s : List Char) : List Char :=
  let first := s.takeWhile isWordChar
  match s.drop first.length with
  | ' ' :: rest =>
    let second := rest.takeWhile isWordChar
    if date? first = some [] && (time? second).isSome then first ++ ' ' :: second else first
  | _ => first

/-! ## Tables -/

/-- A name in a table under construction. -/
inductive Node where
  | leaf (value : Setting)
  /-- A table, and whether nothing more may be said of it by a header. -/
  | table (explicit : Bool) (fields : List (String × Node))
  /-- An array of tables, the last of which is being filled. -/
  | tables (items : List (List (String × Node)))
  deriving Inhabited

/-- The names in a table. -/
abbrev Fields := Data.Table Node

/-- Changes the table at a path; tables on the way are made if they are
    missing. -/
def update (f : Fields → Option Fields) : List String → Fields → Option Fields
  | [], fields => f fields
  | name :: path, fields =>
    match fields.get? name with
    | none => (update f path []).map fun inner => fields.set name (.table false inner)
    | some (.table explicit inner) =>
      (update f path inner).map fun inner => fields.set name (.table explicit inner)
    | some (.tables items) =>
      (update f path (items.getLastD [])).map fun last =>
        fields.set name (.tables (items.dropLast ++ [last]))
    | some (.leaf _) => none

/-- Gives a dotted key a value. -/
def assign (value : Setting) : List String → Fields → Option Fields
  | [], _ => none
  | [name], fields => if fields.has name then none else some (fields.set name (.leaf value))
  | name :: path, fields =>
    match fields.get? name with
    | none => (assign value path []).map fun inner => fields.set name (.table false inner)
    | some (.table false inner) =>
      (assign value path inner).map fun inner => fields.set name (.table false inner)
    | some _ => none

/-- Gives a table its header. -/
def declare (name : String) (fields : Fields) : Option Fields :=
  match fields.get? name with
  | none => some (fields.set name (.table true []))
  | some (.table false inner) => some (fields.set name (.table true inner))
  | some _ => none

/-- Starts another table in an array of tables. -/
def declareNext (name : String) (fields : Fields) : Option Fields :=
  match fields.get? name with
  | none => some (fields.set name (.tables [[]]))
  | some (.tables items) => some (fields.set name (.tables (items ++ [[]])))
  | some _ => none

mutual

/-- Closes a table and those in it to further headers. -/
def Node.close : Node → Node
  | .leaf v => .leaf v
  | .table _ fields => .table true (closeFields fields)
  | .tables items => .tables items

/-- Closes every table among some names. -/
def closeFields : List (String × Node) → List (String × Node)
  | [] => []
  | (name, node) :: rest => (name, node.close) :: closeFields rest

end

mutual

/-- What a finished node says. -/
def Node.setting : Node → Setting
  | .leaf v => v
  | .table _ fields => .table (fieldSettings fields)
  | .tables items => .list (itemSettings items)

/-- What the names in a table say. -/
def fieldSettings : List (String × Node) → List (String × Setting)
  | [] => []
  | (name, node) :: rest => (name, node.setting) :: fieldSettings rest

/-- What the tables of an array say. -/
def itemSettings : List (List (String × Node)) → List Setting
  | [] => []
  | fields :: rest => .table (fieldSettings fields) :: itemSettings rest

end

/-! ## Values -/

mutual

/-- Reads a value. -/
def value? : Nat → List Char → Option (Setting × List Char)
  | 0, _ => none
  | fuel + 1, s =>
    match s with
    | '"' :: _ => (string? s).map fun (t, rest) =>
      (.scalar (String.ofList t) (.text (String.ofList t)), rest)
    | '\x27' :: _ => (string? s).map fun (t, rest) =>
      (.scalar (String.ofList t) (.text (String.ofList t)), rest)
    | '[' :: rest => (items? fuel rest).map fun (items, rest) => (.list items, rest)
    | '\x7b' :: rest =>
      match skipGap rest with
      | '\x7d' :: rest => some (.table [], rest)
      | rest => do
        let (fields, rest) ← pairs? fuel [] rest
        return (.table (fieldSettings fields), rest)
    | _ => do
      let word := takeWord s
      let value ← word? word
      return (.scalar (String.ofList word) value, s.drop word.length)

/-- Reads the items of an array up to its end. -/
def items? : Nat → List Char → Option (List Setting × List Char)
  | 0, _ => none
  | fuel + 1, s => do
    match ← skipSpace? (s.length + 1) s with
    | ']' :: rest => return ([], rest)
    | s =>
      let (item, rest) ← value? fuel s
      match ← skipSpace? (rest.length + 1) rest with
      | ',' :: rest =>
        let (items, rest) ← items? fuel rest
        return (item :: items, rest)
      | ']' :: rest => return ([item], rest)
      | _ => none

/-- Reads the pairs of an inline table up to its end. -/
def pairs? : Nat → Fields → List Char → Option (Fields × List Char)
  | 0, _, _ => none
  | fuel + 1, fields, s => do
    let (path, rest) ← key? (s.length + 1) (skipGap s)
    let '=' :: rest := skipGap rest | none
    let (value, rest) ← value? fuel (skipGap rest)
    let fields ← assign value path fields
    match skipGap rest with
    | ',' :: rest => pairs? fuel fields rest
    | '\x7d' :: rest => return (fields, rest)
    | _ => none

end

/-! ## Files -/

/-- One line of a file that says something. -/
inductive Statement where
  | header (path : List String)
  | arrayHeader (path : List String)
  | pair (path : List String) (value : Setting)

/-- Reads a header after its opening bracket. -/
def header? (s : List Char) : Option (Statement × List Char) := do
  let fuel := s.length + 1
  match s with
  | '[' :: rest =>
    let (path, rest) ← key? fuel (skipGap rest)
    let ']' :: ']' :: rest := rest | none
    return (.arrayHeader path, rest)
  | _ =>
    let (path, rest) ← key? fuel (skipGap s)
    let ']' :: rest := rest | none
    return (.header path, rest)

/-- Reads a statement. -/
def statement? (s : List Char) : Option (Statement × List Char) := do
  let fuel := s.length + 1
  match s with
  | '[' :: rest => header? rest
  | _ =>
    let (path, rest) ← key? fuel s
    let '=' :: rest := rest | none
    let (value, rest) ← value? fuel (skipGap rest)
    return (.pair path value, rest)

/-- Reads the statements of a file. -/
def statements? : Nat → List Char → Option (List Statement)
  | 0, _ => none
  | fuel + 1, s => do
    let s ← skipSpace? (s.length + 1) s
    if s.isEmpty then return []
    let (first, rest) ← statement? s
    let rest ← lineEnd? rest
    return first :: (← statements? fuel rest)

/-- The tables that statements built so far, and the path of the last header. -/
structure Building where
  fields : Fields := []
  current : List String := []

namespace Building

/-- Ends the table that is being filled. -/
def finish (b : Building) : Option Building := do
  return { b with fields := ← update (fun fs => some (closeFields fs)) b.current b.fields }

/-- Starts a table with a header. -/
def start (b : Building) (path : List String) (f : String → Fields → Option Fields) :
    Option Building := do
  let b ← b.finish
  let fields ← update (f (path.getLastD "")) path.dropLast b.fields
  return { fields := fields, current := path }

/-- Adds a statement. -/
def add (b : Building) : Statement → Option Building
  | .header path => b.start path declare
  | .arrayHeader path => b.start path declareNext
  | .pair path value => do
    return { b with fields := ← update (assign value path) b.current b.fields }

end Building

/-- Reads a file; none if it is malformed. -/
def parse? (text : List Char) : Option Setting := do
  let statements ← statements? (text.length + 1) text
  let b ← statements.foldlM Building.add {}
  return .table (fieldSettings b.fields)

end MarkupLint.Toml
