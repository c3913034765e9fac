import MarkupLint.Config.Number
import MarkupLint.Config.Setting
import MarkupLint.Data.Table
import MarkupLint.Text.Blank
import MarkupLint.Text.Search

/-! # YAML

    The part of the YAML format that configuration files are written in:
    block and flow collections, plain and quoted scalars, and literal and
    folded blocks.  Anchors, aliases and tags are refused. -/

namespace MarkupLint.Yaml

/-! ## Scalars -/

/-- The value of an integer in one of the four bases. -/
def integer? (s : List Char) : Option Int :=
  let (negative, digits) := Numeral.signed (s.filter (· ≠ '_'))
  let (base, digits) :=
    match digits with
    | '0' :: 'x' :: rest => (16, rest)
    | '0' :: 'X' :: rest => (16, rest)
    | '0' :: 'o' :: rest => (8, rest)
    | '0' :: 'O' :: rest => (8, rest)
    | '0' :: 'b' :: rest => (2, rest)
    | '0' :: 'B' :: rest => (2, rest)
    | '0' :: c :: rest => (8, c :: rest)
    | _ => (10, digits)
  (Text.digitsValue? base digits).bind (Numeral.word? negative)

/-- The value of a fraction. -/
def fraction? (s : List Char) : Option Float := do
  let (negative, body) := Numeral.signed (s.filter (· ≠ '_'))
  if [".inf", ".Inf", ".INF"].contains (String.ofList body) then
    return if negative then -(1.0 / 0.0) else 1.0 / 0.0
  if [".nan", ".NaN", ".NAN"].contains (String.ofList s) then return 0.0 / 0.0
  let (whole, fraction, exponent) := Numeral.parts body
  let after := fraction.getD []
  if whole.isEmpty && after.isEmpty then none
  else
    let n ← Text.digitsValue? 10 ('0' :: whole ++ after)
    let (down, power) := Numeral.signed (exponent.getD ['0'])
    let e ← Text.digitsValue? 10 power
    return Numeral.scientific negative n ((if down then -(e : Int) else e) - after.length)

/-- What a plain scalar is taken for. -/
def resolve (s : String) : Data.Value :=
  if ["", "~", "null", "Null", "NULL"].contains s then .null
  else if ["true", "True", "TRUE"].contains s then .bool true
  else if ["false", "False", "FALSE"].contains s then .bool false
  else
    let numeric := match s.toList.head? with
      | some c => c.isDigit || c = '+' || c = '-' || c = '.'
      | none => false
    if !numeric then .text s
    else match integer? s.toList, fraction? s.toList with
      | some n, _ => .int n
      | none, some x => .float x
      | none, none => .text s

/-- A plain scalar. -/
def plain (s : List Char) : Setting := .scalar (String.ofList s) (resolve (String.ofList s))

/-- A scalar that is a text whatever it looks like. -/
def textual (s : List Char) : Setting := .scalar (String.ofList s) (.text (String.ofList s))

/-! ## Quoted scalars -/

/-- The characters that letters after a backslash stand for. -/
def escapes : List (Char × Nat) :=
  [('0', 0), ('a', 7), ('b', 8), ('t', 9), ('\t', 9), ('n', 10), ('v', 11), ('f', 12), ('r', 13),
   ('e', 27), (' ', 32), ('"', 34), ('/', 47), ('\\', 92), ('\x27', 39), ('N', 0x85), ('_', 0xa0),
   ('L', 0x2028), ('P', 0x2029)]

/-- How many hexadecimal digits follow a letter after a backslash. -/
def codeWidth? : Char → Option Nat
  | 'x' => some 2
  | 'u' => some 4
  | 'U' => some 8
  | _ => none

/-- Blanks within a line. -/
def isGap (c : Char) : Bool := c = ' ' || c = '\t'

/-- What line breaks and the blanks around them come to: a blank for one
    break, and all breaks but the first for several. -/
def folded (breaks : Nat) : List Char :=
  if breaks ≤ 1 then [' '] else List.replicate (breaks - 1) '\n'

/-- The rest of a scalar in quotes; `done` holds what was read in reverse. -/
def quotedRest (quote : Char) : Nat → List Char → List Char → Option (List Char × List Char)
  | 0, _, _ => none
  | _ + 1, _, [] => none
  | fuel + 1, done, c :: rest =>
    if c = quote then
      if quote = '\x27' && rest.head? = some '\x27' then
        quotedRest quote fuel (c :: done) (rest.drop 1)
      else some (done.reverse, rest)
    else if c = '\n' then
      let run := rest.takeWhile fun c => isGap c || c = '\n'
      let space := folded (run.count '\n' + 1)
      quotedRest quote fuel (space.reverse ++ done.dropWhile isGap) (rest.drop run.length)
    else if c = '\\' && quote = '"' then
      match rest with
      | [] => none
      | '\n' :: rest => quotedRest quote fuel done (rest.dropWhile isGap)
      | e :: rest =>
        match escapes.lookup e, codeWidth? e with
        | some n, _ => quotedRest quote fuel (Char.ofNat n :: done) rest
        | none, some width => do
          let n ← if rest.length < width then none else Text.digitsValue? 16 (rest.take width)
          if 0xd800 ≤ n && n < 0xe000 || 0x10ffff < n then none
          else quotedRest quote fuel (Char.ofNat n :: done) (rest.drop width)
        | none, none => none
    else quotedRest quote fuel (c :: done) rest

/-- Reads a scalar in quotes. -/
def quoted? : List Char → Option (List Char × List Char)
  | c :: rest =>
    if c = '"' || c = '\x27' then quotedRest c (rest.length + 1) [] rest else none
  | [] => none

/-! ## Flow collections -/

/-- The brackets and commas of flow collections. -/
def isFlowMark (c : Char) : Bool :=
  c = ',' || c = '[' || c = ']' || c = '\x7b' || c = '\x7d'

/-- Passes over blanks, line breaks and comments. -/
def skipFlow : Nat → List Char → List Char
  | 0, s => s
  | fuel + 1, s =>
    match s.dropWhile fun c => isGap c || c = '\n' with
    | '#' :: rest => skipFlow fuel (rest.dropWhile (· ≠ '\n'))
    | s => s

/-- Passes over space between the parts of a flow collection. -/
def skipSpace (s : List Char) : List Char := skipFlow (s.length + 1) s

/-- Whether a colon before this text ends a key of a flow collection. -/
def endsFlowKey (s : List Char) : Bool :=
  match s.head? with
  | none => true
  | some c => isGap c || c = '\n' || isFlowMark c

/-- The plain scalar at the start of a text in a flow collection. -/
def takeFlowPlain : List Char → List Char
  | [] => []
  | c :: rest =>
    if isFlowMark c || c = ':' && endsFlowKey rest then []
    else if (isGap c || c = '\n') && rest.head? = some '#' then []
    else c :: takeFlowPlain rest

/-- Characters that a plain scalar cannot start with. -/
def isReserved (c : Char) : Bool :=
  isFlowMark c || c = '#' || c = '&' || c = '*' || c = '!' || c = '|' || c = '>' || c = '\x27'
    || c = '"' || c = '%' || c = '@' || c = '\x60'

/-- Whether a plain scalar can start here. -/
def startsPlain : List Char → Bool
  | [] => false
  | c :: rest =>
    if c = '-' || c = '?' || c = ':' then !endsFlowKey rest else !isReserved c

/-- The name that a scalar gives a field. -/
def keyName? : Setting → Option String
  | .scalar text _ => some text
  | _ => none

/-- Adds a field; a name can be given once. -/
def addField (fields : Data.Table Setting) (name : String) (value : Setting) :
    Option (Data.Table Setting) :=
  if fields.has name then none else some (fields.set name value)

mutual

/-- Reads a value of a flow collection. -/
def flow? : Nat → List Char → Option (Setting × List Char)
  | 0, _ => none
  | fuel + 1, s =>
    match s with
    | '[' :: rest => (flowItems? fuel (skipSpace rest)).map fun (items, rest) => (.list items, rest)
    | '\x7b' :: rest =>
      (flowFields? fuel [] (skipSpace rest)).map fun (fields, rest) => (.table fields, rest)
    | '"' :: _ => (quoted? s).map fun (t, rest) => (textual t, rest)
    | '\x27' :: _ => (quoted? s).map fun (t, rest) => (textual t, rest)
    | _ =>
      if startsPlain s then
        let t := takeFlowPlain s
        some (plain (Text.collapse t), s.drop t.length)
      else none

/-- Reads the items of a flow sequence up to its end. -/
def flowItems? : Nat → List Char → Option (List Setting × List Char)
  | 0, _ => none
  | fuel + 1, s =>
    match s with
    | ']' :: rest => some ([], rest)
    | _ => do
      let (item, rest) ← flow? fuel s
      let rest := skipSpace rest
      let (item, rest) ← match rest with
        | ':' :: rest => do
          let name ← keyName? item
          let (value, rest) ← flow? fuel (skipSpace rest)
          pure (Setting.table [(name, value)], skipSpace rest)
        | _ => pure (item, rest)
      match rest with
      | ',' :: rest =>
        let (items, rest) ← flowItems? fuel (skipSpace rest)
        return (item :: items, rest)
      | ']' :: rest => return ([item], rest)
      | _ => none

/-- Reads the fields of a flow mapping up to its end. -/
def flowFields? : Nat → Data.Table Setting → List Char →
    Option (Data.Table Setting × List Char)
  | 0, _, _ => none
  | fuel + 1, fields, s =>
    match s with
    | '\x7d' :: rest => some (fields, rest)
    | _ => do
      let (key, rest) ← flow? fuel s
      let name ← keyName? key
      let rest := skipSpace rest
      let (value, rest) ← match rest with
        | ':' :: rest =>
          match skipSpace rest with
          | ',' :: rest => pure (plain [], ',' :: rest)
          | '\x7d' :: rest => pure (plain [], '\x7d' :: rest)
          | rest => do
            let (value, rest) ← flow? fuel rest
            pure (value, skipSpace rest)
        | _ => pure (plain [], rest)
      let fields ← addField fields name value
      match rest with
      | ',' :: rest => flowFields? fuel fields (skipSpace rest)
      | '\x7d' :: rest => return (fields, rest)
      | _ => none

end

/-! ## Block collections -/

/-- The number of blanks a line starts with. -/
def indentOf (line : List Char) : Nat := (line.takeWhile (· = ' ')).length

/-- Whether a line holds nothing, or only a comment. -/
def isVoid (line : List Char) : Bool :=
  match line.dropWhile isGap with
  | [] => true
  | c :: _ => c = '#'

/-- The lines from the first that holds something. -/
def skipVoid (lines : List (List Char)) : List (List Char) := lines.dropWhile isVoid

/-- Whether a text is an item of a block sequence. -/
def isItem : List Char → Bool
  | ['-'] => true
  | '-' :: c :: _ => isGap c
  | _ => false

/-- What is left of a line after a value: nothing, or a comment. -/
def restIsVoid (s : List Char) : Bool :=
  match s with
  | [] => true
  | c :: _ => isGap c && isVoid s

/-- The plain scalar at the start of a line, up to a comment; none if a
    colon in it would make it a key. -/
def takePlain? : List Char → Option (List Char)
  | [] => some []
  | c :: rest =>
    if isGap c && rest.head? = some '#' then some []
    else if c = ':' && (rest.head?.all isGap) then none
    else (takePlain? rest).map (c :: ·)

/-- Splits a line at the colon that ends a plain key. -/
def splitPlainKey? : List Char → Option (List Char × List Char)
  | [] => none
  | c :: rest =>
    if isGap c && rest.head? = some '#' then none
    else if c = ':' && (rest.head?.all isGap) then some ([], rest)
    else (splitPlainKey? rest).map fun (key, rest) => (c :: key, rest)

/-- The key that a line starts with, and what follows its colon. -/
def splitKey? (s : List Char) : Option (String × List Char) :=
  match quoted? s with
  | some (key, rest) =>
    match rest.dropWhile isGap with
    | ':' :: rest => if rest.head?.all isGap then some (String.ofList key, rest) else none
    | _ => none
  | none =>
    if !startsPlain s then none
    else do
      let (key, rest) ← splitPlainKey? s
      return (String.ofList (Text.trim key), rest)

/-- Goes on with a plain scalar over lines that are indented more than
    `parent`. -/
def continuePlain : Nat → Int → List Char → List (List Char) →
    Option (List Char × List (List Char))
  | 0, _, _, _ => none
  | fuel + 1, parent, done, lines =>
    let breaks := (lines.takeWhile fun l => l.all isGap).length
    match lines.drop breaks with
    | [] => some (done, lines)
    | line :: rest =>
      if (indentOf line : Int) ≤ parent || isVoid line then some (done, lines)
      else do
        let text ← takePlain? (line.dropWhile isGap)
        let joined := done ++ folded (breaks + 1) ++ Text.dropRightWhile isGap text
        if text.length < (line.dropWhile isGap).length then return (joined, rest)
        else continuePlain fuel parent joined rest

/-- How the end of a literal or folded block is kept. -/
inductive Chomp where
  | strip | clip | keep
  deriving DecidableEq

/-- Joins the lines of a folded block. -/
def foldLines : List (List Char) → List Char
  | [] => []
  | [line] => line
  | line :: next :: rest =>
    let more (l : List Char) : Bool := l.head?.any isGap
    if line.isEmpty then '\n' :: foldLines (next :: rest)
    else if more line || more next then line ++ '\n' :: foldLines (next :: rest)
    else if next.isEmpty then line ++ foldLines (next :: rest)
    else line ++ ' ' :: foldLines (next :: rest)

/-- Reads a literal or folded block after the line that announces it. -/
def blockScalar? (parent : Int) (header : List Char) (lines : List (List Char)) :
    Option (Setting × List (List Char)) := do
  let isFolded := header.head? = some '>'
  let marks := (header.drop 1).takeWhile fun c => c = '+' || c = '-' || c.isDigit
  if !restIsVoid (header.drop (marks.length + 1)) || 2 < marks.length then none
  else
    let chomp : Chomp := if marks.contains '-' then .strip
      else if marks.contains '+' then .keep else .clip
    let given := (marks.find? Char.isDigit).bind fun c => Text.digitValue? 10 c
    let first := (lines.find? fun l => !l.all isGap).map indentOf
    let indent := match given with
      | some n => (max parent 0).toNat + n
      | none => max (first.getD 0) (parent + 1).toNat
    let body := lines.takeWhile fun l => l.all (· = ' ') || indent ≤ indentOf l
    let cut := body.map (·.drop indent)
    let filled := (cut.reverse.dropWhile (·.isEmpty)).reverse
    let text := if isFolded then foldLines filled else Text.join ['\n'] filled
    let ending := match chomp with
      | .strip => []
      | .clip => if filled.isEmpty then [] else ['\n']
      | .keep => List.replicate (cut.length - filled.length + (if filled.isEmpty then 0 else 1)) '\n'
    return (textual (text ++ ending), lines.drop body.length)

/-- Reads a value that stands on the rest of a line. -/
def inline? (parent : Int) (s : List Char) (lines : List (List Char)) :
    Option (Setting × List (List Char)) :=
  let joined := Text.join ['\n'] (s :: lines)
  let finish (value : Setting) (rest : List Char) : Option (Setting × List (List Char)) :=
    match Text.splitOn '\n' rest with
    | first :: after => if restIsVoid first then some (value, after) else none
    | [] => none
  match s with
  | [] => none
  | c :: _ =>
    if c = '|' || c = '>' then blockScalar? parent s lines
    else if c = '"' || c = '\x27' then do
      let (t, rest) ← quoted? joined
      finish (textual t) rest
    else if c = '[' || c = '\x7b' then do
      let (value, rest) ← flow? (joined.length + 1) joined
      finish value rest
    else if !startsPlain s then none
    else do
      let text ← takePlain? s
      let first := Text.dropRightWhile isGap text
      if text.length < s.length then return (plain first, lines)
      else
        let (all, rest) ← continuePlain (lines.length + 1) parent first lines
        return (plain all, rest)

mutual

/-- Reads the value made of the lines that are indented more than `parent`;
    no value if there are none. -/
def node? : Nat → Int → List (List Char) → Option (Setting × List (List Char))
  | 0, _, _ => none
  | fuel + 1, parent, lines =>
    match skipVoid lines with
    | [] => some (plain [], [])
    | line :: rest =>
      let indent := indentOf line
      let text := line.drop indent
      if (indent : Int) ≤ parent then some (plain [], line :: rest)
      else if text.head? = some '\t' then none
      else if isItem text then
        (sequence? fuel indent (line :: rest)).map fun (items, rest) => (.list items, rest)
      else if (splitKey? text).isSome then
        (mapping? fuel indent [] (line :: rest)).map fun (fields, rest) => (.table fields, rest)
      else inline? parent text rest

/-- Reads the items of a block sequence. -/
def sequence? : Nat → Nat → List (List Char) → Option (List Setting × List (List Char))
  | 0, _, _ => none
  | fuel + 1, indent, lines =>
    match skipVoid lines with
    | [] => some ([], [])
    | line :: rest =>
      let text := line.drop (indentOf line)
      if indentOf line ≠ indent || !isItem text then
        if indent < indentOf line then none else some ([], line :: rest)
      else do
        let (item, rest) ← node? fuel indent ((List.replicate (indent + 1) ' ' ++ text.drop 1) :: rest)
        let (items, rest) ← sequence? fuel indent rest
        return (item :: items, rest)

/-- Reads the fields of a block mapping. -/
def mapping? : Nat → Nat → Data.Table Setting → List (List Char) →
    Option (Data.Table Setting × List (List Char))
  | 0, _, _, _ => none
  | fuel + 1, indent, fields, lines =>
    match skipVoid lines with
    | [] => some (fields, [])
    | line :: rest =>
      if indentOf line < indent then some (fields, line :: rest)
      else if indent < indentOf line then none
      else do
        let (name, after) ← splitKey? (line.drop indent)
        let (value, rest) ←
          if isVoid after then
            match skipVoid rest with
            | [] => pure (plain [], [])
            | next :: more =>
              if indentOf next = indent && isItem (next.drop indent) then do
                let (items, rest) ← sequence? fuel indent (next :: more)
                pure (Setting.list items, rest)
              else node? fuel indent (next :: more)
          else inline? indent (after.dropWhile isGap) rest
        let fields ← addField fields name value
        mapping? fuel indent fields rest

end

/-! ## Files -/

/-- Whether a line is a document mark, alone or before something else. -/
def isMark (mark line : List Char) : Bool :=
  match Text.dropStart? mark line with
  | some rest => rest.head?.all isGap
  | none => false

/-- The lines of the first document of a file. -/
def firstDocument (lines : List (List Char)) : List (List Char) :=
  let lines := (skipVoid lines).dropWhile fun l => l.head? = some '%'
  let lines := match skipVoid lines with
    | first :: rest =>
      if isMark "---".toList first then ("   ".toList ++ first.drop 3) :: rest else first :: rest
    | [] => []
  lines.takeWhile fun l => !isMark "---".toList l && !isMark "...".toList l

/-- Characters that may stand in a file. -/
def isAllowed (c : Char) : Bool :=
  let n := c.toNat
  c = '\t' || c = '\n' || c = '\r' || n = 0x85 || 0x20 ≤ n && n ≤ 0x7e
    || 0xa0 ≤ n && n ≠ 0xfeff && n ≠ 0xfffe && n ≠ 0xffff

/-- Reads the first document of a file; none if it is malformed. -/
def parse? (text : List Char) : Option Setting := do
  let text := match text with
    | '\ufeff' :: rest => rest
    | _ => text
  if !text.all isAllowed then none
  let text := Text.replaceAll ['\r', '\n'] ['\n'] text
  let lines := firstDocument (Text.splitOn '\n' text)
  let (value, rest) ← node? (text.length + lines.length + 2) (-1) lines
  if (skipVoid rest).isEmpty then some value else none

end MarkupLint.Yaml
