import MarkupLint.Body.Line
import MarkupLint.Text.Integer
import MarkupLint.Text.Letter

/-! # How lines start

    The marks that tell the constructs of a body apart.  A marker is
    followed by at least one space or by the end of its line, and its width
    counts those spaces. -/

namespace MarkupLint.Pattern

/-- The number of spaces after a marker; none if something else follows. -/
def gap? (s : List Char) : Option Nat :=
  if s.isEmpty then some 0
  else
    let k := Line.indent s
    if k = 0 then none else some k

/-- The width of a fixed marker with the spaces after it. -/
def marker? (mark : List Char) (l : Line) : Option Nat :=
  (Text.dropStart? mark l).bind fun rest => (gap? rest).map (mark.length + ·)

/-- The punctuation that underlines titles and draws transitions. -/
def isAdornmentChar (c : Char) : Bool :=
  decide (0x21 ≤ c.toNat ∧ c.toNat ≤ 0x7E) && !c.isAlphanum

/-- A run of one punctuation character. -/
def isAdornment : Line → Bool
  | [] => false
  | c :: rest => isAdornmentChar c && rest.all (· == c)

/-- The bullet of a list item and the width of its marker. -/
def bullet? : Line → Option (Char × Nat)
  | [] => none
  | c :: rest =>
    if c = '-' || c = '+' || c = '*' || c = '\u2022' || c = '\u2023' || c = '\u2043' then
      (gap? rest).map fun k => (c, 1 + k)
    else none

/-- The three ways to write an enumerator. -/
inductive EnumeratorForm where
  | parens | period | rparen
  deriving DecidableEq, Repr

/-- The enumerator of a list item. -/
structure Enumerator where
  /-- The number; none for the automatic `#`. -/
  ordinal : Option Nat
  form : EnumeratorForm
  text : List Char
  width : Nat
  deriving DecidableEq, Repr

/-- A number or `#`, and what follows. -/
def sequence? (s : List Char) : Option (List Char × List Char) :=
  match s with
  | '#' :: rest => some (['#'], rest)
  | _ =>
    let digits := s.takeWhile Char.isDigit
    if digits.isEmpty then none else some (digits, s.drop digits.length)

/-- The parts of an enumerator: form, sequence, and the spaces after it. -/
def enumeratorParts? (l : Line) : Option (EnumeratorForm × List Char × Nat) :=
  match l with
  | '(' :: rest =>
    match sequence? rest with
    | some (seq, ')' :: after) => (gap? after).map fun k => (.parens, seq, k)
    | _ => none
  | _ =>
    match sequence? l with
    | some (seq, '.' :: after) => (gap? after).map fun k => (.period, seq, k)
    | some (seq, ')' :: after) => (gap? after).map fun k => (.rparen, seq, k)
    | _ => none

/-- The enumerator a line starts with; its number has to fit 64 bits. -/
def enumerator? (l : Line) : Option Enumerator :=
  (enumeratorParts? l).bind fun (form, seq, spaces) =>
    let text := match form with
      | .parens => '(' :: seq ++ [')']
      | .period => seq ++ ['.']
      | .rparen => seq ++ [')']
    let ordinal : Option (Option Nat) :=
      if seq = ['#'] then some none
      else (Text.int? seq).map fun n => some n.toNat
    ordinal.map fun o => ⟨o, form, text, text.length + spaces⟩

/-- The name of a field and the width of its marker. -/
def field? (l : Line) : Option (List Char × Nat) :=
  match l with
  | ':' :: rest =>
    let name := rest.takeWhile (· ≠ ':')
    match rest.drop name.length, name.head?, name.getLast? with
    | ':' :: after, some a, some b =>
      if Text.isPatternSpace a || Text.isPatternSpace b then none
      else (gap? after).map fun k => (name, name.length + 2 + k)
    | _, _, _ => none
  | _ => none

/-- Whether a line is the border of a grid table. -/
def isGridBorder (l : Line) : Bool :=
  l.all (fun c => c = '+' || c = '-') && decide (5 ≤ l.length)
    && Text.startsWith ['+', '-'] l && Text.endsWith ['-', '+'] l

/-- Whether a line is the border of a simple table: runs of `=` with spaces
    between them, at least two. -/
def isSimpleBorder (l : Line) : Bool :=
  l.all (fun c => c = '=' || c = ' ') && l.head? = some '=' && l.getLast? = some '='
    && l.contains ' '

/-- What follows the name of an option. -/
def optionName? (short : Bool) (s : List Char) : Option (List Char) :=
  let isName (c : Char) : Bool := c.isAlphanum || c = '-' || c = '_'
  let named (rest : List Char) : Option (List Char) :=
    match rest with
    | c :: more => if c.isAlphanum then some (more.dropWhile isName) else none
    | [] => none
  match s with
  | '-' :: '-' :: rest => named rest
  | '-' :: rest => named rest
  | '/' :: c :: rest =>
    if short then (if c.isAlphanum then some rest else none) else named (c :: rest)
  | _ => none

/-- What follows the argument of an option, if it has one. -/
def optionArgument (s : List Char) : List Char :=
  match s with
  | c :: d :: rest =>
    if (c = ' ' || c = '=') && d ≠ ' ' && d ≠ ',' then
      (d :: rest).dropWhile fun e => e ≠ ' ' && e ≠ ','
    else s
  | _ => s

/-- What follows further options after commas, at most `count` of them. -/
def moreOptions : Nat → List Char → List Char
  | 0, s => s
  | count + 1, s =>
    match s with
    | ',' :: ' ' :: rest =>
      match optionName? false rest with
      | some after => moreOptions count (optionArgument after)
      | none => s
    | _ => s

/-- The options an item of an option list starts with, and the spaces after
    them: at least two or the end of the line. -/
def options? (l : Line) : Option (List Char) :=
  (optionName? true l).bind fun after =>
    let rest := moreOptions l.length (optionArgument after)
    let spaces := Line.indent rest
    if rest.isEmpty || 2 ≤ spaces then some (l.take (l.length - rest.length + spaces)) else none

/-- Whether a line starts an explicit markup block. -/
def isExplicit (l : Line) : Bool := (marker? ['.', '.'] l).isSome

/-- Whether a line starts an anonymous target. -/
def isAnonymous (l : Line) : Bool := (marker? ['_', '_'] l).isSome

/-- Whether a line starts a doctest block. -/
def isDoctest (l : Line) : Bool := (marker? ['>', '>', '>'] l).isSome

/-- Whether a line starts a line of a line block. -/
def isLineBlock (l : Line) : Bool := (marker? ['|'] l).isSome

/-- Whether a line could be a term: it starts nothing but a paragraph. -/
def isPlain (l : Line) : Bool :=
  !(Text.isBlank l || l.isIndented || (bullet? l).isSome || (enumeratorParts? l).isSome
    || (field? l).isSome || isExplicit l || isAnonymous l || isDoctest l || isGridBorder l
    || isSimpleBorder l || isAdornment l)

/-- A simple reference name at the start of a text, and what follows: runs
    of letters and numbers joined by single marks. -/
def simpleName (s : List Char) : List Char × List Char :=
  go s.length s
where
  /-- At most `count` more runs. -/
  go : Nat → List Char → List Char × List Char
    | 0, s => ([], s)
    | count + 1, s =>
      let word := s.takeWhile Text.isWordChar
      let rest := s.drop word.length
      match rest with
      | j :: c :: more =>
        if !word.isEmpty && (j = '-' || j = '.' || j = '_' || j = '+' || j = ':')
            && Text.isWordChar c then
          let (name, after) := go count (c :: more)
          (word ++ j :: name, after)
        else (word, rest)
      | _ => (word, rest)

/-- The name of a directive and the width of its marker with the spaces
    after it. -/
def directive? (l : Line) : Option (List Char × Nat) :=
  let (name, rest) := simpleName l
  if name.isEmpty then none
  else
    let (spaced, rest) := match rest with
      | ' ' :: more => (1, more)
      | _ => (0, rest)
    match rest with
    | ':' :: ':' :: after => (gap? after).map fun k => (name, name.length + spaced + 2 + k)
    | _ => none

/-- The name between bars of a substitution definition and the width of
    the marker with the spaces after it. -/
def substitution? (l : Line) : Option (List Char × Nat) :=
  match l with
  | '|' :: rest =>
    let name := rest.takeWhile (· ≠ '|')
    match rest.drop name.length, name.head?, name.getLast? with
    | '|' :: after, some a, some b =>
      if a = ' ' || b = ' ' then none
      else (gap? after).map fun k => (name, name.length + 2 + k)
    | _, _, _ => none
  | _ => none

/-- The name that a reference such as `name_` or one in backquotes refers
    to. -/
def reference? (s : List Char) : Option (List Char) :=
  match s with
  | '\x60' :: rest =>
    let name := rest.takeWhile (· ≠ '\x60')
    if !name.isEmpty && rest.drop name.length == ['\x60', '_'] then some name else none
  | _ =>
    -- The underscore that ends a reference is never part of its name.
    let (name, rest) := simpleName s
    if !name.isEmpty && rest == ['_'] then some name else none

end MarkupLint.Pattern
