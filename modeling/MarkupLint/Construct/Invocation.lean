import MarkupLint.Body.Line
import MarkupLint.Body.Pattern
import MarkupLint.Construct.Option
import MarkupLint.Data.Table

/-! # Directive blocks

    The block of a directive holds arguments, options and content, in this
    order.  What a directive accepts decides where one part ends and the
    next begins: without arguments and options, all of it is content. -/

namespace MarkupLint

/-- The arguments, options and content that a directive accepts. -/
structure DirectiveSpec where
  required : Int := 0
  optional : Int := 0
  /-- Whether the last argument may hold white space. -/
  finalWhitespace : Bool := false
  /-- How the options are read; none if there are no options at all. -/
  options : Option (Data.Table Converter) := none
  hasContent : Bool := false
  deriving Inhabited

/-- Whether there may be arguments. -/
def DirectiveSpec.takesArguments (s : DirectiveSpec) : Bool :=
  decide (0 < s.required) || decide (0 < s.optional)

/-- The parts of a directive block. -/
structure Invocation where
  arguments : List (List Char) := []
  options : Data.Table String := []
  content : List Line := []
  /-- The number of the line before the content. -/
  contentOffset : Nat := 0
  deriving DecidableEq, Repr, Inhabited

/-- An option value as a complaint shows it. -/
def shownValue (lines : List (List Char)) : String :=
  if lines.isEmpty then "None"
  else
    let value := Line.joinLines lines
    if value.contains '\x27' && !value.contains '"' then String.ofList ('"' :: value ++ ['"'])
    else
      let escape (c : Char) : List Char := if c = '\\' || c = '\x27' then ['\\', c] else [c]
      String.ofList ('\x27' :: value.flatMap escape ++ ['\x27'])

/-- The options so far and the lines of each, with one more line.  A line
    that is no field goes on with the option before it if it is indented. -/
def addRawLine (found : List (List Char × List (List Char))) (l : Line) :
    Except String (List (List Char × List (List Char))) :=
  match Pattern.field? l with
  | some (name, width) =>
    let first := Text.trim (l.drop width)
    .ok (found ++ [(name, if first.isEmpty then [] else [first])])
  | none =>
    if !l.isIndented then .error "invalid option block"
    else match found.reverse with
      | (name, values) :: before => .ok (before.reverse ++ [(name, values ++ [Text.trim l])])
      | [] => .error "invalid option block"

/-- The options of a block and the lines of each, as they stand there. -/
def rawOptions (lines : List Line) : Except String (List (List Char × List (List Char))) :=
  lines.foldlM addRawLine []

/-- The options so far with their values, and one more. -/
def addOption (known : Data.Table Converter) (found : Data.Table String)
    (o : List Char × List (List Char)) : Except String (Data.Table String) :=
  let name := String.ofList (Text.lower o.1)
  match known.get? name with
  | none => .error ("unknown option: \"" ++ name ++ "\"")
  | some converter =>
    if found.has name then .error ("invalid option data: duplicate option \"" ++ name ++ "\"")
    else
      match converter.convert (String.ofList (Line.joinLines o.2)) with
      | .ok v => .ok (found.set name v)
      | .error e =>
        .error ("invalid option value: (option: \"" ++ name ++ "\"; value: " ++ shownValue o.2
          ++ ")\n" ++ e)

/-- The options of a block with their values. -/
def readOptions (known : Data.Table Converter) (lines : List Line) :
    Except String (Data.Table String) := do
  (← rawOptions lines).foldlM (addOption known) []

/-- Whether a character divides arguments of which the last may hold white
    space. -/
def isArgumentGap (c : Char) : Bool := c = ' ' || c = '\n'

/-- The text in at most `count` arguments, the last of which keeps its
    inner white space. -/
def splitArguments : Nat → List Char → List (List Char)
  | 0, s =>
    let rest := s.dropWhile isArgumentGap
    if rest.isEmpty then [] else [Text.dropRightWhile isArgumentGap rest]
  | count + 1, s =>
    let rest := s.dropWhile isArgumentGap
    let word := rest.takeWhile (!isArgumentGap ·)
    if word.length < rest.length then word :: splitArguments count (rest.drop word.length)
    else if rest.isEmpty then [] else [rest]

/-- The arguments in the lines of an argument block. -/
def readArguments (spec : DirectiveSpec) (lines : List Line) : Except String (List (List Char)) :=
  let text := Line.joinLines lines
  let words := Text.words text
  let supplied : Int := words.length
  let limit := Text.wrapWord (spec.required + spec.optional)
  if supplied < spec.required then
    .error (Text.intText spec.required ++ " argument(s) required, " ++ Text.intText supplied
      ++ " supplied")
  else if limit < supplied then
    if spec.finalWhitespace then .ok (splitArguments (Text.wrapWord (limit - 1)).toNat text)
    else
      .error ("maximum " ++ Text.intText limit ++ " argument(s) allowed, "
        ++ Text.intText supplied ++ " supplied")
  else .ok words

namespace DirectiveSpec

/-! ## The parts of a block

    The first line of a block is what follows the directive's name. -/

/-- The lines of a block without blank ones at its end; the first line
    counts only if it is not blank. -/
def blockLines (body : List Line) : List Line :=
  Extract.trimEnd (if (body.head?.map Text.isBlank).getD false then body.tail else body)

/-- How many lines are before those. -/
def blankStart (body : List Line) : Nat :=
  if (body.head?.map Text.isBlank).getD false then 1 else 0

variable (spec : DirectiveSpec) (body : List Line)

/-- Whether the lines up to the first blank one may hold arguments or
    options. -/
def isDivided : Bool :=
  !(blockLines body).isEmpty && (spec.takesArguments || spec.options.isSome)

/-- The lines that may hold arguments and options. -/
def headLines : List Line :=
  if spec.isDivided body then (blockLines body).takeWhile (!Text.isBlank ·) else []

/-- The lines after those. -/
def tailLines : List Line := (blockLines body).drop (spec.headLines body).length

/-- The lines with the options. -/
def optionLines : List Line :=
  if spec.options.isSome then (spec.headLines body).dropWhile fun l => (Pattern.field? l).isNone
  else []

/-- The lines before the options. -/
def argumentLines : List Line :=
  (spec.headLines body).take ((spec.headLines body).length - (spec.optionLines body).length)

/-- Whether the lines before the options are content. -/
def isLeftover : Bool := !(spec.argumentLines body).isEmpty && !spec.takesArguments

/-- The content with the blank lines that it starts with. -/
def wholeContent : List Line :=
  if spec.isLeftover body then spec.argumentLines body ++ spec.tailLines body
  else if spec.isDivided body then (spec.tailLines body).drop 1
  else blockLines body

/-- How many lines are before that. -/
def contentStart : Nat :=
  blankStart body +
    if spec.isLeftover body then 0
    else if spec.isDivided body then (spec.headLines body).length + 1
    else 0

/-- How many blank lines the content starts with. -/
def contentBlanks : Nat := ((spec.wholeContent body).takeWhile Text.isBlank).length

/-- The content. -/
def content : List Line := (spec.wholeContent body).drop (spec.contentBlanks body)

/-- The options of a block. -/
def readBlockOptions : Except String (Data.Table String) :=
  match spec.options with
  | some known => readOptions known (spec.optionLines body)
  | none => .ok []

/-- The arguments of a block. -/
def readBlockArguments : Except String (List (List Char)) :=
  if spec.takesArguments then readArguments spec (spec.argumentLines body) else .ok []

/-- Reads a directive block; `offset` is the number of the line before it. -/
def read (offset : Nat) : Except String Invocation := do
  let options ← spec.readBlockOptions body
  let arguments ← spec.readBlockArguments body
  if !(spec.content body).isEmpty && !spec.hasContent then .error "no content permitted"
  else
    .ok { arguments := arguments, options := options, content := spec.content body,
          contentOffset := offset + spec.contentStart body + spec.contentBlanks body }

end DirectiveSpec

end MarkupLint
