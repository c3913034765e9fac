import MarkupLint.Data.Csv
import MarkupLint.Text.Integer
import MarkupLint.Text.Quoted
import MarkupLint.Text.Search

/-! # Flags

    A command line is a list of words.  A word that starts with a dash sets
    flags, long ones with two dashes and a value after an equals sign or in
    the next word, short ones bundled behind one dash; all other words are
    arguments, and after a word of two dashes everything is. -/

namespace MarkupLint

/-- What a flag holds. -/
inductive FlagKind where
  | text
  /-- A list of texts, given at once or one after the other. -/
  | texts
  | integer
  /-- On if it is given; its value, if any, stands after an equals sign. -/
  | switch
  deriving DecidableEq, Repr

/-- A flag of a command. -/
structure Flag where
  name : String
  short : Option Char := none
  kind : FlagKind
  usage : String
  /-- The value without the flag, if the usage shows it. -/
  usual : String := ""
  deriving DecidableEq, Repr

/-- A value given to a flag. -/
inductive FlagValue where
  | text (s : String)
  | texts (items : List String)
  | integer (n : Int)
  | switch (on : Bool)
  deriving DecidableEq, Repr

/-- Why a text is no value of a flag. -/
inductive ValueError where
  | integer (given : String) (e : Text.IntegerError)
  | switch (given : String)
  | row (e : Data.Row.Error)
  deriving DecidableEq, Repr

/-- The text of a value error. -/
def ValueError.message : ValueError → String
  | .integer given .malformed =>
    "strconv.ParseInt: parsing " ++ Text.quoted given ++ ": invalid syntax"
  | .integer given .outOfRange =>
    "strconv.ParseInt: parsing " ++ Text.quoted given ++ ": value out of range"
  | .switch given => "strconv.ParseBool: parsing " ++ Text.quoted given ++ ": invalid syntax"
  | .row e => e.message

/-- Why a command line cannot be read. -/
inductive FlagError where
  | malformed (word : String)
  | unknown (name : String)
  /-- No flag has the short name that the rest of a word starts with. -/
  | unknownShort (rest : String)
  | needsValue (name : String)
  | shortNeedsValue (rest : String)
  | invalid (flag : Flag) (given : String) (e : ValueError)
  | helpRequested
  deriving DecidableEq, Repr

namespace FlagError

/-- The short name that the rest of a word starts with, between quotes.  Of
    a character beyond ASCII only its first byte is looked at. -/
def shortName (rest : String) : String :=
  let c := rest.toList.headD ' '
  if 0x80 ≤ c.toNat then "'Ã'"
  else if c = '\x27' then "'\\''"
  else if c = '"' then "'\"'"
  else "'" ++ String.ofList (Text.escapeChar c) ++ "'"

/-- The text of a flag error. -/
def message : FlagError → String
  | .malformed word => "bad flag syntax: " ++ word
  | .unknown name => "unknown flag: --" ++ name
  | .unknownShort rest => "unknown shorthand flag: " ++ shortName rest ++ " in -" ++ rest
  | .needsValue name => "flag needs an argument: --" ++ name
  | .shortNeedsValue rest => "flag needs an argument: " ++ shortName rest ++ " in -" ++ rest
  | .invalid flag given e =>
    let name := match flag.short with
      | some c => "-" ++ String.singleton c ++ ", --" ++ flag.name
      | none => "--" ++ flag.name
    "invalid argument " ++ Text.quoted given ++ " for " ++ Text.quoted name ++ " flag: " ++ e.message
  | .helpRequested => "pflag: help requested"

end FlagError

namespace Flag

/-- The words that switch a flag on or off. -/
def switchWords : List (String × Bool) :=
  [("1", true), ("t", true), ("T", true), ("TRUE", true), ("true", true), ("True", true),
   ("0", false), ("f", false), ("F", false), ("FALSE", false), ("false", false), ("False", false)]

/-- Reads a value of a flag. -/
def read (f : Flag) (given : String) : Except FlagError FlagValue :=
  match f.kind with
  | .text => .ok (.text given)
  | .texts =>
    if given = "" then .ok (.texts [])
    else match Data.Row.first given.toList with
      | .ok fields => .ok (.texts (fields.map String.ofList))
      | .error e => .error (.invalid f given (.row e))
  | .integer =>
    match Text.parseLiteral given.toList with
    | .ok n => .ok (.integer n)
    | .error e => .error (.invalid f given (.integer given e))
  | .switch =>
    match switchWords.lookup given with
    | some on => .ok (.switch on)
    | none => .error (.invalid f given (.switch given))

end Flag

/-- What a command line sets, in order, and its arguments. -/
structure CommandLine where
  values : List (String × FlagValue) := []
  arguments : List String := []
  deriving Repr

namespace CommandLine

/-- Adds a value in front. -/
def withValue (name : String) (v : FlagValue) (c : CommandLine) : CommandLine :=
  { c with values := (name, v) :: c.values }

/-- Adds an argument in front. -/
def withArgument (word : String) (c : CommandLine) : CommandLine :=
  { c with arguments := word :: c.arguments }

/-- The name and the value of a long flag, which an equals sign divides. -/
def splitName (s : List Char) : String × Option String :=
  match Text.cut? ['='] s with
  | some (name, value) => (String.ofList name, some (String.ofList value))
  | none => (String.ofList s, none)

/-- Reads a long flag without its dashes: its name, the value given to it,
    and whether the next word was taken for it. -/
def long (flags : List Flag) (word : String) (next : Option String) :
    Except FlagError (String × FlagValue × Bool) := do
  let body := word.toList.drop 2
  if body.head? = some '-' || body.head? = some '=' then .error (.malformed word)
  let (name, value) := splitName body
  match flags.find? (·.name = name) with
  | none => .error (if name = "help" then .helpRequested else .unknown name)
  | some f =>
    let (given, taken) ← match value, next with
      | some v, _ => pure (v, false)
      | none, some v => pure (if f.kind = .switch then ("true", false) else (v, true))
      | none, none => if f.kind = .switch then pure ("true", false) else .error (.needsValue name)
    return (f.name, ← f.read given, taken)

/-- Reads the short flags behind a dash: the values given to them, and
    whether the next word was taken for the last. -/
def short (flags : List Flag) (next : Option String) :
    List Char → Except FlagError (List (String × FlagValue) × Bool)
  | [] => .ok ([], false)
  | c :: rest => do
    let all := String.ofList (c :: rest)
    if Text.startsWith "test.".toList (c :: rest) then .ok ([], false)
    else match flags.find? (·.short = some c) with
      | none => .error (if c = 'h' then .helpRequested else .unknownShort all)
      | some f =>
        match rest with
        | '=' :: d :: value =>
          return ([(f.name, ← f.read (String.ofList (d :: value)))], false)
        | _ =>
          if f.kind = .switch then
            let v ← f.read "true"
            let (values, taken) ← short flags next rest
            return ((f.name, v) :: values, taken)
          else if !rest.isEmpty then return ([(f.name, ← f.read (String.ofList rest))], false)
          else match next with
            | some value => return ([(f.name, ← f.read value)], true)
            | none => .error (.shortNeedsValue all)

/-- Reads words, at most `count` of them. -/
def parseWithin (flags : List Flag) : Nat → List String → Except FlagError CommandLine
  | 0, _ => .ok {}
  | _ + 1, [] => .ok {}
  | count + 1, word :: rest =>
    match word.toList with
    | ['-', '-'] => .ok { arguments := rest }
    | '-' :: '-' :: _ => do
      let (name, value, taken) ← long flags word rest.head?
      let line ← parseWithin flags count (if taken then rest.drop 1 else rest)
      return line.withValue name value
    | '-' :: c :: letters => do
      let (values, taken) ← short flags rest.head? (c :: letters)
      let line ← parseWithin flags count (if taken then rest.drop 1 else rest)
      return { line with values := values ++ line.values }
    | _ => do
      let line ← parseWithin flags count rest
      return line.withArgument word

/-- Reads a command line. -/
def parse (flags : List Flag) (words : List String) : Except FlagError CommandLine :=
  parseWithin flags (words.length + 1) words

end CommandLine

end MarkupLint
