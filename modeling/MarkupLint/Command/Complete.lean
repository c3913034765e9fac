import MarkupLint.Command.Options

/-! # Completion

    What a shell may offer in place of the last word of a command line:
    values of the flag before it, or names of flags. -/

namespace MarkupLint

/-- What a shell does besides offering the words. -/
inductive CompletionMode where
  /-- It also offers files. -/
  | files
  /-- It offers nothing else. -/
  | noFiles
  deriving DecidableEq, Repr

namespace CompletionMode

/-- The number that stands for a mode. -/
def code : CompletionMode → String
  | .files => "0"
  | .noFiles => "4"

/-- The name of a mode. -/
def name : CompletionMode → String
  | .files => "ShellCompDirectiveDefault"
  | .noFiles => "ShellCompDirectiveNoFileComp"

end CompletionMode

namespace Completion

/-- The values that are offered for a flag. -/
def values? (flag : String) : Option (List String) :=
  [("format", ["text", "json"]), ("level", Level.allNames), ("fail-level", Level.allNames),
   ("log-format", ["text", "json"]), ("color", ["auto", "on", "off"]),
   ("cache", Backend.all.map (·.name))].lookup flag

/-- The flag that a long or a short name stands for. -/
def findFlag? (name : List Char) : Option Flag :=
  match name with
  | [c] => Options.commandFlags.find? (·.short = some c)
  | _ => Options.commandFlags.find? (·.name = String.ofList name)

/-- Whether a word is a flag. -/
def isFlagWord : List Char → Bool
  | '-' :: '-' :: _ :: _ => true
  | '-' :: c :: _ => c ≠ '-'
  | _ => false

/-- The flag whose value is being completed. -/
inductive Target where
  | none
  | value (flag : Flag)
  | unknownFlag

/-- The flag a word ends with. -/
def lastName (word : List Char) : List Char :=
  match word with
  | '-' :: '-' :: name => name
  | _ => word.drop (word.length - 1)

/-- What is being completed, and the words before it that are complete. -/
def target (words : List String) (last : List Char) : Target × List String :=
  let found (name : List Char) (before : List String) : Target × List String :=
    match findFlag? name with
    | some f => (.value f, before)
    | Option.none => (.unknownFlag, words)
  if last.head? = some '-' then
    if last.contains '=' then found (lastName (last.takeWhile (· ≠ '='))) words
    else (.none, words)
  else
    match words.getLast? with
    | some word =>
      let w := word.toList
      if isFlagWord w && !w.contains '=' then
        match found (lastName w) words.dropLast with
        | (.value f, before) => if f.kind = .switch then (.none, words) else (.value f, before)
        | t => t
      else (.none, words)
    | Option.none => (.none, words)

/-- The names of flags that start with a text, with their usages. -/
def flagNames (given : List String) (start : List Char) : List (String × String) :=
  Options.commandFlags.flatMap fun f =>
    if given.contains f.name && f.kind ≠ .texts then []
    else
      let long := "--" ++ f.name
      let offer (name : String) : List (String × String) :=
        if Text.startsWith start name.toList then [(name, f.usage)] else []
      offer long ++ match f.short with
        | some c => offer ("-" ++ String.singleton c)
        | Option.none => []

/-- What is offered for the last of some words; descriptions follow. -/
def offers (words : List String) : List (String × String) × CompletionMode :=
  let last := (words.getLastD "").toList
  let (target, before) := target words.dropLast last
  -- After a word of two dashes there are no flags.
  let ended := before.contains "--"
  match Options.parse Options.commandFlags before with
  | .error _ => ([], .files)
  | .ok o =>
    match target with
    | .unknownFlag => ([], .files)
    | .value f =>
      if o.help || o.version then ([], .noFiles)
      else if ended then ([], .files)
      else match values? f.name with
        | some values => (values.map fun v => (v, ""), .noFiles)
        | Option.none => ([], .files)
    | .none =>
      if o.help || o.version then ([], .noFiles)
      else if last.head? = some '-' && !last.contains '=' && !ended then
        (flagNames o.given last, .noFiles)
      else ([], .files)

/-- The lines for a shell. -/
def render (descriptions : Bool) (words : List String) : String × String :=
  let (offered, mode) := offers words
  let line (o : String × String) : String :=
    if descriptions && o.2 ≠ "" then o.1 ++ "\t" ++ o.2 ++ "\n" else o.1 ++ "\n"
  (String.join (offered.map line) ++ ":" ++ mode.code ++ "\n",
    "Completion ended with directive: " ++ mode.name ++ "\n")

end Completion

end MarkupLint
