import MarkupLint.Config.Plan
import MarkupLint.Config.Toml
import MarkupLint.Config.Yaml

/-! # Configuration files

    Where a configuration is found, and how its file becomes a plan. -/

namespace MarkupLint

/-- Why a configuration cannot be used. -/
inductive ConfigError where
  | unreadable (path : String) (e : FileError)
  | malformed (path : String)
  | unknownKeys (path : String) (keys : List String)
  | invalid (path : String) (e : SettingError)
  deriving Repr

/-- The text of a configuration error. -/
def ConfigError.message : ConfigError → String
  | .unreadable path e => "read " ++ path ++ ": " ++ e.message (Path.clean path)
  | .malformed path => path ++ ": malformed configuration"
  | .unknownKeys path keys =>
    path ++ ": unknown configuration keys: " ++ ", ".intercalate keys
  | .invalid path e => path ++ ": " ++ e.message

namespace Config

/-- The files in which a configuration is looked for, in order. -/
def fileNames : List String := [".rst-lint.toml", ".rst-lint.yaml", ".rst-lint.yml"]

/-- The first configuration file that there is. -/
def discover (t : FileTree) : Option String :=
  fileNames.find? fun name => t.stat name matches .ok (.file _)

/-- The text of bytes that are valid UTF-8. -/
def validText? (bytes : Bytes) : Option (List Char) :=
  (String.fromUTF8? ⟨bytes.toArray⟩).map String.toList

/-- The settings in a file, and the dialect they are read in.  The format
    follows the extension. -/
def settings? (path : String) (bytes : Bytes) : Option (Dialect × List (String × Setting)) := do
  let text ← validText? bytes
  if [".yaml", ".yml"].contains (Text.lowerString (Path.ext path)) then
    let value ← Yaml.parse? text
    return (.lenient, ← value.asTable? .lenient)
  else
    let value ← Toml.parse? text
    return (.exact, ← value.asTable? .exact)

/-- Reads a configuration file: the plan it makes and what to warn about.
    If it is `strict` there is nothing to warn about. -/
def load (t : FileTree) (path : String) (strict : Bool) (resolver : Option Resolver) :
    Except ConfigError (Plan × List String) := do
  let bytes ← (t.read (Path.clean path)).mapError (.unreadable path)
  let some (dialect, fields) := settings? path bytes | .error (.malformed path)
  let some config := ofFields? dialect fields | .error (.malformed path)
  let keys := unknown fields
  let warning := ConfigError.unknownKeys path keys
  if strict && !keys.isEmpty then .error warning
  let dir := Path.dir path
  let resolver := match resolver with
    | some r => .ok r
    | none => Resolver.atBase t dir
  let plan ← (config.plan dir resolver).mapError (.invalid path)
  return (plan, if keys.isEmpty then [] else [warning.message])

end Config

end MarkupLint
