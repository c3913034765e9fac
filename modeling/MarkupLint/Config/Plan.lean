import MarkupLint.Cache.Backend
import MarkupLint.Calendar.Duration
import MarkupLint.Config.Setting
import MarkupLint.Diagnostic.Format
import MarkupLint.Diagnostic.Level
import MarkupLint.Files.Resolver

/-! # Plans

    A plan says what a run does.  The settings of a configuration file are
    taken out of it by name, and then checked one after the other. -/

namespace MarkupLint

/-- What a run does. -/
structure Plan where
  /-- Records below this level are not reported. -/
  level : Level := .warning
  /-- Records at this level let the run fail. -/
  failLevel : Level := .warning
  format : OutputFormat := .text
  encoding : String := ""
  /-- How many files are linted at a time; one for each processor if zero. -/
  jobs : Int := 0
  /-- Whether the names that a documentation generator defines are ignored. -/
  baseIgnores : Bool := true
  /-- The files that are linted if no others are given. -/
  files : List String := []
  cache : CacheSettings := { lifetime := CacheSettings.usualLifetime }
  ignoreDirectives : List String := []
  ignoreRoles : List String := []
  deriving Inhabited

/-- The directory of cached results, if no other is given. -/
def defaultCacheDirectory : String := ".rst-lint-cache"

/-- The database of cached results, if no other is given. -/
def defaultCacheDatabase : String := ".rst-lint-cache.db"

/-- Where a backend keeps results if no path is given; empty if it needs none. -/
def Backend.defaultPath : Backend → String
  | .files => defaultCacheDirectory
  | .database => defaultCacheDatabase
  | _ => ""

/-- The settings of a configuration file as they are written. -/
structure Config where
  level : String := ""
  failLevel : String := ""
  format : String := ""
  encoding : String := ""
  jobs : Int := 0
  baseIgnores : Option Bool := none
  files : List String := []
  cacheBackend : String := ""
  cachePath : String := ""
  cacheLifetime : String := ""
  cacheSize : Int := 0
  ignoreDirectives : List String := []
  ignoreRoles : List String := []
  deriving Inhabited

namespace Config

/-- The names of the settings; those of tables come with the names in them. -/
def known : List (String × List String) :=
  [("level", []), ("fail_level", []), ("format", []), ("encoding", []), ("jobs", []),
   ("base_ignores", []), ("files", []), ("cache", ["backend", "path", "ttl", "size"]),
   ("ignore", ["directives", "roles"])]

/-- The names that are none of the settings, in order; those in tables have
    the name of the table in front. -/
def unknown (fields : List (String × Setting)) : List String :=
  let names := fields.flatMap fun (name, value) =>
    match known.lookup name, value with
    | none, _ => [name]
    | some [], _ => []
    | some inner, .table fields =>
      (fields.filter fun f => !inner.contains f.1).map fun f => name ++ "." ++ f.1
    | some _, _ => []
  names.mergeSort fun a b => a ≤ b

/-- Takes a setting of the cache. -/
def takeCache (d : Dialect) (c : Config) (name : String) (v : Setting) : Option Config := do
  match d.settingName name with
  | "backend" => return { c with cacheBackend := (← v.asText? d).getD c.cacheBackend }
  | "path" => return { c with cachePath := (← v.asText? d).getD c.cachePath }
  | "ttl" => return { c with cacheLifetime := (← v.asText? d).getD c.cacheLifetime }
  | "size" => return { c with cacheSize := (← v.asInt? d).getD c.cacheSize }
  | _ => return c

/-- Takes a setting of the names to ignore. -/
def takeIgnore (d : Dialect) (c : Config) (name : String) (v : Setting) : Option Config := do
  match d.settingName name with
  | "directives" => return { c with ignoreDirectives := (← v.asTexts? d).getD [] }
  | "roles" => return { c with ignoreRoles := (← v.asTexts? d).getD [] }
  | _ => return c

/-- Takes a setting; none if its value is of the wrong kind. -/
def take (d : Dialect) (c : Config) (name : String) (v : Setting) : Option Config := do
  match d.settingName name with
  | "level" => return { c with level := (← v.asText? d).getD c.level }
  | "fail_level" => return { c with failLevel := (← v.asText? d).getD c.failLevel }
  | "format" => return { c with format := (← v.asText? d).getD c.format }
  | "encoding" => return { c with encoding := (← v.asText? d).getD c.encoding }
  | "jobs" => return { c with jobs := (← v.asInt? d).getD c.jobs }
  | "base_ignores" => return { c with baseIgnores := ← v.asBool? d }
  | "files" => return { c with files := (← v.asTexts? d).getD [] }
  | "cache" => (← v.asTable? d).foldlM (fun c (name, v) => takeCache d c name v) c
  | "ignore" => (← v.asTable? d).foldlM (fun c (name, v) => takeIgnore d c name v) c
  | _ => return c

/-- Takes all settings. -/
def ofFields? (d : Dialect) (fields : List (String × Setting)) : Option Config :=
  fields.foldlM (fun c (name, v) => take d c name v) {}

end Config

/-- What is wrong with a setting. -/
inductive SettingError where
  | level (setting : String) (e : Text.UnknownName)
  | format (e : Text.UnknownName)
  | negativeJobs
  | backend (e : Text.UnknownName)
  | lifetime (given : String)
  | base (e : ResolveError)
  | files (e : ResolveError)
  deriving Repr

/-- The text of a setting error. -/
def SettingError.message : SettingError → String
  | .level setting e => setting ++ ": " ++ e.message
  | .format e => e.message
  | .negativeJobs => "jobs must not be negative"
  | .backend e => "cache: " ++ e.message
  | .lifetime given => "cache: invalid ttl " ++ Text.quoted given
  | .base e => e.message
  | .files (.noMatch patterns) => "files " ++ (ResolveError.noMatch patterns).message
  | .files e => "files: " ++ e.message

namespace Config

/-- The level that a setting names, or what it is without one. -/
def levelOr (setting given : String) (usual : Level) : Except SettingError Level :=
  if given = "" then .ok usual else (Level.parse given).mapError (.level setting)

/-- How results are kept; paths are relative to the directory of the file. -/
def cacheSettings (c : Config) (dir : String) : Except SettingError CacheSettings := do
  let backend ← (Backend.parse c.cacheBackend).mapError .backend
  let lifetime ←
    if c.cacheLifetime = "" then pure CacheSettings.usualLifetime
    else match Calendar.duration? c.cacheLifetime with
      | some n => if 0 < n then pure n else .error (.lifetime c.cacheLifetime)
      | none => .error (.lifetime c.cacheLifetime)
  let path := if c.cachePath = "" then backend.defaultPath else c.cachePath
  return {
    backend := backend, size := c.cacheSize, lifetime := lifetime
    path := if path = "" || Path.isAbs path then path else Path.join dir path }

/-- The files that the patterns stand for. -/
def resolveFiles (c : Config) (resolver : Except ResolveError Resolver) :
    Except SettingError (List String) := do
  if c.files.isEmpty then return []
  let r ← resolver.mapError .base
  (r.resolve c.files).mapError .files

/-- The plan that the settings of a file in `dir` make. -/
def plan (c : Config) (dir : String) (resolver : Except ResolveError Resolver) :
    Except SettingError Plan := do
  let level ← levelOr "level" c.level .warning
  let failLevel ← levelOr "fail_level" c.failLevel level
  let format ← if c.format = "" then pure .text else (OutputFormat.parse c.format).mapError .format
  if c.jobs < 0 then .error .negativeJobs
  let cache ← c.cacheSettings dir
  let files ← c.resolveFiles resolver
  return {
    level := level, failLevel := failLevel, format := format, encoding := c.encoding
    jobs := c.jobs, baseIgnores := c.baseIgnores.getD true, files := files, cache := cache
    ignoreDirectives := c.ignoreDirectives, ignoreRoles := c.ignoreRoles }

end Config

end MarkupLint
