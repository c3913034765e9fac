import MarkupLint.Command.Flag
import MarkupLint.Config.Plan
import MarkupLint.Log.Entry

/-! # Options

    The flags of the command and what they hold.  What is given on the
    command line goes over what a configuration says. -/

namespace MarkupLint

/-- What the command line says. -/
structure Options where
  config : String := ""
  strictConfig : Bool := false
  format : String := OutputFormat.text.name
  encoding : String := ""
  level : String := "warning"
  failLevel : String := ""
  ignoreDirectives : List String := []
  ignoreRoles : List String := []
  noBaseIgnores : Bool := false
  jobs : Int := 0
  cache : String := ""
  cachePath : String := ""
  colour : String := ColourMode.auto.name
  verbose : Bool := false
  logFormat : String := LogFormat.text.name
  help : Bool := false
  version : Bool := false
  arguments : List String := []
  /-- The flags that were given. -/
  given : List String := []
  deriving Inhabited

namespace Options

/-- The flags in the order in which they are listed. -/
def flags : List Flag := [
  { name := "format", kind := .text, usage := "Output format (text|json)", usual := "text" },
  { name := "encoding", kind := .text, usage := "Encoding of the input files (default utf-8)" },
  { name := "level", kind := .text, usual := "warning"
    usage := "Minimum level to report (" ++ "|".intercalate Level.allNames ++ ")" },
  { name := "fail-level", kind := .text
    usage := "Minimum level that fails the run (default --level)" },
  { name := "ignore-directives", kind := .texts
    usage := "Directives to treat as known no-ops" },
  { name := "ignore-roles", kind := .texts, usage := "Roles to treat as known no-ops" },
  { name := "no-base-ignores", kind := .switch
    usage := "Do not ignore the Sphinx directives and roles" },
  { name := "config", short := some 'c', kind := .text
    usage := "Path to configuration file (default: discovered .rst-lint.toml)" },
  { name := "strict-config", kind := .switch
    usage := "Treat configuration warnings as errors" },
  { name := "jobs", short := some 'j', kind := .integer
    usage := "Files linted concurrently (default one per CPU)" },
  { name := "cache", kind := .text, usage := "Result cache backend (none|memory|file|sqlite)" },
  { name := "cache-path", kind := .text, usage := "Cache directory or database file" },
  { name := "color", kind := .text, usage := "Color text output (auto|on|off)", usual := "auto" },
  { name := "verbose", short := some 'v', kind := .switch, usage := "Enable verbose logging" },
  { name := "log-format", kind := .text, usual := "text"
    usage := "Log output format on stderr (text|json)" }]

/-- The flags of the command, with those that only print something. -/
def commandFlags : List Flag := flags ++ [
  { name := "help", short := some 'h', kind := .switch, usage := "help for rst-lint" },
  { name := "version", kind := .switch, usage := "version for rst-lint" }]

/-- Takes a value of a flag. -/
def take (o : Options) (name : String) (v : FlagValue) : Options :=
  let o := { o with given := if o.given.contains name then o.given else o.given ++ [name] }
  match name, v with
  | "format", .text s => { o with format := s }
  | "encoding", .text s => { o with encoding := s }
  | "level", .text s => { o with level := s }
  | "fail-level", .text s => { o with failLevel := s }
  | "ignore-directives", .texts items =>
    { o with ignoreDirectives := o.ignoreDirectives ++ items }
  | "ignore-roles", .texts items => { o with ignoreRoles := o.ignoreRoles ++ items }
  | "no-base-ignores", .switch b => { o with noBaseIgnores := b }
  | "config", .text s => { o with config := s }
  | "strict-config", .switch b => { o with strictConfig := b }
  | "jobs", .integer n => { o with jobs := n }
  | "cache", .text s => { o with cache := s }
  | "cache-path", .text s => { o with cachePath := s }
  | "color", .text s => { o with colour := s }
  | "verbose", .switch b => { o with verbose := b }
  | "log-format", .text s => { o with logFormat := s }
  | "help", .switch b => { o with help := b }
  | "version", .switch b => { o with version := b }
  | _, _ => o

/-- The options that a command line gives. -/
def ofCommandLine (c : CommandLine) : Options :=
  let o : Options := c.values.foldl (fun (o : Options) (name, v) => o.take name v) {}
  { o with arguments := c.arguments }

/-- Reads a command line with some flags. -/
def parse (flags : List Flag) (words : List String) : Except FlagError Options :=
  (CommandLine.parse flags words).map ofCommandLine

/-- Whether a flag was given. -/
def isGiven (o : Options) (name : String) : Bool := o.given.contains name

/-- The flags that were given, in the order in which they are listed. -/
def changed (o : Options) : List String := (flags.map (·.name)).filter o.isGiven

end Options

/-- How the command was not meant to be used. -/
inductive UsageError where
  | flag (e : FlagError)
  /-- The value of a flag is no name of what it chooses. -/
  | choice (flag : String) (e : Text.UnknownName)
  | negativeJobs
  | noFiles
  deriving DecidableEq, Repr

/-- The text of a usage error. -/
def UsageError.message : UsageError → String
  | .flag e => e.message
  | .choice name e => "--" ++ name ++ ": " ++ e.message
  | .negativeJobs => "--jobs must not be negative"
  | .noFiles => ResolveError.noFiles.message

namespace Options

/-- Changes a plan by a flag, if it was given. -/
def override (o : Options) (flag : String) (f : Plan → Except UsageError Plan) :
    EStateM UsageError Plan Unit := do
  if o.isGiven flag then
    match f (← get) with
    | .ok p => EStateM.set p
    | .error e => throw e

/-- A choice that a flag makes. -/
def chosen (flag : String) (x : Except Text.UnknownName α) : Except UsageError α :=
  x.mapError (.choice flag)

/-- Puts a cache path where there is none and there has to be one. -/
def withCachePath (p : Plan) : Plan :=
  if p.cache.path = "" then
    { p with cache := { p.cache with path := p.cache.backend.defaultPath } }
  else p

/-- Puts the flags over a plan, one after the other. -/
def overrides (o : Options) : EStateM UsageError Plan Unit := do
  o.override "level" fun p =>
    (chosen "level" (Level.parse o.level)).map fun l => { p with level := l, failLevel := l }
  o.override "fail-level" fun p =>
    (chosen "fail-level" (Level.parse o.failLevel)).map fun l => { p with failLevel := l }
  o.override "format" fun p =>
    (chosen "format" (OutputFormat.parse o.format)).map fun f => { p with format := f }
  o.override "encoding" fun p => .ok { p with encoding := o.encoding }
  o.override "jobs" fun p =>
    if o.jobs < 0 then .error .negativeJobs else .ok { p with jobs := o.jobs }
  modify fun p => { p with
    baseIgnores := p.baseIgnores && !o.noBaseIgnores
    ignoreDirectives := p.ignoreDirectives ++ o.ignoreDirectives
    ignoreRoles := p.ignoreRoles ++ o.ignoreRoles }
  o.override "cache" fun p =>
    (chosen "cache" (Backend.parse o.cache)).map fun b => { p with cache := { p.cache with
      backend := b, path := if b = p.cache.backend then p.cache.path else "" } }
  o.override "cache-path" fun p => .ok { p with cache := { p.cache with path := o.cachePath } }
  modify withCachePath

/-- Puts the flags over a plan: what is wrong with them, if anything, and
    the plan up to there. -/
def apply (o : Options) (p : Plan) : Option UsageError × Plan :=
  match o.overrides.run p with
  | .ok () p => (none, p)
  | .error e p => (some e, p)

end Options

/-! ## Usage texts -/

namespace Flag

/-- The word for the value of a flag. -/
def valueName (f : Flag) : String :=
  match f.kind with
  | .text => " string"
  | .texts => " strings"
  | .integer => " int"
  | .switch => ""

/-- The names of a flag at the start of its line. -/
def heading (f : Flag) : String :=
  (match f.short with
    | some c => "  -" ++ String.singleton c ++ ", --"
    | none => "      --") ++ f.name ++ f.valueName

/-- The line of a flag, in which the usage starts after `width` columns. -/
def usageLine (width : Nat) (f : Flag) : String :=
  let heading := f.heading
  heading ++ String.ofList (List.replicate (width - heading.length) ' ') ++ f.usage
    ++ (if f.usual = "" then "" else " (default " ++ Text.quoted f.usual ++ ")") ++ "\n"

/-- The lines of all flags, with their usages below each other. -/
def usageLines (flags : List Flag) : String :=
  let width := (flags.map fun f => f.heading.length).foldl max 0 + 3
  String.join (flags.map (usageLine width))

end Flag

namespace Options

/-- How the command is called. -/
def synopsis : String := "rst-lint [flags] FILE|GLOB..."

/-- The usage that follows a complaint about a command line that is only
    read. -/
def usage : String :=
  "Usage: " ++ synopsis ++ "\n\nFlags:\n" ++ Flag.usageLines flags

/-- The usage of the command. -/
def commandUsage : String :=
  "Usage:\n  " ++ synopsis ++ "\n\nFlags:\n" ++ Flag.usageLines commandFlags

/-- What the command does, and its usage. -/
def helpText : String :=
  "Lint reStructuredText files.\n\n"
    ++ "Exits with 0 if all files pass linting, 1 for an internal error and 2 if\n"
    ++ "linting failed.\n\n" ++ commandUsage

end Options

end MarkupLint
