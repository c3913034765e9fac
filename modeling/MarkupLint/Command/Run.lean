import MarkupLint.Batch.Report
import MarkupLint.Command.Complete
import MarkupLint.Command.Options
import MarkupLint.Config.Load

/-! # The command

    One run of the command over the files of a working directory: what it
    writes, what it returns, and the files after it. -/

namespace MarkupLint

/-- What a run finds. -/
structure CommandContext where
  files : FileTree
  /-- The time for dates in documents, in seconds. -/
  clock : Int := 0
  /-- The time for the cache, in nanoseconds. -/
  now : Int := 0
  processors : Nat := 1
  /-- Whether the output goes to a terminal that shows colours. -/
  terminal : Bool := false

/-- What a run leaves. -/
structure CommandResult where
  exit : Nat
  output : String := ""
  /-- Complaints and usage. -/
  complaint : String := ""
  /-- The lines of the log. -/
  log : List String := []
  files : FileTree

/-- Why a run fails. -/
inductive CommandError where
  | usage (e : UsageError)
  | config (e : ConfigError)
  | resolve (e : ResolveError)
  | cache (e : CacheError)
  | batch (e : BatchError)

/-- The text of a failure. -/
def CommandError.message : CommandError → String
  | .usage e => e.message
  | .config e => e.message
  | .resolve e => e.message
  | .cache e => e.message
  | .batch e => e.message

/-- What a run has done so far. -/
structure CommandState where
  files : FileTree
  logger : Logger := {}
  log : List String := []

/-- A step of a run. -/
abbrev CommandM := EStateM CommandError CommandState

namespace Command

/-- All went well. -/
def exitClean : Nat := 0
/-- The run itself failed. -/
def exitFailure : Nat := 1
/-- The files have problems. -/
def exitProblems : Nat := 2

/-- Logs an entry. -/
def write (e : LogEntry) : CommandM Unit :=
  modify fun s => { s with log := s.log ++ (s.logger.line? e).toList }

/-- Logs an entry that is only written if asked for. -/
def note (message : String) (fields : LogFields) : CommandM Unit :=
  write { level := .debug, message := message, fields := fields }

/-- Goes on with a value, or fails. -/
def ofExcept (cause : ε → CommandError) : Except ε α → CommandM α
  | .ok a => pure a
  | .error e => throw (cause e)

/-- The plan of the configuration that the options name, or that is found. -/
def loadPlan (o : Options) : CommandM Plan := do
  let files := (← get).files
  let found := if o.config = "" then Config.discover files else some o.config
  match found with
  | none => return {}
  | some path =>
    let (plan, warnings) ← ofExcept .config (Config.load files path o.strictConfig none)
    for warning in warnings do
      write { level := .warn, message := warning }
    note "configuration loaded" [("path", .text path)]
    return plan

/-- The files to lint. -/
def filesToLint (o : Options) (plan : Plan) : CommandM (List String) := do
  let r ← ofExcept .resolve (Resolver.atBase (← get).files ".")
  match r.resolveOr o.arguments plan.files with
  | .ok paths => return paths
  | .error .noFiles => throw (.usage .noFiles)
  | .error e => throw (.resolve e)

/-- Drops what has expired from a cache and logs what remains. -/
def maintain (now : Int) (cache : Cache) : CommandM Cache := do
  let (pruned, cache) := cache.prune? now
  if let some (n + 1) := pruned then
    note "cache pruned" [("entries", .int (n + 1))]
  if let some s := cache.stats? now then
    note "cache stats" [("entries", .int s.entries), ("expired", .int s.expired),
      ("hits", .int s.counts.hits), ("misses", .int s.counts.misses)]
  return cache

/-- Runs the batch of a plan; the cache is kept also if it fails. -/
def runBatch (ctx : CommandContext) (plan : Plan) (paths : List String) :
    CommandM (BatchState Cache) := do
  let files := (← get).files
  let cache ← ofExcept .cache (Cache.openWith plan.cache files)
  let batch : Batch := {
    env := { constructs := Constructs.standard, files := files, clock := ctx.clock }
    source := .tree files, now := ctx.now, processors := ctx.processors }
  let options : BatchOptions := {
    encoding := plan.encoding, jobs := plan.jobs, baseIgnores := plan.baseIgnores
    ignoreDirectives := plan.ignoreDirectives, ignoreRoles := plan.ignoreRoles
    lifetime := plan.cache.lifetime }
  let (s, error) := batch.run options cache paths
  for e in s.log do
    write e
  modify fun c => { c with files := s.cache.save c.files }
  match error with
  | some e => throw (.batch e)
  | none => return s

/-- Lints the files that the options ask for: the report, and whether there
    are problems. -/
def lint (ctx : CommandContext) (o : Options) : CommandM (String × Bool) := do
  let usage (flag : String) (e : Text.UnknownName) : CommandError := .usage (.choice flag e)
  let format ← ofExcept (usage "log-format") (LogFormat.parse o.logFormat)
  modify fun s => { s with logger := { verbose := o.verbose, format := format } }
  let mode ← ofExcept (usage "color") (ColourMode.parse o.colour)
  let (wrong, plan) := o.apply (← loadPlan o)
  if let some e := wrong then throw (.usage e)
  let paths ← filesToLint o plan
  let s ← runBatch ctx plan paths
  let cache ← maintain ctx.now s.cache
  modify fun c => { c with files := cache.save c.files }
  note "lint summary" [("files", .int s.results.length), ("cache_hits", .int s.hits),
    ("diagnostics", .text (Tally.ofRecords (FileResult.allRecords s.results)).render)]
  let colour := mode = .on || mode = .auto && ctx.terminal
  let report := FileResult.report plan.format plan.level (plan.format = .text && colour) s.results
  return (report, FileResult.failed plan.failLevel s.results)

/-- The name and the version of the command. -/
def versionText (version : String) : String := "rst-lint version " ++ version ++ "\n"

/-- What a failure lets the command write. -/
def complain (e : CommandError) : String :=
  let usage := match e with
    | .usage _ => "\n" ++ Options.commandUsage
    | _ => ""
  "rst-lint: " ++ e.message ++ "\n" ++ usage

/-- Runs the command with options. -/
def runOptions (ctx : CommandContext) (version : String) (o : Options) : CommandResult :=
  if o.help then { exit := exitClean, output := Options.helpText, files := ctx.files }
  else if o.version then
    { exit := exitClean, output := versionText version, files := ctx.files }
  else
    match (lint ctx o).run { files := ctx.files } with
    | .ok (report, problems) s =>
      { exit := if problems then exitProblems else exitClean
        output := report, log := s.log, files := s.files }
    | .error e s => { exit := exitFailure, complaint := complain e, log := s.log, files := s.files }

/-- Completes the last of some words. -/
def complete (ctx : CommandContext) (descriptions : Bool) (words : List String) : CommandResult :=
  if words.isEmpty then
    { exit := exitFailure, files := ctx.files
      complaint := "rst-lint: requires at least 1 arg(s), only received 0\n" }
  else
    let (output, complaint) := Completion.render descriptions words
    { exit := exitClean, output := output, complaint := complaint, files := ctx.files }

/-- Runs the command. -/
def run (ctx : CommandContext) (version : String) (words : List String) : CommandResult :=
  match words with
  | "__complete" :: rest => complete ctx true rest
  | "__completeNoDesc" :: rest => complete ctx false rest
  | _ =>
    match Options.parse Options.commandFlags words with
    | .ok o => runOptions ctx version o
    | .error e =>
      { exit := exitFailure, complaint := complain (.usage (.flag e)), files := ctx.files }

end Command

end MarkupLint
