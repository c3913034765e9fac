import MarkupLint.Batch.Hook
import MarkupLint.Cache.Key
import MarkupLint.Cache.Store
import MarkupLint.Lint
import MarkupLint.Log.Entry

/-! # Batches

    Several files are linted one after the other.  A result that is in the
    cache is not made again; a result is only kept if it depends on nothing
    but what its key holds. -/

namespace MarkupLint

/-- Where the files of a batch are read from. -/
inductive BatchSource where
  /-- A table of contents by path. -/
  | table (files : Data.Table Bytes)
  | tree (files : FileTree)

/-- Why a file of a batch cannot be had. -/
inductive ReadFailure where
  /-- The table has no such file. -/
  | absent
  | file (e : FileError)
  | text (e : Text.DecodeError)

/-- The reason in words. -/
def ReadFailure.message (path : String) : ReadFailure → String
  | .absent => "open " ++ path ++ ": file does not exist"
  | .file e => e.message (Path.clean path)
  | .text e => e.message

/-- The content of a file. -/
def BatchSource.read (s : BatchSource) (path : String) : Except ReadFailure Bytes :=
  match s with
  | .table files =>
    match files.get? path with
    | some content => .ok content
    | none => .error .absent
  | .tree files => (files.read (Path.clean path)).mapError .file

/-- Why a batch stopped. -/
inductive BatchError where
  | objection (reason : String)
  | unreadable (path : String) (e : ReadFailure)
  | lint (e : LintError)
  | cancelled

/-- The text of a batch error. -/
def BatchError.message : BatchError → String
  | .objection reason => reason
  | .unreadable path e => "read " ++ path ++ ": " ++ e.message path
  | .lint e => e.message
  | .cancelled => "context canceled"

/-- The result of one file. -/
structure FileResult where
  path : String
  records : List Record
  /-- Whether the records were found in the cache. -/
  cached : Bool
  deriving DecidableEq, Repr

/-- What is done with every file of a batch. -/
structure BatchOptions where
  encoding : String := ""
  jobs : Int := 1
  baseIgnores : Bool := false
  ignoreDirectives : List String := []
  ignoreRoles : List String := []
  /-- How long results are kept, in nanoseconds; the usual time if zero. -/
  lifetime : Int := 0

namespace BatchOptions

/-- The directives that are ignored. -/
def directives (o : BatchOptions) : List String :=
  if o.baseIgnores then Catalog.merge [Catalog.directives, o.ignoreDirectives]
  else o.ignoreDirectives

/-- The roles that are ignored. -/
def roles (o : BatchOptions) : List String :=
  if o.baseIgnores then Catalog.merge [Catalog.roles, o.ignoreRoles] else o.ignoreRoles

/-- What marks the keys of results that this program makes. -/
def keyMark : String := "rst-lint/records/v1"

/-- Names as one part of a key. -/
def joinNames (names : List String) : Bytes := packText ("\x00".intercalate names)

/-- Everything that the result of a file depends on. -/
def keyParts (o : BatchOptions) (path : String) (content : Bytes) : List Bytes :=
  [packText keyMark, packText path, content, packText (Text.lowerString o.encoding),
   joinNames o.directives, joinNames o.roles]

/-- The key of the result of a file. -/
def key (o : BatchOptions) (path : String) (content : Bytes) : String :=
  CacheKey.ofParts (o.keyParts path content)

end BatchOptions

/-- What a batch works with. -/
structure Batch where
  /-- The directives and roles, the files that documents include, the clock. -/
  env : Environment
  source : BatchSource
  hooks : List Hook := []
  /-- The time, in nanoseconds. -/
  now : Int := 0
  /-- How many files are linted at a time if nothing is said. -/
  processors : Nat := 1

/-- What a batch asks of a cache. -/
class ResultCache (κ : Type) where
  /-- Looks a key up at a time. -/
  get : κ → Int → String → Option (List Record) × κ
  /-- Keeps records under a key from a time on, for a time. -/
  set : κ → Int → String → List Record → Int → κ

instance {σ : Nat → Int → Type} [RecencyStore σ] {ρ : Type} [RowStore ρ] [CacheCodec] :
    ResultCache (Cache σ ρ) := ⟨Cache.get, Cache.set⟩

/-- How far a batch has come. -/
structure BatchState (κ : Type) where
  cache : κ
  results : List FileResult := []
  /-- How many results were found in the cache. -/
  hits : Nat := 0
  events : List HookEvent := []
  /-- The files that were read, in order. -/
  reads : List String := []
  log : List LogEntry := []

/-- A step of a batch. -/
abbrev BatchM (κ : Type) := EStateM BatchError (BatchState κ)

namespace LintResult

/-- What is logged while a document is linted. -/
def log (r : LintResult) (source : String) (directives roles : Nat) : List LogEntry :=
  let name : String × Data.Value := ("source", .text source)
  let entry (message : String) (fields : LogFields) : LogEntry :=
    { level := .debug, message := message, fields := name :: fields }
  let unwound := match r.error with
    | some (.stopped _ (.aborted _)) => true
    | some (.stopped _ .fault) => true
    | some (.stopped _ .endless) => true
    | some (.stopped _ .exhausted) => true
    | _ => false
  [entry "ignore scope opened" [("directives", .int directives), ("roles", .int roles)]]
    ++ (r.applied.map fun a =>
      entry "transform applied" [("kind", .text a.kind), ("priority", .int a.priority)])
    ++ (if unwound then [] else [entry "ignore scope closed" []])
    ++ match r.error with
      | some e => [entry "lint failed" [("err", .text e.message)]]
      | none => []

end LintResult

namespace Batch

variable {κ : Type}

/-- Logs an entry. -/
def note (message : String) (fields : LogFields) : BatchM κ Unit :=
  modify fun s =>
    { s with log := s.log ++ [{ level := .debug, message := message, fields := fields }] }

/-- Tells the hooks of a moment. -/
def announce (b : Batch) (p : HookPoint) : BatchM κ Unit := do
  let (events, objection) := p.announce b.hooks
  modify fun s => { s with events := s.events ++ events }
  match objection with
  | some reason => throw (.objection reason)
  | none => return

/-- Reads a file. -/
def read (b : Batch) (path : String) : BatchM κ Bytes :=
  match b.source.read path with
  | .ok content => do
    modify fun s => { s with reads := s.reads ++ [path] }
    return content
  | .error e => throw (.unreadable path e)

/-- Lints the content of a file. -/
def lintContent (b : Batch) (o : BatchOptions) (path : String) (content : Bytes) :
    Except BatchError LintResult :=
  match b.env.conventions.decoders.decode content o.encoding with
  | .error e => .error (.unreadable path (.text e))
  | .ok text =>
    let l : Linter := { env := b.env }
    let options : LintOptions := {
      source := path, ignoreDirectives := o.directives, ignoreRoles := o.roles }
    .ok (l.lint text options).1

/-- Lints the content of a file and logs it. -/
def lintAfresh (b : Batch) (o : BatchOptions) (path : String) (content : Bytes) :
    BatchM κ LintResult := do
  match b.lintContent o path content with
  | .error e => throw e
  | .ok r =>
    let logged :=
      r.log path (Catalog.merge [o.directives]).length (Catalog.merge [o.roles]).length
    modify fun s => { s with log := s.log ++ logged }
    match r.error with
    | some e => throw (.lint e)
    | none => return r

variable [ResultCache κ]

/-- Looks for the result of a file. -/
def lookUp (b : Batch) (o : BatchOptions) (path : String) (content : Bytes) :
    BatchM κ (Option (List Record)) :=
  modifyGet fun s =>
    let (found, cache) := ResultCache.get s.cache b.now (o.key path content)
    (found, { s with cache := cache })

/-- Keeps the result of a file, if it depends on nothing else. -/
def keep (b : Batch) (o : BatchOptions) (path : String) (content : Bytes) (r : LintResult) :
    BatchM κ Unit :=
  if r.dependencies.isEmpty then
    let lifetime := if o.lifetime = 0 then CacheSettings.usualLifetime else o.lifetime
    modify fun s =>
      { s with cache := ResultCache.set s.cache b.now (o.key path content) r.records lifetime }
  else
    note "result not cached"
      [("path", .text path), ("dependencies", .list (r.dependencies.map Data.Value.text))]

/-- Finds or makes the result of a file. -/
def lintOne (b : Batch) (o : BatchOptions) (path : String) : BatchM κ FileResult := do
  b.announce (.beforeFile path)
  let content ← b.read path
  match ← b.lookUp o path content with
  | some records => do
    note "cache hit" [("path", .text path)]
    return { path := path, records := records, cached := true }
  | none => do
    let r ← b.lintAfresh o path content
    b.keep o path content r
    return { path := path, records := r.records, cached := false }

/-- Adds the result of a file. -/
def conclude (b : Batch) (r : FileResult) : BatchM κ Unit := do
  if r.cached then modify fun s => { s with hits := s.hits + 1 }
  b.announce (.afterFile r.path)
  modify fun s => { s with results := s.results ++ [r] }

/-- Lints one file and adds its result. -/
def step (b : Batch) (o : BatchOptions) (path : String) : BatchM κ Unit := do
  b.conclude (← b.lintOne o path)

/-- Lints files in order. -/
def steps (b : Batch) (o : BatchOptions) : List String → BatchM κ Unit
  | [] => return
  | path :: rest => do
    b.step o path
    b.steps o rest

/-- A whole batch; `cancelled` tells that it is to stop before any file. -/
def process (b : Batch) (o : BatchOptions) (cancelled : Bool) (paths : List String) :
    BatchM κ Unit := do
  b.announce (.beforeLint paths)
  let jobs := if 0 < o.jobs then o.jobs else b.processors
  note "lint started" [("files", .int paths.length), ("jobs", .int jobs)]
  if cancelled then throw .cancelled
  b.steps o paths
  let s ← get
  note "lint finished" [("files", .int s.results.length), ("cache_hits", .int s.hits)]
  b.announce .afterLint

/-- Runs a batch with a cache: how far it came, and why it stopped if it did
    before its end. -/
def run (b : Batch) (o : BatchOptions) (cache : κ) (paths : List String)
    (cancelled : Bool := false) : BatchState κ × Option BatchError :=
  match (b.process o cancelled paths).run { cache := cache } with
  | .ok () s => (s, none)
  | .error e s => (s, some e)

end Batch

end MarkupLint
