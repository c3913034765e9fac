import MarkupLint.Construct.Catalog
import MarkupLint.Parse.Body
import MarkupLint.Pass.Schedule

/-! # Linting

    A text is linted by parsing it and applying the standard passes, with
    the ignored names in scope.  Nothing that is wrong with the markup
    stops the processing; what is wrong is collected as records.  The
    namespace after a lint binds the names that it bound before. -/

namespace MarkupLint

/-- What is shared by the lints of several documents. -/
structure Linter where
  /-- Directives and roles, files and clock. -/
  env : Environment
  /-- Directives that are ignored in every document. -/
  baseDirectives : List String := []
  /-- Roles that are ignored in every document. -/
  baseRoles : List String := []
  settings : Settings := {}

/-- What is given with one document. -/
structure LintOptions where
  /-- The label of the document in every record. -/
  source : String := ""
  ignoreDirectives : List String := []
  ignoreRoles : List String := []

/-- Why a lint failed. -/
inductive LintError where
  /-- Parsing or a pass stopped. -/
  | stopped (source : String) (stop : Stop)
  /-- A pass of an unknown kind was asked for. -/
  | unknownPass (source kind : String)
  /-- The file cannot be read. -/
  | unreadable (path : String) (e : SourceError)

/-- The text of the reason for a stop. -/
def Stop.message : Stop → String
  | .halted h => h.message
  | .unknownPass kind => "transform: unknown kind " ++ Text.quoted kind
  | .failed reason => reason
  | .aborted reason => "panic: " ++ reason
  | .fault => "panic: a tab cannot be expanded"
  | .endless => "panic: the parser does not get past a line"
  | .exhausted => "panic: the nesting is too deep"

/-- The text of a lint error. -/
def LintError.message : LintError → String
  | .stopped source stop =>
    "lint " ++ (if source = "" then "<string>" else source) ++ ": " ++ stop.message
  | .unknownPass source kind => "lint " ++ source ++ ": " ++ (Stop.unknownPass kind).message
  | .unreadable path e => "lint " ++ path ++ ": " ++ e.message path

/-- What a lint found. -/
structure LintResult where
  /-- The records in the order in which they were raised. -/
  records : List Record := []
  /-- The other files that the document asked for. -/
  dependencies : List String := []
  /-- The passes that were applied, in order. -/
  applied : List Request := []
  error : Option LintError := none

namespace Linter

/-- Adds the names that a documentation generator defines to the ignored
    ones. -/
def withSphinx (l : Linter) : Linter :=
  { l with
    baseDirectives := Catalog.merge [l.baseDirectives, Catalog.directives]
    baseRoles := Catalog.merge [l.baseRoles, Catalog.roles] }

/-- The directives ignored in a document. -/
def ignoredDirectives (l : Linter) (o : LintOptions) : List String :=
  Catalog.merge [l.baseDirectives, o.ignoreDirectives]

/-- The roles ignored in a document. -/
def ignoredRoles (l : Linter) (o : LintOptions) : List String :=
  Catalog.merge [l.baseRoles, o.ignoreRoles]

/-- An empty document whose messages are collected and stop nothing. -/
def newDocument (l : Linter) (source : String) : Document :=
  let d := Document.new source { l.settings with haltLevel := .never, stream := false }
  { d with reporter := d.reporter.attach "" }

/-- What a document gives after processing ended. -/
def resultOf (d : Document) (applied : List Request) (error : Option LintError) : LintResult where
  records := d.reporter.collected ""
  dependencies := d.dependencies
  applied := applied
  error := error

/-- The error that the end of applying passes is. -/
def passError (source : String) : Except Stop Unit → Option LintError
  | .ok () => none
  | .error (.unknownPass kind) => some (.unknownPass source kind)
  | .error stop => some (.stopped source stop)

/-- Applies the standard passes to a document if it could be parsed. -/
def finish (source : String) : Except Stop Unit × Document → LintResult
  | (.error stop, d) => resultOf d [] (some (.stopped source stop))
  | (.ok (), d) =>
    let (ended, s) := ({ document := d : Schedule }.populateStandard).run
    resultOf s.document s.applied (passError source ended)

/-- Parses a text and applies the standard passes. -/
def process (l : Linter) (source : String) (text : List Char) (constructs : Constructs) :
    LintResult :=
  let env : Environment := { l.env with constructs := constructs }
  finish source ((l.newDocument source).parse env.surroundings text)

/-- Lints a text: what was found, and the namespace after it. -/
def lint (l : Linter) (text : List Char) (o : LintOptions) : LintResult × Constructs :=
  let (directives, roles) := Constructs.ignoring (l.ignoredDirectives o) (l.ignoredRoles o)
  l.env.constructs.withScope directives roles fun ns => (l.process o.source text ns, ns)

/-- Lints a file; its path is the label of the document. -/
def lintFile (l : Linter) (path encoding : String) (o : LintOptions) : LintResult :=
  match l.env.surroundings.readText path encoding with
  | .error e => { error := some (.unreadable path e) }
  | .ok text => (l.lint text { o with source := path }).1

end Linter

end MarkupLint
