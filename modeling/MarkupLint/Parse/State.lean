import MarkupLint.Body.Reader
import MarkupLint.Construct.Directive
import MarkupLint.Conventions
import MarkupLint.Files.Tree

/-! # Parsing steps

    Parsing changes a document and, besides, what holds for the rest of the
    text: the roles the document defined, the styles of its titles and the
    sections that are open.  What holds for one body only, such as the file
    it comes from and the files being included, is not part of the state
    but handed down with the body. -/

namespace MarkupLint

/-- What a document is parsed against. -/
structure Environment where
  constructs : Constructs
  files : FileTree
  /-- The time of the clock, in seconds. -/
  clock : Int
  /-- How many files fit inside one another. -/
  nesting : Nat := 10000
  conventions : Conventions := .standard

/-- What a text sees of an environment: what names mean, the files, the
    clock, how many files fit inside one another, and the conventions. -/
structure Surroundings where
  directive? : String → Option Directive
  role? : String → Option Role
  files : FileTree
  clock : Int
  nesting : Nat
  conventions : Conventions

/-- What a text that is read in an environment sees. -/
def Environment.surroundings (env : Environment) : Surroundings where
  directive? := env.constructs.directive?
  role? := env.constructs.role?
  files := env.files
  clock := env.clock
  nesting := env.nesting
  conventions := env.conventions

/-- Where a body stands. -/
structure Site where
  env : Surroundings
  /-- The file the body comes from. -/
  source : String
  /-- Whether sections may start in the body. -/
  titles : Bool
  /-- The node the body belongs to. -/
  parent : NodeId
  /-- The files being included, the innermost first. -/
  includes : List String

/-- The state of parsing a document. -/
structure ParseState where
  doc : Document
  /-- The roles the document defined. -/
  roles : Data.Table Role := []
  /-- The styles of the titles met, from the top level down. -/
  styles : List TitleStyle := []
  /-- The open sections, the innermost first. -/
  sections : List NodeId := []

/-- A step of parsing. -/
abbrev Parse := EStateM Stop ParseState

/-- A step on the document alone. -/
def Parse.build {α : Type} (x : Build α) : Parse α := fun s =>
  match x s.doc with
  | .ok a d => .ok a { s with doc := d }
  | .error e d => .error e { s with doc := d }

instance : MonadLift Build Parse := ⟨Parse.build⟩

namespace Parse

/-- The document. -/
def document : Parse Document := return (← get).doc

/-- The forest of the document. -/
def forest : Parse Forest := return (← get).doc.forest

/-- Changes the document. -/
def modifyDocument (g : Document → Document) : Parse Unit :=
  modify fun s => { s with doc := g s.doc }

end Parse

namespace Site

/-- The blocks of a body that stands at a site. -/
def blocks (site : Site) (b : Body) : List Block :=
  b.blocks site.titles site.env.conventions.width

/-- The node that the next block of a body goes to. -/
def container (site : Site) : Parse NodeId := do
  let s ← get
  return if site.titles then s.sections.headD s.doc.root else site.parent

/-- Puts nodes where the next block of the body goes. -/
def add (site : Site) (nodes : List NodeId) : Parse Unit := do
  Build.append (← site.container) nodes

/-- Raises a message about a line of the body. -/
def raise (site : Site) (level : Level) (line : Nat) (text : String)
    (literal : Option String := none) : Build NodeId :=
  Build.raise level text { line := some line, source := site.source, literal := literal }

/-- Raises a complaint. -/
def complain (site : Site) (p : Problem) : Build NodeId :=
  site.raise p.level p.line p.text (p.literal.map String.ofList)

/-- The role of a name: one that the document defined or one of the
    namespace. -/
def role? (site : Site) (name : String) : Parse (Option Role) := do
  let key := Text.lowerString name
  match (← get).roles.get? key with
  | some r => return some r
  | none => return site.env.role? key

/-- The note that a name is not among the known ones. -/
def lookupNote (kind name : String) : String :=
  "No " ++ kind ++ " entry for \"" ++ name ++ "\" in module \"docutils.parsers.rst.languages.en\".\n"
    ++ "Trying \"" ++ name ++ "\" as canonical " ++ kind ++ " name."

end Site

end MarkupLint
