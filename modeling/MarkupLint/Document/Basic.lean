import MarkupLint.Data.Value
import MarkupLint.Document.Audience
import MarkupLint.Tree.Forest

/-! # Documents

    A document is a forest with a root, the reporter that collects what is
    wrong with it, and the tables that parsing and the later passes share:
    names of targets, substitutions, requests for passes, files read.

    `Build` is the type of steps that change a document.  A step can stop
    early, and what it did to the document before stays done. -/

namespace MarkupLint

/-- The message that reached the halt level. -/
structure Halt where
  level : Level
  type : String
  source : String
  line : Int
  text : String
  deriving DecidableEq, Repr

/-- Why processing stopped. -/
inductive Stop where
  /-- A message reached the halt level. -/
  | halted (message : Halt)
  /-- A pass of an unknown kind was asked for. -/
  | unknownPass (kind : String)
  /-- A directive or a pass failed for a reason of its own. -/
  | failed (reason : String)
  /-- A custom directive gave up in the middle. -/
  | aborted (reason : String)
  /-- A count below zero, a division by zero or a text that is too long to be
      held. -/
  | fault
  /-- Not a stop: the parser would go on at the same line for ever. -/
  | endless
  /-- The nesting went deeper than any text can make it go. -/
  | exhausted
  deriving DecidableEq, Repr

/-- The text of a halt. -/
def Halt.message (h : Halt) : String :=
  "processing halted: (" ++ h.type ++ "/" ++ Text.intText h.level.rank ++ ") " ++ h.text

/-- What raises messages and hands them to the collectors. -/
structure Reporter where
  source : String
  /-- The least level written to the stream. -/
  reportLevel : Level := .warning
  /-- The level that stops processing. -/
  haltLevel : Level := .never
  /-- Whether debug messages are handed on. -/
  debug : Bool := false
  /-- What was written so far; `none` if nothing is to be written. -/
  stream : Option String := none
  /-- Those who are told of messages. -/
  audience : Audience := .empty
  deriving Inhabited, Repr

/-- The collectors that were ever attached, by their names. -/
def Reporter.collectors (r : Reporter) : Data.Table Collector := r.audience.collectors

/-- What a name stands for; a known name without a node is ambiguous. -/
structure NameEntry where
  node : Option NodeId
  explicit : Bool
  deriving DecidableEq, Repr

/-- A request for one application of a pass to a node. -/
structure Request where
  kind : String
  priority : Int
  target : NodeId
  options : List (String × Data.Value) := []

/-- How a document is read and reports. -/
structure Settings where
  reportLevel : Level := .warning
  haltLevel : Level := .never
  debug : Bool := false
  /-- Whether messages are written to a stream. -/
  stream : Bool := false
  tabWidth : Int := 8
  deriving Repr

/-- A document with its tables. -/
structure Document where
  forest : Forest
  root : NodeId
  source : String
  tabWidth : Int
  reporter : Reporter
  /-- The role of interpreted text without a role; empty for the usual one. -/
  defaultRole : String := ""
  names : Data.Table NameEntry := []
  substitutions : Data.Table NodeId := []
  /-- The exact name that a substitution's name in lower case stands for. -/
  foldedSubstitutions : Data.Table String := []
  requests : List Request := []
  dependencies : List String := []

namespace Document

/-- An empty document; a tab width that is not positive means eight. -/
def new (source : String) (settings : Settings) : Document :=
  let (root, forest) := Forest.alloc {} { kind := .document, source := source }
  { forest := forest
    root := root
    source := source
    tabWidth := if settings.tabWidth ≤ 0 then 8 else settings.tabWidth
    reporter :=
      { source := source
        reportLevel := settings.reportLevel
        haltLevel := settings.haltLevel
        debug := settings.debug
        stream := if settings.stream then some "" else none } }

/-- The node at a place. -/
def node (d : Document) (i : NodeId) : Node := d.forest.get i

/-- Notes that a file was read, once. -/
def addDependency (d : Document) (path : String) : Document :=
  { d with
    dependencies := if path ∈ d.dependencies then d.dependencies else d.dependencies ++ [path] }

/-- Asks for a pass. -/
def request (d : Document) (r : Request) : Document :=
  { d with requests := d.requests ++ [r] }

/-- The requests made so far, which are then forgotten. -/
def takeRequests (d : Document) : List Request × Document :=
  (d.requests, { d with requests := [] })

end Document

/-- A step that changes a document and may stop. -/
abbrev Build := EStateM Stop Document

namespace Build

/-- The node at a place. -/
def node (i : NodeId) : Build Node := return (← get).node i

/-- The plain text of a node. -/
def asText (i : NodeId) : Build String := return (← get).forest.asText i

/-- Changes the forest. -/
def edit (g : Forest → Forest) : Build Unit := modify fun d => { d with forest := g d.forest }

/-- Changes a node. -/
def update (i : NodeId) (g : Node → Node) : Build Unit := edit (·.modify i g)

/-- A new node with the given children. -/
def element (n : Node) (children : List NodeId := []) : Build NodeId :=
  modifyGet fun d =>
    let (i, forest) := d.forest.alloc n
    (i, { d with forest := forest.append i children })

/-- A new leaf. -/
def leaf (text : String) : Build NodeId := element { kind := .text, value := text }

/-- A new node that holds one leaf, or nothing if the text is empty. -/
def textElement (n : Node) (text : String) : Build NodeId := do
  if text = "" then element n else element n [← leaf text]

/-- Puts nodes under a parent. -/
def append (p : NodeId) (ns : List NodeId) : Build Unit := edit (·.append p ns)

/-- Sets an attribute of a node. -/
def setAttr (i : NodeId) (key value : String) : Build Unit := update i (·.setAttr key value)

end Build

end MarkupLint
