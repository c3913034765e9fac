import MarkupLint.Parse.Inline
import MarkupLint.Pass.Catalog

/-! # Running directives

    What a directive is given when it is run, how it complains, and the
    steps that most directives share.  A complaint ends the directive but
    not the parsing: it becomes a message that quotes the directive. -/

namespace MarkupLint

/-- One use of a directive at its site. -/
structure Call extends DirectiveUse where
  site : Site

/-- What is wrong with a use of a directive. -/
structure Complaint where
  level : Level := .error
  text : String
  /-- Messages raised before, which go before the complaint. -/
  messages : List NodeId := []

/-- A step of running a directive. -/
abbrev Run := ExceptT Complaint Parse

/-- What reads bodies at their sites: those within the text at hand, and
    those that come from a file. -/
structure ReadBody where
  within : Site → Body → Parse Unit
  file : Site → Body → Parse Unit

instance : CoeFun ReadBody fun _ => Site → Body → Parse Unit := ⟨ReadBody.within⟩

namespace Call

/-- The value of an option. -/
def option? (c : Call) (key : String) : Option String := c.options.get? key

/-- The value of an option; empty if it is not given. -/
def option (c : Call) (key : String) : String := (c.option? key).getD ""

/-- Whether an option is given. -/
def has (c : Call) (key : String) : Bool := (c.option? key).isSome

/-- The first argument. -/
def argument? (c : Call) : Option String := c.arguments.head?.map String.ofList

/-- The first argument; empty if there is none. -/
def argument (c : Call) : String := c.argument?.getD ""

/-- The name between quotes. -/
def shownName (c : Call) : String := "\"" ++ c.name ++ "\""

/-- A value, or a complaint if there is none. -/
def valueOr {α : Type} (x : Option α) (e : Complaint) : Run α :=
  match x with
  | some a => pure a
  | none => throw e

/-- Complains if there is no content. -/
def requireContent (c : Call) : Run Unit :=
  if c.content.any (!Text.isBlank ·) then pure ()
  else throw
    { text := "Content block expected for the " ++ c.shownName ++ " directive; none found." }

/-- Raises a message about the directive without ending it. -/
def report (c : Call) (level : Level) (text : String) (quote : Bool) : Build NodeId :=
  c.site.raise level c.line text (if quote then some c.markup else none)

/-- A node for the directive with the class and the name that its options
    give, and the complaints about the name. -/
def element (c : Call) (n : Node) (children : List NodeId := []) :
    Build (NodeId × List NodeId) := do
  let classes := c.option "class"
  let n := { n with line := c.line, source := c.site.source }
  let n := if classes = "" then n else n.setAttr "classes" classes
  match c.option? "name" with
  | none => return (← Build.element n children, [])
  | some name =>
    let i ← Build.element { n with names := [normalizeName name] } children
    return (i, ← Build.noteTarget i true)

/-- A title of a kind, and the messages about it. -/
def inlineTitle (c : Call) (kind : Kind) (text : String) : Parse (NodeId × List NodeId) := do
  let made ← Parse.inlineParse c.site text.toList c.line
  return (← Build.element { kind := kind, line := c.line } made.nodes, made.messages)

/-- Reads the content into a node. -/
def readContent (c : Call) (read : ReadBody) (parent : NodeId) : Parse Unit :=
  read { c.site with titles := false, parent := parent } ⟨c.contentOffset, c.content⟩

/-- Reads the content into a new node and gives what it consists of. -/
def contentNodes (c : Call) (read : ReadBody) : Parse (List NodeId) := do
  let box ← Build.element { kind := .container }
  c.readContent read box
  return (← Build.node box).children

/-- Whether the directive stands in a sidebar. -/
def inSidebar (c : Call) : Build Bool := do
  return !c.site.titles && (← Build.node c.site.parent).kind == .sidebar

/-- Complains if the directive stands where no section could. -/
def requireSection (c : Call) : Run Unit := do
  if c.site.titles || (← c.inSidebar) then return
  throw { text := "The " ++ c.shownName
    ++ " directive may not be used within topics or body elements." }

/-- Complains if the directive does not define a substitution. -/
def requireSubstitution (c : Call) : Run Unit :=
  if c.substitution ≠ "" then pure ()
  else throw { text := "Invalid context: the " ++ c.shownName
    ++ " directive can only be used within a substitution definition." }

/-- A pending node of the directive, for a pass to deal with. -/
def pending (c : Call) (pass : Pass) (options : List (String × Data.Value)) : Build NodeId :=
  Build.pending { kind := .pending, line := c.line, source := c.site.source } pass.kind
    pass.priority options

/-- The options as values. -/
def optionValues (c : Call) : List (String × Data.Value) :=
  c.options.map fun p => (p.1, .text p.2)

/-- Words before others, without space at the ends. -/
def classesAfter (first classes : String) : String :=
  String.ofList (Text.trim (first ++ " " ++ classes).toList)

end Call

end MarkupLint
