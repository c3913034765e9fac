import MarkupLint.Directive.Call

/-! # Boxes

    Directives that put their content into a node: admonitions, topics and
    sidebars, quotations, containers, headers and footers. -/

namespace MarkupLint.Call

/-- An admonition of a type. -/
def admonition (c : Call) (read : ReadBody) (type : String) : Run (List NodeId) := do
  c.requireContent
  let (n, complaints) ← c.element ({ kind := .admonition : Node })
  Build.setAttr n "type" type
  c.readContent read n
  return n :: complaints

/-- An admonition with a title of its own. -/
def titledAdmonition (c : Call) (read : ReadBody) : Run (List NodeId) := do
  c.requireContent
  let (title, messages) ← c.inlineTitle .title c.argument
  let (n, complaints) ← c.element ({ kind := .admonition : Node }) [title]
  Build.setAttr n "type" "admonition"
  Build.append n messages
  c.readContent read n
  return n :: complaints

/-- A title under a node, if there is text for one; gives its messages. -/
def addTitle (c : Call) (n : NodeId) (kind : Kind) (text : Option String) :
    Parse (List NodeId) := do
  match text with
  | none => return []
  | some text =>
    let (title, messages) ← c.inlineTitle kind text
    Build.append n [title]
    return messages

/-- A topic or a sidebar, which may stand only where a section could. -/
def pseudoSection (c : Call) (read : ReadBody) (kind : Kind) : Run (List NodeId) := do
  if kind == .sidebar && (← c.inSidebar) then
    throw { text := "The " ++ c.shownName
      ++ " directive may not be used within a sidebar element." }
  c.requireSection
  c.requireContent
  let (n, complaints) ← c.element { kind := kind }
  let titleMessages ← c.addTitle n .title c.argument?
  let subtitleMessages ← c.addTitle n .subtitle (c.option? "subtitle")
  Build.append n (complaints ++ titleMessages ++ subtitleMessages)
  c.readContent read n
  return [n]

/-- A block quote of a style. -/
def quotation (c : Call) (read : ReadBody) (style : String) : Run (List NodeId) := do
  c.requireContent
  let (n, _) ← c.element { kind := .blockQuote }
  Build.setAttr n "classes" style
  c.readContent read n
  return [n]

/-- Several blocks as one. -/
def compound (c : Call) (read : ReadBody) : Run (List NodeId) := do
  c.requireContent
  let (n, complaints) ← c.element { kind := .compound }
  c.readContent read n
  return n :: complaints

/-- The class names in the first argument. -/
def classArgument (c : Call) : Run String :=
  match Converter.classNames c.argument with
  | .ok classes => pure classes
  | .error _ => throw { text := "Invalid class attribute value for " ++ c.shownName
      ++ " directive: \"" ++ c.argument ++ "\"." }

/-- A container with the classes of its argument. -/
def container (c : Call) (read : ReadBody) : Run (List NodeId) := do
  c.requireContent
  let (n, complaints) ← c.element { kind := .container }
  if c.argument?.isSome then
    Build.setAttr n "classes" (← c.classArgument)
  c.readContent read n
  return n :: complaints

/-- A header or a footer of the document. -/
def decoration (c : Call) (read : ReadBody) (kind : Kind) : Run (List NodeId) := do
  c.requireContent
  let (n, _) ← c.element { kind := kind }
  c.readContent read n
  return [n]

/-- Classes for the blocks of the content, or for what follows if there is
    no content. -/
def classes (c : Call) (read : ReadBody) : Run (List NodeId) := do
  let classes ← c.classArgument
  if c.content.isEmpty then
    return [← c.pending .classAttribute
      [("class", .text classes), ("directive", .text c.name), ("rawsource", .text c.markup)]]
  let nodes ← c.contentNodes read
  nodes.forM fun i => do
    let old := ((← Build.node i).attr? "classes").getD ""
    Build.setAttr i "classes" (if old = "" then classes else old ++ " " ++ classes)
  return nodes

end MarkupLint.Call
