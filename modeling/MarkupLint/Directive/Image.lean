import MarkupLint.Directive.Call

/-! # Images and figures -/

namespace MarkupLint.Call

/-- An address without white space. -/
def squeezed (s : String) : String := String.ofList (Text.squeeze s.toList)

/-- The reference around an image that leads to a target. -/
def imageReference (c : Call) (target : String) : Node :=
  let blank : Node := { kind := .reference, line := c.line, source := c.site.source }
  match Pattern.reference? target.toList with
  | some name => { blank with refname := normalizeName (String.ofList (Inline.unescape name)) }
  | none => { blank with refuri := squeezed target }

/-- Complains if the alignment is none of the given ones. -/
def requireAlignment (c : Call) (alignments : List String) : Run Unit :=
  match c.option? "align" with
  | none => pure ()
  | some align =>
    if alignments.contains align then pure ()
    else throw { text := "Error in " ++ c.shownName ++ " directive: \"" ++ align
      ++ "\" is not a valid value for the \"align\" option"
      ++ (if c.substitution = "" then "" else " within a substitution definition")
      ++ ".  Valid values for \"align\" are: \"" ++ "\", \"".intercalate alignments ++ "\"." }

/-- An image, inside a reference if it has a target. -/
def makeImage (c : Call) (alignments : List String) : Run (List NodeId) := do
  c.requireAlignment alignments
  let (image, complaints) ← c.element { kind := .image }
  Build.setAttr image "uri" (squeezed c.argument)
  ["alt", "height", "width", "scale", "align", "loading"].forM fun key =>
    match c.option? key with
    | some v => (Build.setAttr image key v : Build Unit)
    | none => pure ()
  match c.option? "target" with
  | none => return image :: complaints
  | some target => return (← Build.element (c.imageReference target) [image]) :: complaints

/-- An image, aligned with the line in a substitution and with the page
    elsewhere. -/
def image (c : Call) : Run (List NodeId) :=
  c.makeImage (if c.substitution = "" then StandardDirective.horizontal
    else StandardDirective.vertical)

/-- Nodes below the caption of a figure. -/
def addLegend (figure : NodeId) (nodes : List NodeId) : Build (List NodeId) := do
  if nodes.isEmpty then return [figure]
  let legend ← Build.element ({ kind := .container : Node }.setAttr "classes" "legend") nodes
  Build.append figure [legend]
  return [figure]

/-- Puts nodes into a figure: the first one is its caption, unless it is an
    empty comment, and the others are its legend. -/
def fillFigure (c : Call) (figure : NodeId) : List NodeId → Build (List NodeId)
  | [] => return [figure]
  | first :: rest => do
    let node ← Build.node first
    if node.kind = .paragraph then
      let caption ← Build.element { kind := .caption, line := node.line } node.children
      Build.append figure [caption]
      addLegend figure rest
    else if node.kind = .comment && node.children.isEmpty then addLegend figure rest
    else return [figure,
      ← c.report .error "Figure caption must be a paragraph or empty comment." true]

/-- The node of a figure around an image. -/
def figureNode (c : Call) : Node :=
  let blank : Node := { kind := .figure, line := c.line, source := c.site.source }
  let aligned := match c.option? "align" with
    | some align => blank.setAttr "align" align
    | none => blank
  if c.option "figclass" = "" then aligned else aligned.setAttr "classes" (c.option "figclass")

/-- An image with a caption and a legend. -/
def figure (c : Call) (read : ReadBody) : Run (List NodeId) := do
  let bare : Call := { c with options := c.options.erase "align" }
  let inner ← bare.makeImage StandardDirective.horizontal
  let figure ← Build.element c.figureNode inner
  if c.content.isEmpty then return [figure]
  c.fillFigure figure (← c.contentNodes read)

end MarkupLint.Call
