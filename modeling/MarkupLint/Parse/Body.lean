import MarkupLint.Parse.Explicit

/-! # Building bodies

    The blocks of a body become nodes where the body stands.  A block with
    a body of its own hands it to `read`, which is the parser itself; the
    nesting of bodies is bounded by the size of the text, and that of files
    by a number that no text reaches. -/

namespace MarkupLint

namespace Site

/-- The same site for the body of a node. -/
def within (site : Site) (node : NodeId) : Site := { site with titles := false, parent := node }

/-- The complaint about an indented line after a paragraph, if there is
    one. -/
def strayMessages (site : Site) : Option Nat → Build (List NodeId)
  | some next => return [← site.raise .error next "Unexpected indentation."]
  | none => return []

/-- A paragraph with its messages. -/
def paragraph (site : Site) (line : Nat) (text : List Char) (stray : Option Nat) : Parse Unit := do
  let complaint ← site.strayMessages stray
  if !text.isEmpty then
    let made ← Parse.inlineParse site text line
    let n ← Build.element { kind := .paragraph, line := line, source := site.source } made.nodes
    site.add (n :: made.messages)
  site.add complaint

/-! ## Sections -/

/-- The level of a title and the styles known after it; none if the style
    does not fit the order of the styles before. -/
def titleLevel? (styles : List TitleStyle) (depth : Nat) (style : TitleStyle) :
    Option (Nat × List TitleStyle) :=
  match styles.idxOf? style with
  | some k => if k ≤ depth then some (k + 1, styles) else none
  | none => if styles.length = depth then some (depth + 1, styles ++ [style]) else none

/-- Raises a complaint once for the title and once more for every section
    that the title closes; the last one counts. -/
def repeatShortage (site : Site) (p : Problem) : Nat → Parse (List NodeId)
  | 0 => return [← site.complain p]
  | count + 1 => do
    let _ ← site.complain p
    site.repeatShortage p count

/-- The complaints about a title that closes `count` sections. -/
def shortageMessages (site : Site) (p : Option Problem) (count : Nat) : Parse (List NodeId) :=
  match p with
  | none => return []
  | some p => site.repeatShortage p count

/-- Complains about a title that is not admitted. -/
def refuseTitle (site : Site) (h : Heading) : Parse Unit := do
  let messages ← site.shortageMessages h.shortage 0
  site.add messages
  site.add [← site.raise .severe h.line "Title level inconsistent:" (some (String.ofList h.markup))]

/-- Puts the section of a title under its parent, and then what was said
    about the title under the section. -/
def hangSection (site : Site) (h : Heading) (parent : NodeId) (made : Inlined)
    (messages : List NodeId) : Parse Unit := do
  let title ← Build.element { kind := .title, line := h.line } made.nodes
  let node ← Build.element
    { kind := .division, line := h.line, source := site.source
      names := [normalizeName made.text] }
    (title :: messages ++ made.messages)
  Build.append parent [node]
  modify fun s => { s with sections := node :: s.sections }
  let complaints ← Build.noteTarget node false
  Build.append node complaints

/-- Opens the section of a title after some sections are closed; `styles`
    are known from then on. -/
def enterSection (site : Site) (h : Heading) (closed : Nat) (styles : List TitleStyle) :
    Parse Unit := do
  let messages ← site.shortageMessages h.shortage closed
  modify fun s => { s with styles := styles, sections := s.sections.drop closed }
  let parent ← site.container
  let made ← Parse.inlineParse site h.text h.line
  site.hangSection h parent made messages

/-- Opens a section for a title, if it is admitted. -/
def openSection (site : Site) (h : Heading) : Parse Unit := do
  let s ← get
  match titleLevel? s.styles s.sections.length h.style with
  | none => site.refuseTitle h
  | some (level, styles) => site.enterSection h (s.sections.length + 1 - level) styles

/-! ## Lists -/

/-- A list node, where the body goes on. -/
def openList (site : Site) (n : Node) : Parse NodeId := do
  let list ← Build.element n
  site.add [list]
  return list

/-- The items of a list. -/
def listItems (site : Site) (read : ReadBody) (list : NodeId) (items : List ListItem) :
    Parse Unit :=
  items.forM fun item => do
    let n ← Build.element { kind := .listItem, line := item.line }
    read (site.within n) item.body
    Build.append list [n]

/-- The fields of a list. -/
def fields (site : Site) (read : ReadBody) (list : NodeId) (items : List HeadedItem) :
    Parse Unit :=
  items.forM fun item => do
    let made ← Parse.inlineParse site item.head item.line
    let name ← Build.element { kind := .fieldName } made.nodes
    let body ← Build.element { kind := .fieldBody }
    let field ← Build.element { kind := .field, line := item.line, value := made.text }
      [name, body]
    Build.append list [field]
    Build.append body made.messages
    read (site.within body) item.body

/-- The options of a list. -/
def optionItems (site : Site) (read : ReadBody) (list : NodeId) (items : List HeadedItem) :
    Parse Unit :=
  items.forM fun item => do
    let term ← Build.textElement { kind := .term } (String.ofList item.head)
    let definition ← Build.element { kind := .definition }
    let n ← Build.element { kind := .definitionListItem, line := item.line } [term, definition]
    Build.append list [n]
    read (site.within definition) item.body

/-- The note about a term that looks as if it announced a literal block. -/
def termNotes (site : Site) (item : DefinitionItem) : Build (List NodeId) :=
  if item.announces then
    return [← site.raise .info (item.line + 1) ("Blank line missing before literal block "
      ++ "(after the \"::\")? Interpreted as a definition list item.")]
  else return []

/-- The terms of a list with their definitions. -/
def definitions (site : Site) (read : ReadBody) (list : NodeId) (items : List DefinitionItem) :
    Parse Unit :=
  items.forM fun item => do
    let made ← Parse.inlineParse site item.term item.line
    let term ← Build.element { kind := .term } made.nodes
    let note ← site.termNotes item
    let definition ← Build.element { kind := .definition }
    let blank : Node := { kind := .definitionListItem, line := item.line }
    let n ← Build.element
      (match item.classifier with
        | some c => blank.setAttr "classifier" (String.ofList c)
        | none => blank)
      (term :: made.messages ++ note ++ [definition])
    Build.append list [n]
    read (site.within definition) item.body

/-- The note that an enumerated list does not start with one. -/
def startNote (start : Nat × List Char) : String :=
  "Enumerated list start value not ordinal-1: \"" ++ String.ofList start.2 ++ "\" (ordinal "
    ++ Text.natText start.1 ++ ")"

/-- An enumerated list. -/
def enumeratedList (site : Site) (read : ReadBody) (line : Nat)
    (start : Option (Nat × List Char)) (items : List ListItem) : Parse Unit := do
  let blank := { kind := .enumeratedList, line := line : Node }.setAttr "enumtype" "arabic"
  let list ← site.openList <|
    match start with
    | some (k, _) => blank.setAttr "start" (Text.natText k)
    | none => blank
  if let some start := start then
    site.add [← site.raise .info line (startNote start)]
  site.listItems read list items

/-- A list that reading does not get past: it has no item, which counts as
    one that did not end well at the first line of the body.  The parser is
    at the same line then as before. -/
def stuckList (site : Site) (read : ReadBody) (line first : Nat) : Parse Unit := do
  site.enumeratedList read line (some (0, [])) []
  site.add [← site.complain (Reader.unindentProblem "Enumerated list" first)]
  throw .endless

/-- The lines of a line block. -/
def lineBlock (site : Site) (line : Nat) (lines : List (Nat × List Char)) : Parse Unit := do
  let n ← Build.element
    ({ kind := .container, line := line : Node }.setAttr "classes" "line-block")
  lines.forM fun (k, text) => do
    let made ← Parse.inlineParse site text k
    Build.append n (made.nodes ++ made.messages)
  site.add [n]

/-- Adds what a block stands for. -/
def block (site : Site) (read : ReadBody) : Block → Parse Unit
  | .problem p => do site.add [← site.complain p]
  | .paragraph line text stray => site.paragraph line text stray
  | .literal line text => do
    site.add [← Build.textElement { kind := .literalBlock, line := line } (String.ofList text)]
  | .heading h => site.openSection h
  | .transition line => do
    site.add [← Build.element { kind := .transition, line := line, source := site.source }]
  | .quote line body => do
    let n ← Build.element { kind := .blockQuote, line := line }
    site.add [n]
    read (site.within n) body
  | .bulletList line items => do
    let list ← site.openList { kind := .bulletList, line := line }
    site.listItems read list items
  | .enumeratedList line start items => site.enumeratedList read line start items
  | .stuckList line first => site.stuckList read line first
  | .fieldList line items => do
    let list ← site.openList { kind := .fieldList, line := line }
    site.fields read list items
  | .optionList line items => do
    let blank : Node := { kind := .definitionList, line := line }
    let list ← site.openList (blank.setAttr "option_list" "true")
    site.optionItems read list items
  | .definitionList line items => do
    let list ← site.openList { kind := .definitionList, line := line }
    site.definitions read list items
  | .doctest line text => do
    site.add [← Build.textElement { kind := .doctestBlock, line := line } (String.ofList text)]
  | .lineBlock line lines => site.lineBlock line lines
  | .table line text => do
    site.add [← Build.textElement { kind := .table, line := line } (String.ofList text)]
  | .explicit line lines markup => do
    site.add (← site.explicit read lines line (String.ofList markup))
  | .anonymousTarget line lines => do site.add (← site.makeTarget none lines line)

/-- Reads a body into its site, at most `depth` levels deep; `file` reads
    the bodies that come from files. -/
def readWithin (file : Site → Body → Parse Unit) : Nat → Site → Body → Parse Unit
  | 0, _, _ => throw .exhausted
  | depth + 1, site, body =>
    (site.blocks body).forM (site.block ⟨readWithin file depth, file⟩)

/-- Reads a body into its site, with at most `count` files inside one
    another.  Bodies get shorter with every level, so their nesting is at
    most the size of the outermost. -/
def read : Nat → Site → Body → Parse Unit
  | 0, _, _ => throw .exhausted
  | count + 1, site, body => readWithin (read count) (body.size + 1) site body

end Site

/-- Parses a text into a document. -/
def parseText (env : Surroundings) (text : List Char) : Parse Unit := do
  let d ← Parse.document
  match splitLines? d.tabWidth text with
  | none => throw .fault
  | some lines =>
    Site.read (env.nesting + 1)
      { env := env, source := d.source, titles := true, parent := d.root, includes := [] }
      ⟨0, lines⟩

/-- Parses a text into a document: how it ended, and the document. -/
def Document.parse (d : Document) (env : Surroundings) (text : List Char) :
    Except Stop Unit × Document :=
  match (parseText env text).run { doc := d } with
  | .ok () s => (.ok (), s.doc)
  | .error e s => (.error e, s.doc)

end MarkupLint
