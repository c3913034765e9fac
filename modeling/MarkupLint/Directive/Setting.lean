import MarkupLint.Directive.Call

/-! # Settings of the document

    Directives that define roles, set the title and the metadata, or ask
    for a table of contents and for section numbers. -/

namespace MarkupLint.Call

/-- The complaint about a role that does not exist, after the note that it
    was looked up. -/
def unknownRole (c : Call) (name : String) : Run Complaint := do
  let note ← c.site.raise .info c.line (Site.lookupNote "role" name)
  return { text := "Unknown interpreted text role \"" ++ name ++ "\".", messages := [note] }

/-- The name of a new role and the name of its base, which is empty if none
    is given. -/
def roleNames? (s : List Char) : Option (String × String) :=
  let space := Text.isPatternSpace
  let (name, rest) := Pattern.simpleName s
  let rest := rest.dropWhile space
  if name.isEmpty then none
  else match rest with
    | [] => some (String.ofList (Text.lower name), "")
    | '(' :: more =>
      let (base, after) := Pattern.simpleName (more.dropWhile space)
      match after.dropWhile space with
      | ')' :: tail =>
        if base.isEmpty || !(tail.dropWhile space).isEmpty then none
        else some (String.ofList (Text.lower name), String.ofList (Text.lower base))
      | _ => none
    | _ => none

/-- What may follow the names of a new role. -/
def roleSpec : DirectiveSpec where
  options := some
    [("class", .classes), ("format", .unchangedRequired), ("language", .unchangedRequired)]
  hasContent := true

/-- The role of a name, or the usual base if the name is empty. -/
def baseRole (c : Call) (name : String) : Run Role := do
  if name = "" then return Role.generic .inline
  match ← c.site.role? name with
  | some r => return r
  | none => throw (← c.unknownRole name)

/-- Defines a role for the rest of the document. -/
def defineRole (c : Call) : Run (List NodeId) := do
  let first := Text.trim (c.content.headD [])
  if first.isEmpty then
    throw { text := c.shownName ++ " directive requires arguments on the first line." }
  let some (name, baseName) := roleNames? first
    | throw { text := c.shownName ++ " directive arguments not valid role names: \""
        ++ String.ofList first ++ "\"." }
  let base ← c.baseRole baseName
  match roleSpec.read (c.content.drop 1) (c.contentOffset + 1) with
  | .error e => throw { text := "Error in " ++ c.shownName ++ " directive:\n" ++ e ++ "." }
  | .ok block =>
    let given := (block.options.get? "class").getD ""
    let base := match base with
      | .raw _ => Role.raw ((block.options.get? "format").getD "")
      | r => r
    let role := Role.styled base (if given = "" then name else given)
    modify fun (s : ParseState) => { s with roles := s.roles.set name role }
    return []

/-- Sets the role of interpreted text without a role. -/
def defaultRole (c : Call) : Run (List NodeId) := do
  match c.argument? with
  | none => Parse.modifyDocument ({ · with defaultRole := "" })
  | some shown => do
    let name := Text.lowerString shown
    if (← c.site.role? name).isNone then throw (← c.unknownRole shown)
    Parse.modifyDocument ({ · with defaultRole := name })
  return []

/-- Sets the title of the document. -/
def title (c : Call) : Run (List NodeId) := do
  Build.setAttr (← get).doc.root "title" c.argument
  return []

/-- A node for a field of metadata, or a note that it is empty; none for
    what is not a whole field. -/
def metadataTag (c : Call) (field : NodeId) : Build (List NodeId) := do
  let n ← Build.node field
  match n.kind, n.children with
  | .field, _ :: body :: _ => do
    let name := n.value
    let content := String.ofList (Text.trim (← Build.asText body).toList)
    if content = "" then
      return [← Build.raise .info ("No content for meta tag \"" ++ name ++ "\".")
        { line := some n.line, source := c.site.source, literal := some (":" ++ name ++ ":") }]
    let tag : Node := { kind := .metadata, line := n.line }
    return [← Build.element ((tag.setAttr "name" name).setAttr "content" content)]
  | _, _ => return []

/-- The tags of the fields of some lists; anything but a list or a message
    ends them with a complaint. -/
def metadataTags (c : Call) : List NodeId → Build (List NodeId)
  | [] => return []
  | i :: rest => do
    let n ← Build.node i
    match n.kind with
    | .systemMessage => return i :: (← c.metadataTags rest)
    | .fieldList => do
      let tags := (← n.children.mapM c.metadataTag).flatten
      return tags ++ (← c.metadataTags rest)
    | _ => return [← c.report .error "Invalid meta directive." true]

/-- Metadata of the document. -/
def metadata (c : Call) (read : ReadBody) : Run (List NodeId) := do
  c.requireContent
  c.metadataTags (← c.contentNodes read)

/-- The title of a table of contents: its text, which is empty if there is
    none, and the messages about it. -/
def contentsTitle (c : Call) (topic : NodeId) : Parse (String × List NodeId) :=
  match c.argument? with
  | some text => do
    let made ← Parse.inlineParse c.site text.toList c.line
    let title ← Build.element { kind := .title, line := c.line } made.nodes
    Build.append topic [title]
    return (made.text, made.messages)
  | none => do
    if c.has "local" then return ("", [])
    Build.append topic [← Build.textElement { kind := .title } "Contents"]
    return ("Contents", [])

/-- Names a table of contents for its title, unless the name is taken. -/
def nameContents (topic : NodeId) (title : String) : Build (List NodeId) := do
  let name := normalizeName title
  if title = "" || ((← get).lookup name).isSome then return []
  Build.update topic ({ · with names := [name] })
  Build.noteTarget topic false

/-- A topic that a pass fills with a table of contents. -/
def contents (c : Call) : Run (List NodeId) := do
  c.requireSection
  let topic ← Build.element ({ kind := .topic, line := c.line : Node }.setAttr "classes"
    (classesAfter "contents" (c.option "class")))
  let (title, messages) ← c.contentsTitle topic
  let complaints ← nameContents topic title
  Build.append topic [← c.pending .contents c.optionValues]
  return topic :: messages ++ complaints

/-- Asks for section numbers. -/
def sectionNumbers (c : Call) : Run (List NodeId) := do
  return [← c.pending .sectionNumbers c.optionValues]

end MarkupLint.Call
