import MarkupLint.Directive.Run

/-! # Explicit markup

    Comments, targets, substitution definitions and directives.  A step
    gives the nodes that stand for the markup; the body adds them. -/

namespace MarkupLint.Site

/-- A comment. -/
def comment (site : Site) (lines : List Line) (line : Nat) : Build NodeId :=
  Build.textElement { kind := .comment, line := line, source := site.source }
    (String.ofList (Line.joinLines lines))

/-! ## Targets -/

/-- Where the name of a target ends: before a colon that is not escaped and
    that a space or nothing follows.  `last` is the character before. -/
def targetName? (last : Char) : List Char → Option (List Char × List Char)
  | [] => none
  | c :: rest =>
    if c = ':' && last ≠ '\\' && (rest.isEmpty || rest.head? = some ' ') then some ([], rest)
    else (targetName? c rest).map fun (name, after) => (c :: name, after)

/-- The name of a target, empty for an anonymous one, and what it leads
    to. -/
def splitTarget? (text : List Char) : Option (List Char × List Char) :=
  match text with
  | '_' :: '_' :: ':' :: [] => some ([], [])
  | '_' :: '_' :: ':' :: ' ' :: rest => some ([], Text.trim rest)
  | '_' :: '\x60' :: rest =>
    match Text.cut? ['\x60', ':'] rest with
    | some (name, after) =>
      if after.isEmpty || after.head? = some ' ' then some (name, Text.trim after) else none
    | none => none
  | c :: rest =>
    match targetName? c rest with
    | some (name, after) =>
      let name := Text.trim name
      if name.isEmpty then none else some (name, Text.trim after)
    | none => none
  | [] => none

/-- Whether the text of a target is that of an anonymous one. -/
def isAnonymousTarget (text : List Char) : Bool :=
  text = ['_', '_', ':'] || Text.startsWith ['_', '_', ':', ' '] text

/-- A target that leads to a name, an address or the next block. -/
def makeTarget (site : Site) (name : Option (List Char)) (lines : List Line) (line : Nat) :
    Build (List NodeId) := do
  let destination := (lines.map Text.squeeze).flatten
  let blank : Node :=
    { kind := .target, line := line, source := site.source, anonymous := name.isNone
      names := name.toList.map fun n => normalizeName (String.ofList (Inline.unescape n)) }
  let target ← Build.element <|
    match Pattern.reference? destination with
    | some other => { blank with refname := normalizeName (String.ofList (Inline.unescape other)) }
    | none => { blank with refuri := String.ofList (Inline.unescape destination) }
  if name.isNone then return [target]
  return target :: (← Build.noteTarget target true)

/-- A target with a name, or a comment if it is malformed. -/
def hyperlinkTarget (site : Site) (lines : List Line) (line : Nat) : Build (List NodeId) := do
  let text := [' '].intercalate (lines.map Text.trim)
  match splitTarget? text with
  | none => do
    let warning ← site.raise .warning line "malformed hyperlink target."
    return [← site.comment lines line, warning]
  | some (name, rest) =>
    site.makeTarget (if isAnonymousTarget text then none else some name) [rest] line

/-! ## Directives -/

/-- The use of a directive whose block was read. -/
def call (site : Site) (block : Invocation) (name : String) (line : Nat)
    (markup substitution : String) : Call :=
  { block with
    name := Text.lowerString name, line := line, markup := markup
    substitution := substitution, site := site }

/-- Runs the directive of a name.  `body` is the text after its marker and
    the lines below. -/
def directive (site : Site) (read : ReadBody) (name : String) (body : List Line) (line : Nat)
    (markup substitution : String) : Parse (List NodeId) := do
  match site.env.directive? name with
  | none => do
    let note ← site.raise .info line (lookupNote "directive" name)
    return [note,
      ← site.raise .error line ("Unknown directive type \"" ++ name ++ "\".") (some markup)]
  | some d =>
    match d.spec.read body (line - 1) with
    | .error e =>
      return [← site.raise .error line
        ("Error in \"" ++ name ++ "\" directive:\n" ++ e ++ ".") (some markup)]
    | .ok block =>
      match ← ((site.call block name line markup substitution).run read name d).run with
      | .ok nodes => return nodes
      | .error e =>
        return e.messages ++ [← site.raise e.level line e.text (some markup)]

/-- The directive that a line starts with and its text, if it does. -/
def directiveText? (lines : List Line) : Option (String × List Line) :=
  match lines with
  | [] => none
  | l :: rest =>
    (Pattern.directive? l).map fun (name, width) => (String.ofList name, l.drop width :: rest)

/-! ## Substitutions -/

/-- The nodes that stand inside a line, and the others. -/
def divide (nodes : List NodeId) : Parse (List NodeId × List NodeId) := do
  let f ← Parse.forest
  return nodes.partition fun i => (f.get i).kind.isInline

/-- The nodes of a definition that stand inside a line, and the others. -/
def definitionNodes (site : Site) (read : ReadBody) (name : String) (body : List Line)
    (line : Nat) (markup : String) : Parse (List NodeId × List NodeId) := do
  match directiveText? body with
  | some (directiveName, text) => do
    let nodes ← site.directive read directiveName text line markup name
    divide nodes
  | none => do
    let made ← Parse.inlineParse site (Text.trim (Line.joinLines body)) line
    return (made.nodes, made.messages)

/-- The complaint about a substitution definition. -/
def refuseDefinition (site : Site) (name : String) (line : Nat) (markup why : String) :
    Build NodeId :=
  site.raise .warning line ("Substitution definition \"" ++ name ++ "\" " ++ why) (some markup)

/-- Defines a substitution by the nodes that stand inside a line, if there
    are any. -/
def defineSubstitution (site : Site) (name : String) (line : Nat) (markup : String)
    (made : List NodeId × List NodeId) : Parse (List NodeId) := do
  let definition ← Build.element
    { kind := .substitutionDefinition, names := [name], line := line, source := site.source }
    made.1
  if (← Build.node definition).children.isEmpty then
    return made.2 ++ [← site.refuseDefinition name line markup "empty or invalid."]
  return made.2 ++ definition :: (← Build.noteSubstitution name definition)

/-- A substitution definition, or a comment if it is malformed. -/
def substitutionDefinition (site : Site) (read : ReadBody) (lines : List Line) (line : Nat)
    (markup : String) : Parse (List NodeId) := do
  match lines with
  | [] => return []
  | first :: rest =>
    match Pattern.substitution? first with
    | none => do
      let warning ← site.raise .warning line "malformed substitution definition."
      return [← site.comment lines line, warning]
    | some (name, width) =>
      let name := collapseName (String.ofList name)
      let body := (first.drop width :: rest).dropWhile Text.isBlank
      if body.isEmpty then return [← site.refuseDefinition name line markup "missing contents."]
      let made ← site.definitionNodes read name body line markup
      site.defineSubstitution name line markup made

/-- Whether a line starts with a mark that something other than a space
    follows. -/
def isMarked (mark : Char) : Line → Bool
  | c :: d :: _ => c = mark && d ≠ ' '
  | _ => false

/-- The nodes of an explicit markup block; what is nothing else is a
    comment. -/
def explicit (site : Site) (read : ReadBody) (lines : List Line) (line : Nat) (markup : String) :
    Parse (List NodeId) := do
  let first := lines.headD []
  if isMarked '_' first then site.hyperlinkTarget lines line
  else if isMarked '|' first then site.substitutionDefinition read lines line markup
  else match directiveText? lines with
    | some (name, body) => site.directive read name body line markup ""
    | none => return [← site.comment lines line]

end MarkupLint.Site
