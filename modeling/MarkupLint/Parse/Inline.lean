import MarkupLint.Inline.Piece
import MarkupLint.Parse.State

/-! # Building inline nodes

    The pieces of a text become nodes, with leaves for the text between
    them.  All messages are about the line the text starts on. -/

namespace MarkupLint.Parse

/-- The text and the address of a phrase such as `text <address>`. -/
def embedded? (inner : List Char) : Option (List Char × List Char) :=
  match inner.reverse with
  | '>' :: rest =>
    let address := (rest.takeWhile fun c => c ≠ '<' && c ≠ '>').reverse
    match rest.drop address.length with
    | '<' :: before =>
      let text := Text.dropRightWhile Text.isPatternSpace before.reverse
      if address.isEmpty then none
      else if before.isEmpty || text.length < before.length then some (text, address)
      else none
    | _ => none
  | _ => none

/-- A text where inline markup is being built: its line and its site. -/
structure InlineSite where
  site : Site
  line : Nat

namespace InlineSite

/-- Gives new nodes the line of the text. -/
def place (x : InlineSite) (nodes : List NodeId) : Build Unit :=
  nodes.forM fun i => Build.update i fun n => if n.line = 0 then { n with line := x.line } else n

/-- A problematic node for some markup, and the message about it. -/
def problem (x : InlineSite) (level : Level) (message : String) (raw : List Char) :
    Build Inlined := do
  let msg ← x.site.raise level x.line message
  let node ← Build.textElement { kind := .problematic } (String.ofList raw)
  return ⟨[node], [msg], String.ofList raw⟩

/-- The name of a role; that of the default role if none is given. -/
def roleName (role : List Char) : Parse String := do
  let usual := (← get).doc.defaultRole
  return if !role.isEmpty then String.ofList role
    else if usual = "" then "title-reference"
    else usual

/-- Applies a role, or complains that there is none of that name. -/
def interpret (x : InlineSite) (role raw inner : List Char) : Parse Inlined := do
  let name ← roleName role
  match ← x.site.role? name with
  | none => do
    let note ← x.site.raise .info x.line (Site.lookupNote "role" name)
    let made ← x.problem .error ("Unknown interpreted text role \"" ++ name ++ "\".") raw
    return { made with messages := note :: made.messages }
  | some r =>
    r.apply
      { name := Text.lowerString name
        raw := String.ofList raw
        text := String.ofList (Inline.unescape inner)
        line := x.line }

/-- A reference in backquotes; one with an address also names a target. -/
def phrase (x : InlineSite) (inner : List Char) (mark : Inline.Mark) : Build Inlined := do
  let found := embedded? inner
  let address := (found.map (·.2)).getD []
  let isAlias := address.getLast? = some '_' && !Text.endsWith ['\\', '_'] address
  let aliased := if found.isSome && isAlias then
      normalizeName (String.ofList (Inline.unescape address.dropLast))
    else ""
  let uri := if found.isSome && !isAlias then
      String.ofList (Text.squeeze (Inline.unescape address))
    else ""
  let text := match found with
    | some (text, address) => if text.isEmpty then address else text
    | none => inner
  let text := String.ofList (Inline.unescape text)
  let blank : Node := { kind := .reference, line := x.line }
  let ref ← Build.textElement
    (if uri ≠ "" then { blank with refuri := uri }
      else if aliased ≠ "" then { blank with refname := aliased }
      else if mark = .anonymous then { blank with anonymous := true }
      else { blank with refname := normalizeName text }) text
  if uri = "" || mark = .anonymous then return ⟨[ref], [], text⟩
  let target ← Build.element
    { kind := .target, line := x.line, source := x.site.source, refuri := uri, referenced := true
      names := [normalizeName text] }
  return ⟨[ref, target], ← Build.noteTarget target true, text⟩

/-- The nodes of a piece and its messages. -/
def piece (x : InlineSite) (scan : Inline.Scan) (p : Inline.Piece) : Parse Inlined := do
  let raw := scan.slice p.start p.stop
  let one (n : Node) (text : List Char) : Build Inlined := do
    return ⟨[← Build.textElement n (String.ofList text)], [], String.ofList text⟩
  match p.form with
  | .uri => one { kind := .reference, refuri := String.ofList raw } raw
  | .literal text => one { kind := .literal } text
  | .emphasis text => one { kind := .emphasis } text
  | .strong text => one { kind := .strong } text
  | .problem level message => x.problem level message raw
  | .interpreted role inner => x.interpret role raw inner
  | .phrase inner mark => x.phrase inner mark
  | .reference name mark =>
    match mark with
    | .anonymous => one { kind := .reference, anonymous := true } name
    | .named => one { kind := .reference, refname := normalizeName (String.ofList name) } name
  | .substitution name mark => do
    let text := String.ofList name
    let sub ← Build.textElement
      { kind := .substitutionReference, refname := collapseName text } text
    match mark with
    | none => return ⟨[sub], [], text⟩
    | some .anonymous =>
      return ⟨[← Build.element { kind := .reference, anonymous := true } [sub]], [], text⟩
    | some .named =>
      let ref ← Build.element { kind := .reference, refname := normalizeName text } [sub]
      return ⟨[ref], [], text⟩
  | .target name => do
    let text := String.ofList name
    let t ← Build.textElement
      { kind := .target, source := x.site.source, names := [normalizeName text], line := x.line }
      text
    return ⟨[t], ← Build.noteTarget t true, text⟩

/-- A leaf for the text from one position to another, if there is any. -/
def gap (scan : Inline.Scan) (start stop : Nat) : Build Inlined := do
  if start < stop then
    let text := String.ofList (Inline.unescape (scan.slice start stop))
    return ⟨[← Build.leaf text], [], text⟩
  else return {}

/-- The nodes of the pieces from a position on, and their messages. -/
def assemble (x : InlineSite) (scan : Inline.Scan) (flushed : Nat) :
    List Inline.Piece → Parse Inlined
  | [] => gap scan flushed scan.chars.size
  | p :: rest => do
    let before ← gap scan flushed p.start
    let made ← x.piece scan p
    x.place made.nodes
    let after ← x.assemble scan p.stop rest
    return ⟨before.nodes ++ made.nodes ++ after.nodes, made.messages ++ after.messages,
      before.text ++ made.text ++ after.text⟩

end InlineSite

/-- Parses the inline markup of a text that starts on a line. -/
def inlineParse (site : Site) (text : List Char) (line : Nat) : Parse Inlined :=
  InlineSite.assemble ⟨site, line⟩ ⟨text.toArray⟩ 0 (Inline.pieces text)

end MarkupLint.Parse
