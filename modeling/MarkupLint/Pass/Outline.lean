import MarkupLint.Pass.Reference
import MarkupLint.Pass.Structure

/-! # Passes on the outline

    Tables of contents and numbers for sections. -/

namespace MarkupLint.Pass

/-- Why an option is no integer. -/
def optionProblem : Data.Value → String
  | .text s =>
    let shown := "strconv.Atoi: parsing " ++ Text.quoted s ++ ": "
    match Text.parseInt s.toList with
    | .error .outOfRange => shown ++ "value out of range"
    | _ => shown ++ "invalid syntax"
  | .null => "unexpected type <nil>"
  | .bool _ => "unexpected type bool"
  | .int _ => "unexpected type int"
  | .float _ => "unexpected type float64"
  | .list _ => "unexpected type []interface \x7b\x7d"
  | .table _ => "unexpected type map[string]interface \x7b\x7d"

/-- The integer that an option gives, as a number or as text. -/
def intOption (options : List (String × Data.Value)) (key : String) (usual : Int) : Build Int :=
  match Data.Value.field? options key with
  | none => pure usual
  | some (.int n) => pure n
  | some v =>
    let parsed := match v with
      | .text s => Text.int? s.toList
      | _ => none
    match parsed with
    | some n => pure n
    | none => throw (.failed ("option " ++ key ++ ": " ++ optionProblem v))

/-- A depth that no document reaches. -/
def anyDepth : Int := 1073741824

/-- The sections among the children of a node that are not empty. -/
def sectionsOf (i : NodeId) : Build (List NodeId) := do
  let f := (← get).forest
  return (f.children i).filter fun c => (f.get c).kind = .division && !(f.get c).children.isEmpty

/-! ## Contents -/

/-- A link to a section. -/
def contentsLink (i : NodeId) : Build NodeId := do
  let n ← Build.node i
  let text ← Build.asText (n.children.headD i)
  let blank : Node := { kind := .reference }
  match n.names with
  | [] => Build.textElement blank text
  | name :: _ => do
    Build.update i ({ · with referenced := true })
    Build.textElement (blank.setAttr "refid" (identifier name)) text

/-- A list of links to the sections below a node, `depth` levels deep; none
    if there is no section.  A tree is at most `steps` levels deep. -/
def contentsList : Nat → NodeId → Int → Build (Option NodeId)
  | 0, _, _ => return none
  | steps + 1, scope, depth => do
    if depth ≤ 0 then return none
    let items ← (← sectionsOf scope).mapM fun i => do
      let link ← contentsLink i
      let item ← Build.element { kind := .listItem } [← Build.element { kind := .paragraph } [link]]
      if let some sub ← contentsList steps i (depth - 1) then Build.append item [sub]
      return item
    if items.isEmpty then return none
    return some (← Build.element { kind := .bulletList } items)

/-- The node whose sections are listed: the nearest section around a topic
    if the list is local, the root otherwise. -/
def contentsScope (topic : NodeId) (isLocal : Bool) : Build NodeId := do
  let d ← get
  if !isLocal then return d.root
  let around := (d.forest.lineage topic).drop 1
  return (around.find? fun i => (d.forest.get i).kind = .division).getD d.root

/-- Puts a list of links in the place of a pending node, or removes its
    topic if there is nothing to list. -/
def fillContents (pending : NodeId) (options : List (String × Data.Value)) : Build Unit := do
  match (← Build.node pending).parent with
  | none => return
  | some topic => do
    let scope ← contentsScope topic (Data.Value.field? options "local").isSome
    let depth ← intOption options "depth" anyDepth
    match ← contentsList ((← get).forest.size + 1) scope depth with
    | none => Build.edit (·.detach topic)
    | some list => Build.edit (·.replaceWith pending [list])

/-! ## Section numbers -/

/-- How section numbers are written. -/
structure Numbering where
  before : String
  after : String

/-- Puts numbers before the titles of the sections below a node, `depth`
    levels deep, from `start` on.  A tree is at most `steps` levels deep. -/
def number (x : Numbering) : Nat → NodeId → List String → Int → Int → Build Unit
  | 0, _, _, _, _ => return
  | steps + 1, i, numbers, depth, start => do
    if depth ≤ 0 then return
    let _ ← (← sectionsOf i).foldlM (fun (n : Int) c => do
      let numbers := numbers ++ [Text.intText n]
      let label ← Build.textElement { kind := .generatedText }
        (x.before ++ ".".intercalate numbers ++ x.after ++ "\u00a0\u00a0\u00a0")
      let title := (← Build.node c).children.headD c
      Build.edit (·.insert title 0 [label])
      number x steps c numbers (depth - 1) 1
      return Text.wrapWord (n + 1)) start

/-- Numbers the sections of the document. -/
def numberSections (pending : NodeId) (options : List (String × Data.Value)) : Build Unit := do
  let depth ← intOption options "depth" anyDepth
  let start ← intOption options "start" 1
  Build.edit (·.detach pending)
  let d ← get
  number ⟨textOption options "prefix", textOption options "suffix"⟩ (d.forest.size + 1) d.root []
    depth start

/-- Applies a standard pass to a node. -/
def apply (pass : Pass) (target : NodeId) (options : List (String × Data.Value)) :
    Build Unit := do
  let root := (← get).root
  match pass with
  | .substitutions => substitute target
  | .documentTitle => promoteTitle target
  | .anonymousReferences => pairAnonymous target
  | .indirectReferences => resolveIndirect root target
  | .danglingReferences => reportDangling target
  | .sectionNumbers => numberSections target options
  | .contents => fillContents target options
  | .transitions => placeTransitions target
  | .classAttribute => addClasses target options
  | .filterMessages => dropSlight target

end MarkupLint.Pass
