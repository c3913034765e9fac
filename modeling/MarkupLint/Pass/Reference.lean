import MarkupLint.Pass.Catalog

/-! # Passes on references

    Substitutions are put in place of their references, anonymous
    references are paired with anonymous targets, targets that lead to
    other targets are followed, and what is left over is reported. -/

namespace MarkupLint.Pass

/-- Puts a problematic node that holds its text in the place of a node. -/
def markProblematic (i : NodeId) : Build Unit := do
  let n ← Build.node i
  let mark ← Build.textElement { kind := .problematic, line := n.line, source := n.source }
    (← Build.asText i)
  Build.edit (·.replaceWith i [mark])

/-- The references from a node down that stand outside substitution
    definitions. -/
def references (i : NodeId) : Build (List NodeId) := do
  return (← get).forest.findOutsideDefinitions .reference i

/-- The nodes of a kind from a node down. -/
def nodesOf (k : Kind) (i : NodeId) : Build (List NodeId) := do
  return (← get).forest.findAll k i

/-! ## Substitutions -/

/-- Raises an error about a reference and marks it. -/
def refuseReference (ref : NodeId) (text : String) : Build Unit := do
  let _ ← Build.raise .error text { base := some ref }
  markProblematic ref

/-- Copies the nodes below a node. -/
def copyChildren (i : NodeId) : Build (List NodeId) := do
  (← Build.node i).children.mapM fun c =>
    modifyGet fun d =>
      let (copy, forest) := d.forest.deepCopy c
      (copy, { d with forest := forest })

/-- Puts the definition of a substitution in the place of a reference, and
    so on for the references in the definition.  `chain` holds the names
    on the way here, of which there are no more than `depth` further. -/
def expand : Nat → NodeId → List String → Build Unit
  | 0, _, _ => throw .exhausted
  | depth + 1, ref, chain => do
    let n ← Build.node ref
    let name := n.refname
    match (← get).substitution? name with
    | none => refuseReference ref ("Undefined substitution referenced: \"" ++ name ++ "\".")
    | some definition =>
      if chain.contains name then
        refuseReference ref ("Circular substitution definition referenced: \"" ++ name ++ "\".")
      else
        let copies ← copyChildren definition
        Build.edit (·.replaceWith ref copies)
        copies.forM fun c => do
          (← nodesOf .substitutionReference c).forM fun nested => do
            Build.update nested fun m => if m.line = 0 then { m with line := n.line } else m
            expand depth nested (chain ++ [name])

/-- Expands every substitution reference outside definitions.  The names on
    a chain are different and each is the name of some reference. -/
def substitute (target : NodeId) : Build Unit := do
  let f := (← get).forest
  (f.findOutsideDefinitions .substitutionReference target).forM fun ref =>
    expand (f.size + 2) ref []

/-! ## Anonymous references -/

/-- Lets a reference lead where an anonymous target leads. -/
def pair (ref target : NodeId) : Build Unit := do
  let t ← Build.node target
  Build.update target ({ · with referenced := true })
  Build.update ref fun r =>
    let r := { r with anonymous := false }
    if t.refuri ≠ "" then { r with refuri := t.refuri }
    else if t.refname ≠ "" then { r with refname := t.refname }
    else r.setAttr "refid" "anonymous"

/-- Pairs anonymous references with anonymous targets in order. -/
def pairAnonymous (root : NodeId) : Build Unit := do
  let f := (← get).forest
  let refs := (← references root).filter fun i => (f.get i).anonymous
  let targets := (← nodesOf .target root).filter fun i => (f.get i).anonymous
  if refs.length ≠ targets.length then
    let _ ← Build.raise .error
      ("Anonymous hyperlink mismatch: " ++ Text.natText refs.length ++ " references but "
        ++ Text.natText targets.length ++ " targets.\nSee \"backrefs\" attribute for IDs.")
    refs.forM markProblematic
  else (refs.zip targets).forM fun (r, t) => pair r t

/-! ## Indirect targets -/

/-- The identifier that a name gives: letters and digits, with single
    hyphens between them. -/
def identifier (name : String) : String :=
  let plain (c : Char) : Bool := ('a' ≤ c && c ≤ 'z') || c.isDigit
  String.ofList (['-'].intercalate (Text.wordsBy (!plain ·) (Text.lower name.toList)))

/-- Targets dealt with, and how many identifiers were made up. -/
structure Resolved where
  targets : List NodeId := []
  madeUp : Nat := 0

/-- Reports a target that leads nowhere, and marks the references to it. -/
def refuseTarget (root target : NodeId) (why : String) (made : Resolved) : Build Resolved := do
  let t ← Build.node target
  let (naming, made) := match t.names with
    | name :: _ => ("\"" ++ name ++ "\" (id=\"" ++ identifier name ++ "\")", made)
    | [] =>
      ("(id=\"id" ++ Text.natText (made.madeUp + 1) ++ "\")",
        { made with madeUp := made.madeUp + 1 })
  let _ ← Build.raise .error
    ("Indirect hyperlink target " ++ naming ++ " refers to target \"" ++ t.refname ++ "\", "
      ++ why ++ ".") { base := some target }
  (← references root).forM fun r => do
    let n ← Build.node r
    if t.names.contains n.refname && n.refuri = "" then markProblematic r
  Build.update target ({ · with referenced := true })
  return made

/-- Whether a node is a target that leads to a name. -/
def isIndirect (n : Node) : Bool := n.kind = .target && n.refname ≠ "" && n.refuri = ""

/-- Lets a target lead where another one leads. -/
def link (target other : NodeId) : Build Unit := do
  Build.update other ({ · with referenced := true })
  let uri := (← Build.node other).refuri
  Build.update target fun t =>
    (if uri ≠ "" then { t with refuri := uri } else t).setAttr "refid" (identifier t.refname)

/-- Follows a target to where it leads.  `visiting` holds the targets on the
    way here, which are all different. -/
def follow (root : NodeId) : Nat → NodeId → List NodeId → Resolved → Build Resolved
  | 0, _, _, _ => throw .exhausted
  | depth + 1, target, visiting, made => do
    let finish (made : Resolved) : Resolved := { made with targets := target :: made.targets }
    if made.targets.contains target then return made
    if visiting.contains target then
      return finish (← refuseTarget root target "forming a circular reference" made)
    let t ← Build.node target
    match (← get).lookup t.refname with
    | none => return finish (← refuseTarget root target "which does not exist" made)
    | some none =>
      return finish (← refuseTarget root target
        "which is a duplicate, and cannot be used as a unique reference" made)
    | some (some other) => do
      let made ← if isIndirect (← Build.node other) then
          follow root depth other (visiting ++ [target]) made
        else pure made
      link target other
      return finish made

/-- Follows the targets that lead to other targets by name.  All but the
    first on the way to a target are nodes that a name stands for. -/
def resolveIndirect (root target : NodeId) : Build Unit := do
  let targets ← nodesOf .target target
  let depth := (← get).names.length + 2
  let _ ← targets.foldlM (fun made t => do
    if isIndirect (← Build.node t) then follow root depth t [] made else pure made) {}

/-! ## What is left over -/

/-- Checks that the name of a reference stands for one node. -/
def checkReference (ref : NodeId) : Build Unit := do
  let r ← Build.node ref
  if r.refname = "" || r.refuri ≠ "" then return
  match (← get).lookup r.refname with
  | none => refuseReference ref ("Unknown target name: \"" ++ r.refname ++ "\".")
  | some none =>
    refuseReference ref
      ("Duplicate target name, cannot be used as a unique reference: \"" ++ r.refname ++ "\".")
  | some (some n) => Build.update n ({ · with referenced := true })

/-- Notes a target that nothing refers to. -/
def checkTarget (target : NodeId) : Build Unit := do
  let t ← Build.node target
  if t.referenced || t.anonymous then return
  let naming := match t.names with
    | name :: _ => name
    | [] => (t.attr? "refid").getD ""
  let _ ← Build.raise .info ("Hyperlink target \"" ++ naming ++ "\" is not referenced.")
    { base := some target }

/-- Reports references to unknown or ambiguous names, then targets that
    nothing refers to. -/
def reportDangling (target : NodeId) : Build Unit := do
  (← references target).forM checkReference
  (← nodesOf .target target).forM checkTarget

end MarkupLint.Pass
