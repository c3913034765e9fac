import MarkupLint.Pass.Catalog

/-! # Passes on the structure

    The title of the document, the places of transitions, classes for the
    next element, and messages too slight to be kept. -/

namespace MarkupLint.Pass

/-! ## The title of the document -/

/-- The section that is last among some children and has nothing but
    preamble before it. -/
def loneSection? (f : Forest) : List NodeId → Option NodeId
  | [] => none
  | i :: rest =>
    let kind := (f.get i).kind
    if kind.isPreamble then loneSection? f rest
    else if kind = .division && rest.isEmpty then some i
    else none

/-- The lone section among the children of the root from a position on that
    has a title: the section, its title and its content. -/
def promoted? (f : Forest) (root : NodeId) (position : Nat) :
    Option (NodeId × NodeId × List NodeId) :=
  match loneSection? f ((f.children root).drop position) with
  | none => none
  | some lone =>
    match f.children lone with
    | [] => none
    | title :: content =>
      if (f.get title).kind = .title then some (lone, title, content) else none

/-- Gives the root the names of a section and the text of its title. -/
def nameRoot (root title : NodeId) (names : List String) : Build Unit := do
  let text ← Build.asText title
  Build.update root fun r => { r with names := r.names ++ names }.setAttr "title" text

/-- Moves the title of a lone section to a position among the children of
    the root and its content to their end; says whether there was one. -/
def promote (root : NodeId) (position : Nat) (kind : Kind) : Build Bool := do
  let f := (← get).forest
  match promoted? f root position with
  | none => return false
  | some (lone, title, content) => do
    Build.edit fun f =>
      (((f.detach lone).modify title ({ · with kind := kind })).insert root position
        [title]).append root content
    if kind = .title then nameRoot root title (f.get lone).names
    return true

/-- Makes the title of a lone section the title of the document, and that of
    a lone section in it the subtitle. -/
def promoteTitle (root : NodeId) : Build Unit := do
  if ((← Build.node root).attr? "title").isNone then
    if ← promote root 0 .title then
      let _ ← promote root 1 .subtitle

/-! ## Transitions -/

/-- The complaint about a transition after the siblings `before`. -/
def transitionProblem (f : Forest) (before : List NodeId) : Option String :=
  let kinds := before.map fun i => (f.get i).kind
  if kinds = [] || kinds = [.title] || kinds = [.title, .subtitle] then
    some "Document or section may not begin with a transition."
  else if kinds.getLast? = some .transition then
    some ("At least one body element must separate transitions; "
      ++ "adjacent transitions are not allowed.")
  else none

/-- The nearest ancestor-or-self, by at most `steps` steps, that is not the
    last child of its parent; none if every one up to the root is. -/
def notLast? (f : Forest) : Nat → NodeId → Option NodeId
  | 0, _ => none
  | steps + 1, i =>
    match f.parent? i with
    | none => none
    | some p =>
      if (f.children p).getLast? = some i then notLast? f steps p else some i

/-- Complains about a transition that begins a section or follows another
    one; `position` is its position among the children of its parent. -/
def checkTransition (n : Node) (parent : NodeId) (position : Nat) : Build Unit := do
  let f := (← get).forest
  match transitionProblem f ((f.children parent).take position) with
  | none => return
  | some text => do
    let msg ← Build.raise .error text { line := some n.line, source := n.source }
    Build.edit (·.insert parent position [msg])

/-- Moves a transition that ends a section to the place after that section;
    one that ends the document stays and is reported. -/
def moveTransition (i parent : NodeId) (line : Int) : Build Unit := do
  let f := (← get).forest
  if (f.children parent).getLast? ≠ some i then return
  match notLast? f (f.size + 1) i with
  | none => do
    let msg ← Build.raise .error "Document may not end with a transition." { line := some line }
    Build.edit fun f => f.insert parent ((f.index? i).getD 0 + 1) [msg]
  | some before =>
    match f.parent? before with
    | none => return
    | some p => Build.edit fun f => (f.detach i).insert p ((f.index? before).getD 0 + 1) [i]

/-- Checks the place of a transition and moves one that ends a section. -/
def placeTransition (i : NodeId) : Build Unit := do
  let f := (← get).forest
  let n := f.get i
  match n.parent with
  | none => return
  | some parent => do
    checkTransition n parent ((f.index? i).getD 0)
    moveTransition i parent n.line

/-- Checks the places of the transitions. -/
def placeTransitions (target : NodeId) : Build Unit := do
  ((← get).forest.findAll .transition target).forM placeTransition

/-! ## Messages -/

/-- Takes messages below the report level out of the tree. -/
def dropSlight (target : NodeId) : Build Unit := do
  let d ← get
  (d.forest.findAll .systemMessage target).forM fun i => do
    if (← Build.node i).level < d.reporter.reportLevel then Build.edit (·.detach i)

/-! ## Classes -/

/-- The text of an option; empty if it is not a text. -/
def textOption (options : List (String × Data.Value)) (key : String) : String :=
  match Data.Value.field? options key with
  | some (.text s) => s
  | _ => ""

/-- The first node after `i` that is no preamble, in its parent or after an
    ancestor of it. -/
def following? (f : Forest) (i : NodeId) : Option NodeId :=
  (f.lineage i).findSome? fun j =>
    match f.parent? j with
    | none => none
    | some p =>
      let position : Nat := match f.index? j with
        | some k => k + 1
        | none => 0
      ((f.children p).drop position).find? fun k => !(f.get k).kind.isPreamble

/-- Gives the classes of an option to the next element. -/
def addClasses (pending : NodeId) (options : List (String × Data.Value)) : Build Unit := do
  let classes := textOption options "class"
  match following? (← get).forest pending with
  | some i => do
    let old := ((← Build.node i).attr? "classes").getD ""
    Build.setAttr i "classes" (if old = "" then classes else old ++ " " ++ classes)
    Build.edit (·.detach pending)
  | none => do
    let n ← Build.node pending
    let msg ← Build.raise .error
      ("No suitable element following \"" ++ textOption options "directive" ++ "\" directive")
      { line := some n.line, source := n.source, literal := some (textOption options "rawsource") }
    Build.edit (·.replaceWith pending [msg])

end MarkupLint.Pass
