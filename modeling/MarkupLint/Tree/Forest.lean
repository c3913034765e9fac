import MarkupLint.Tree.Node

/-! # Forests

    The nodes of a document and the trees they form.  Editing a tree is
    detaching nodes from where they are and putting them under another
    parent; a node that is put somewhere keeps its own children.

    The walks down and up a tree take as many steps as there are nodes:
    no path in a well-formed forest is longer. -/

namespace MarkupLint

/-- Nodes by their places; a place that holds none reads as an empty node. -/
structure Forest where
  nodes : Array Node := #[]
  deriving Inhabited, Repr

namespace Forest

/-- The number of nodes. -/
def size (f : Forest) : Nat := f.nodes.size

/-- The node at a place. -/
def get (f : Forest) (i : NodeId) : Node := (f.nodes[i]?).getD default

/-- Changes the node at a place. -/
def modify (f : Forest) (i : NodeId) (g : Node → Node) : Forest :=
  { f with nodes := f.nodes.modify i g }

/-- The children of a node. -/
def children (f : Forest) (i : NodeId) : List NodeId := (f.get i).children

/-- The parent of a node. -/
def parent? (f : Forest) (i : NodeId) : Option NodeId := (f.get i).parent

/-- A new node without parent and children, and its place. -/
def alloc (f : Forest) (n : Node) : NodeId × Forest :=
  (f.nodes.size, { f with nodes := f.nodes.push { n with children := [], parent := none } })

/-! ## Editing -/

/-- Takes a node out of its parent. -/
def detach (f : Forest) (i : NodeId) : Forest :=
  match f.parent? i with
  | none => f
  | some p =>
    (f.modify p fun n => { n with children := n.children.erase i }).modify i
      fun n => { n with parent := none }

/-- Takes a node out of its parent and names `p` its parent. -/
def adopt (f : Forest) (p i : NodeId) : Forest :=
  (f.detach i).modify i fun n => { n with parent := some p }

/-- Puts a node after the children of `p`. -/
def hang (f : Forest) (p i : NodeId) : Forest :=
  (f.adopt p i).modify p fun n => { n with children := n.children ++ [i] }

/-- Puts nodes after the children of `p`, one after the other. -/
def append (f : Forest) (p : NodeId) (ns : List NodeId) : Forest :=
  ns.foldl (fun f i => f.hang p i) f

/-- Puts nodes before a position among the children of `p`; a position
    beyond the children means their end. -/
def insert (f : Forest) (p : NodeId) (position : Int) (ns : List NodeId) : Forest :=
  let position := min position.toNat (f.children p).length
  let f := ns.foldl (fun f i => f.adopt p i) f
  f.modify p fun n =>
    { n with children := n.children.take position ++ ns ++ n.children.drop position }

/-- The position of a node among the children of its parent. -/
def index? (f : Forest) (i : NodeId) : Option Nat :=
  match f.parent? i with
  | none => none
  | some p => (f.children p).idxOf? i

/-- Puts nodes in the place of a node; one without parent stays as it is. -/
def replaceWith (f : Forest) (i : NodeId) (ns : List NodeId) : Forest :=
  match f.parent? i with
  | none => f
  | some p =>
    let position : Int := match f.index? i with
      | some k => k
      | none => -1
    (f.detach i).insert p position ns

/-! ## Nodes that a call is given

    A call moves the nodes that it is given while it reads them one after the
    other.  They are a list of the caller's own, or some of the children of a
    node, read where these are stored: then moving one of them shifts those
    behind it, and the call goes on at the next position all the same. -/

/-- The nodes that a call is given. -/
inductive Given where
  /-- A list of the caller's own. -/
  | own (nodes : List NodeId)
  /-- So many of the children of a node, from a position on. -/
  | stretch (owner : NodeId) (start count : Nat)
  deriving Repr

/-- What is stored for the children of a node once these have changed: behind
    them stands what was left over there. -/
def stored (f : Forest) (owner : NodeId) (cells : List NodeId) : List NodeId :=
  f.children owner ++ cells.drop (f.children owner).length

/-- The nodes read from storage, from position `k` on, where `move` is done
    with each of them before the next is read. -/
def readStored (move : Forest → NodeId → Forest) (owner : NodeId) :
    Nat → Nat → Forest → List NodeId → List NodeId
  | 0, _, _, _ => []
  | count + 1, k, f, cells =>
    match cells[k]? with
    | none => []
    | some i =>
      let g := move f i
      i :: readStored move owner count (k + 1) g (g.stored owner cells)

/-- The nodes that a call takes which is made in `f`, goes on from `g` and
    does `move` with each node. -/
def Given.taken (f g : Forest) (move : Forest → NodeId → Forest) : Given → List NodeId
  | .own nodes => nodes
  | .stretch owner start count =>
    readStored move owner count start g (g.stored owner (f.children owner))

/-- The nodes that are put after the children of `p`. -/
def Given.hung (given : Given) (f : Forest) (p : NodeId) : List NodeId :=
  given.taken f f fun f i => f.hang p i

/-- The nodes that are put among the children of `p`. -/
def Given.adopted (given : Given) (f : Forest) (p : NodeId) : List NodeId :=
  given.taken f f fun f i => f.adopt p i

/-- The nodes that are put in the place of a node under `p`, which is taken out
    first. -/
def Given.substituted (given : Given) (f : Forest) (p i : NodeId) : List NodeId :=
  given.taken f (f.detach i) fun f j => f.adopt p j

/-- Puts the nodes given after the children of `p`. -/
def appendGiven (f : Forest) (p : NodeId) (given : Given) : Forest :=
  f.append p (given.hung f p)

/-- Puts the nodes given before a position among the children of `p`. -/
def insertGiven (f : Forest) (p : NodeId) (position : Int) (given : Given) : Forest :=
  f.insert p position (given.adopted f p)

/-- Puts the nodes given in the place of a node; one without parent stays as
    it is. -/
def replaceWithGiven (f : Forest) (i : NodeId) (given : Given) : Forest :=
  match f.parent? i with
  | none => f
  | some p => f.replaceWith i (given.substituted f p i)

/-! ## Neighbours -/

/-- The node after `i` among the children of its parent. -/
def next? (f : Forest) (i : NodeId) : Option NodeId :=
  match f.parent? i, f.index? i with
  | some p, some k => (f.children p)[k + 1]?
  | _, _ => none

/-! ## Walks -/

/-- The plain text of a node: what its leaves hold, joined as their parents'
    kinds say. -/
def textWithin (f : Forest) : Nat → NodeId → String
  | 0, _ => ""
  | depth + 1, i =>
    let n := f.get i
    if n.kind = .text then n.value
    else
      (if n.kind.isTextual then "" else "\n\n").intercalate
        (n.children.map (textWithin f depth))

/-- The plain text of a node and everything below it. -/
def asText (f : Forest) (i : NodeId) : String := f.textWithin (f.size + 1) i

/-- The nodes from `i` down in document order, going below a node only if
    `enter` says so. -/
def walkWithin (f : Forest) (enter : Node → Bool) : Nat → NodeId → List NodeId
  | 0, _ => []
  | depth + 1, i =>
    let n := f.get i
    if enter n then i :: n.children.flatMap (walkWithin f enter depth) else [i]

/-- The nodes from `i` down in document order; nothing is visited below a
    node that `enter` refuses. -/
def walk (f : Forest) (enter : Node → Bool) (i : NodeId) : List NodeId :=
  f.walkWithin enter (f.size + 1) i

/-- Every node of a kind from `i` down, in document order. -/
def findAll (f : Forest) (k : Kind) (i : NodeId) : List NodeId :=
  (f.walk (fun _ => true) i).filter fun j => (f.get j).kind = k

/-- The nodes of a kind from `i` down that stand outside substitution
    definitions. -/
def findOutsideDefinitions (f : Forest) (k : Kind) (i : NodeId) : List NodeId :=
  (f.walk (fun n => n.kind ≠ .substitutionDefinition) i).filter fun j => (f.get j).kind = k

/-- A node with its ancestors, nearest first. -/
def lineage (f : Forest) (i : NodeId) : List NodeId :=
  go (f.size + 1) i
where
  /-- At most `steps` nodes upward. -/
  go : Nat → NodeId → List NodeId
    | 0, _ => []
    | steps + 1, i => i :: match f.parent? i with
      | none => []
      | some p => go steps p

/-- The first source and the first line known going up the tree. -/
def position (f : Forest) (i : NodeId) : String × Int :=
  let line := f.lineage i
  let source := (line.map fun j => (f.get j).source).find? (· ≠ "")
  let number := (line.map fun j => (f.get j).line).find? (0 < ·)
  (source.getD "", number.getD 0)

/-! ## Copies -/

/-- Copies a node and everything below it to new places. -/
def copyWithin : Nat → Forest → NodeId → NodeId × Forest
  | 0, f, i => f.alloc (f.get i)
  | depth + 1, f, i =>
    let n := f.get i
    let (copy, f) := f.alloc n
    let (kids, f) := n.children.foldl
      (fun (acc : List NodeId × Forest) c =>
        let (kid, g) := copyWithin depth acc.2 c
        (acc.1 ++ [kid], g.modify kid fun m => { m with parent := some copy }))
      ([], f)
    (copy, f.modify copy fun m => { m with children := kids })

/-- A detached copy of a node and everything below it. -/
def deepCopy (f : Forest) (i : NodeId) : NodeId × Forest := copyWithin (f.size + 1) f i

end Forest

/-- A tree as a value, without the identities of its nodes. -/
inductive Tree where
  | node (label : Node) (children : List Tree)
  deriving Inhabited, Repr

namespace Forest

/-- The tree below a node as a value. -/
def treeWithin (f : Forest) : Nat → NodeId → Tree
  | 0, i => .node (f.get i) []
  | depth + 1, i => .node (f.get i) ((f.children i).map (treeWithin f depth))

/-- The tree below a node as a value. -/
def tree (f : Forest) (i : NodeId) : Tree := f.treeWithin (f.size + 1) i

end Forest

end MarkupLint
