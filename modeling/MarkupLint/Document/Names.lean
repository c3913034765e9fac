import MarkupLint.Document.Message
import MarkupLint.Text.Blank
import MarkupLint.Text.Case

/-! # Names

    The names of targets and substitutions.  A target is explicit if the
    author named it and implicit if its name comes from a title; explicit
    targets win over implicit ones, and a name claimed twice on an equal
    footing is ambiguous. -/

namespace MarkupLint

/-- A name with its white space collapsed. -/
def collapseName (s : String) : String := String.ofList (Text.collapse s.toList)

/-- A name in the form in which references and targets are compared. -/
def normalizeName (s : String) : String := Text.lowerString (collapseName s)

/-- The complaint about a name that was taken already. -/
inductive Clash where
  | explicit (level : Severity)
  | implicit
  deriving DecidableEq, Repr

namespace Clash

/-- The level of the complaint. -/
def level : Clash → Severity
  | .explicit l => l
  | .implicit => .info

/-- The text of the complaint. -/
def message (name : String) : Clash → String
  | .explicit _ => "Duplicate explicit target name: \"" ++ name ++ "\"."
  | .implicit => "Duplicate implicit target name: \"" ++ name ++ "\"."

end Clash

namespace NameEntry

/-- What a taken name stands for after node `n` claims it too.  `sameUri`
    says whether both nodes lead to the same place. -/
def claim (old : NameEntry) (n : NodeId) (explicit sameUri : Bool) :
    NameEntry × Option Clash :=
  match explicit, old.explicit with
  | true, true =>
    if sameUri then (old, some (.explicit .info))
    else (⟨none, true⟩, some (.explicit .warning))
  | true, false => (⟨some n, true⟩, if old.node.isSome then some .implicit else none)
  | false, true => (old, some .implicit)
  | false, false => (⟨none, false⟩, some .implicit)

end NameEntry

namespace Document

/-- Whether two nodes lead to the same, non-empty place. -/
def sameUri (d : Document) (old : Option NodeId) (n : NodeId) : Bool :=
  match old with
  | some o => (d.node n).refuri ≠ "" && (d.node o).refuri == (d.node n).refuri
  | none => false

/-- What a normalized name stands for. -/
def lookup (d : Document) (name : String) : Option (Option NodeId) :=
  (d.names.get? name).map (·.node)

/-- The definition of a substitution, by its exact name first and in any
    letter case second. -/
def substitution? (d : Document) (name : String) : Option NodeId :=
  let name := collapseName name
  match d.substitutions.get? name with
  | some i => some i
  | none => (d.foldedSubstitutions.get? (normalizeName name)).bind d.substitutions.get?

end Document

namespace Build

/-- Claims one name for a node. -/
def noteName (n : NodeId) (explicit : Bool) (name : String) : Build (List NodeId) := do
  let d ← get
  let (entry, clash) : NameEntry × Option Clash := match d.names.get? name with
    | none => (⟨some n, explicit⟩, none)
    | some old => old.claim n explicit (d.sameUri old.node n)
  modify fun d => { d with names := d.names.set name entry }
  match clash with
  | some c => return [← raise c.level (c.message name) { base := some n }]
  | none => return []

/-- Claims the names of a node and gives the complaints raised. -/
def noteTarget (n : NodeId) (explicit : Bool) : Build (List NodeId) := do
  return (← (← node n).names.mapM (noteName n explicit)).flatten

/-- Defines a substitution; the last definition of a name counts. -/
def noteSubstitution (name : String) (definition : NodeId) : Build (List NodeId) := do
  let name := collapseName name
  let complaints ←
    if (← get).substitutions.has name then
      pure [← raise .error ("Duplicate substitution definition name: \"" ++ name ++ "\".")
        { base := some definition }]
    else pure []
  modify fun d =>
    { d with
      substitutions := d.substitutions.set name definition
      foldedSubstitutions := d.foldedSubstitutions.set (normalizeName name) name }
  return complaints

/-- A new pending node that a pass is asked to deal with. -/
def pending (n : Node) (kind : String) (priority : Int)
    (options : List (String × Data.Value)) : Build NodeId := do
  let p ← element ({ n with kind := .pending }.setAttr "transform" kind)
  modify (·.request { kind := kind, priority := priority, target := p, options := options })
  return p

end Build

end MarkupLint
