import MarkupLint.Data.Table
import MarkupLint.Text.Blank
import MarkupLint.Text.Case
import MarkupLint.Text.Quoted

/-! # Namespaces

    A namespace binds names, in any letter case, to directives and to roles.
    A scope installs bindings for a while and remembers what each name was
    bound to before, so that closing it restores the namespace. -/

namespace MarkupLint

/-- The form of a name under which a construct is bound. -/
def bindingName (name : String) : String :=
  String.ofList (Text.lower (Text.trim name.toList))

/-- Bindings of names to directives `δ` and roles `ρ`. -/
structure Namespace (δ ρ : Type) where
  directives : Data.Table δ := []
  roles : Data.Table ρ := []
  deriving Inhabited

/-- What names were bound to before a scope installed its own bindings, in
    the order in which the names were first asked for. -/
abbrev Displaced (α : Type) := Data.Table (Option α)

/-- An open scope: the names it installed with their earlier bindings. -/
structure Registration (δ ρ : Type) where
  directives : Displaced δ := []
  roles : Displaced ρ := []
  /-- Whether the scope was closed. -/
  released : Bool := false

namespace Data.Table

variable {α : Type}

/-- Installs a binding and notes what it displaces; an empty name is passed
    over and a name that was noted is not noted again. -/
def installOne (acc : Table α × Displaced α) (b : String × α) : Table α × Displaced α :=
  let name := bindingName b.1
  if name = "" then acc
  else
    (acc.1.set name b.2,
      if acc.2.has name then acc.2 else acc.2 ++ [(name, acc.1.get? name)])

/-- Installs bindings and notes what they displace. -/
def install (t : Table α) (bindings : List (String × α)) : Table α × Displaced α :=
  bindings.foldl installOne (t, [])

/-- Puts back what was displaced from one name. -/
def restoreOne (t : Table α) (p : String × Option α) : Table α :=
  match p.2 with
  | some v => t.set p.1 v
  | none => t.erase p.1

/-- Puts back what was displaced. -/
def restore (t : Table α) (displaced : Displaced α) : Table α := displaced.foldl restoreOne t

/-- Whether two tables give every name the same value. -/
def agree [BEq α] (a b : Table α) : Bool :=
  (a.keys ++ b.keys).all fun k => a.get? k == b.get? k

end Data.Table

namespace Namespace

variable {δ ρ : Type}

/-- The directive of a name. -/
def directive? (ns : Namespace δ ρ) (name : String) : Option δ :=
  ns.directives.get? (bindingName name)

/-- The role of a name. -/
def role? (ns : Namespace δ ρ) (name : String) : Option ρ := ns.roles.get? (bindingName name)

/-- Binds a directive. -/
def registerDirective (ns : Namespace δ ρ) (name : String) (d : δ) : Namespace δ ρ :=
  { ns with directives := ns.directives.set (bindingName name) d }

/-- Binds a role. -/
def registerRole (ns : Namespace δ ρ) (name : String) (r : ρ) : Namespace δ ρ :=
  { ns with roles := ns.roles.set (bindingName name) r }

/-- Unbinds a directive. -/
def removeDirective (ns : Namespace δ ρ) (name : String) : Namespace δ ρ :=
  { ns with directives := ns.directives.erase (bindingName name) }

/-- Unbinds a role. -/
def removeRole (ns : Namespace δ ρ) (name : String) : Namespace δ ρ :=
  { ns with roles := ns.roles.erase (bindingName name) }

/-- The names of the directives in order. -/
def directiveNames (ns : Namespace δ ρ) : List String :=
  ns.directives.keys.mergeSort fun a b => a ≤ b

/-- The names of the roles in order. -/
def roleNames (ns : Namespace δ ρ) : List String := ns.roles.keys.mergeSort fun a b => a ≤ b

/-- Opens a scope with the given bindings. -/
def openScope (ns : Namespace δ ρ) (directives : List (String × δ)) (roles : List (String × ρ)) :
    Registration δ ρ × Namespace δ ρ :=
  let (ds, displacedDirectives) := ns.directives.install directives
  let (rs, displacedRoles) := ns.roles.install roles
  ({ directives := displacedDirectives, roles := displacedRoles },
    { directives := ds, roles := rs })

/-- Closes a scope; closing it again does nothing. -/
def closeScope (ns : Namespace δ ρ) (r : Registration δ ρ) : Registration δ ρ × Namespace δ ρ :=
  if r.released then (r, ns)
  else
    ({ r with released := true },
      { directives := ns.directives.restore r.directives, roles := ns.roles.restore r.roles })

/-- Runs `body` with bindings in place and restores the namespace after it,
    however it ends. -/
def withScope {α : Type} (ns : Namespace δ ρ) (directives : List (String × δ))
    (roles : List (String × ρ)) (body : Namespace δ ρ → α × Namespace δ ρ) : α × Namespace δ ρ :=
  let (r, inner) := ns.openScope directives roles
  let (result, after) := body inner
  (result, (after.closeScope r).2)

/-- Whether two namespaces bind the same names to the same constructs. -/
def agrees [BEq δ] [BEq ρ] (a b : Namespace δ ρ) : Bool :=
  a.directives.agree b.directives && a.roles.agree b.roles

/-- Why constructs cannot be put into use: one has no implementation. -/
inductive MissingConstruct where
  | directive (name : String)
  | role (name : String)
  deriving DecidableEq, Repr

/-- The text of the complaint. -/
def MissingConstruct.message : MissingConstruct → String
  | .directive name => "construct: directive " ++ Text.quoted name ++ " has no implementation"
  | .role name => "construct: role " ++ Text.quoted name ++ " has no implementation"

/-- The implementations of names, if each has one. -/
def implemented {α : Type} (missing : String → MissingConstruct) (given : List (String × Option α)) :
    Except MissingConstruct (List (String × α)) :=
  given.mapM fun (name, x) =>
    match x with
    | some x => .ok (name, x)
    | none => .error (missing name)

/-- Runs `body` with implementations in place, if every name has one. -/
def withConstructs {α : Type} (ns : Namespace δ ρ) (directives : List (String × Option δ))
    (roles : List (String × Option ρ)) (body : Namespace δ ρ → α × Namespace δ ρ) :
    Except MissingConstruct (α × Namespace δ ρ) := do
  let ds ← implemented .directive directives
  let rs ← implemented .role roles
  return ns.withScope ds rs body

end Namespace

end MarkupLint
