import MarkupLint.Document.Names

/-! # Roles

    What interpreted text means.  A role makes nodes from the text it is
    applied to, or a problematic node and a message. -/

namespace MarkupLint

/-- One use of a role. -/
structure RoleCall where
  name : String
  /-- The markup from its start to its end. -/
  raw : String
  /-- The interpreted text. -/
  text : String
  line : Int

/-- What a role that an application adds answers when it is applied. -/
inductive RoleAnswer where
  /-- A problem. -/
  | problem
  /-- No nodes and no messages. -/
  | nothing
  /-- The text, with some attributes. -/
  | wrap (attributes : List (String × String))

/-- A role that an application adds: any function of its use. -/
structure CustomRole where
  /-- Tells the role from others. -/
  label : String
  answer : RoleCall → RoleAnswer

namespace CustomRole

/-- Always a problem. -/
def problem : CustomRole := ⟨"problem", fun _ => .problem⟩

/-- Never anything. -/
def nothing : CustomRole := ⟨"nothing", fun _ => .nothing⟩

/-- Shows the use in the attributes of the text. -/
def echo : CustomRole := ⟨"echo", fun c => .wrap [("name", c.name), ("raw", c.raw)]⟩

instance : BEq CustomRole := ⟨fun a b => a.label == b.label⟩

end CustomRole

/-- A role. -/
inductive Role where
  /-- Wraps the text in an element. -/
  | generic (kind : Kind)
  | code
  | pep
  | rfc
  /-- Passes text through for a format; without one it is an error. -/
  | raw (format : String)
  /-- A role with the given classes, defined in the document. -/
  | styled (base : Role) (classes : String)
  /-- Produces nothing; stands for an ignored name. -/
  | ignored
  | custom (role : CustomRole)
  deriving BEq

/-- What a role or a run of inline markup gives: nodes with their plain
    text, and messages that go elsewhere. -/
structure Inlined where
  nodes : List NodeId := []
  messages : List NodeId := []
  text : String := ""

namespace RoleCall

/-- A message, and a problematic node that holds the markup. -/
def problem (c : RoleCall) (message : String) : Build Inlined := do
  let msg ← Build.raise .error message { line := some c.line }
  let node ← Build.textElement { kind := .problematic } c.raw
  return ⟨[node], [msg], c.raw⟩

/-- An element that holds the interpreted text. -/
def wrap (c : RoleCall) (n : Node) : Build Inlined := do
  return ⟨[← Build.textElement { n with line := c.line } c.text], [], c.text⟩

/-- A number with at least four digits. -/
def fourDigits (n : Nat) : String :=
  let digits := Nat.toDigits 10 n
  String.ofList (List.replicate (4 - digits.length) '0' ++ digits)

/-- A reference to a numbered document. -/
def numbered (c : RoleCall) (shown uri : String) : Build Inlined := do
  let node ← Build.textElement { kind := .reference, line := c.line, refuri := uri } shown
  return ⟨[node], [], shown⟩

end RoleCall

/-- Gives what a role answered. -/
def RoleAnswer.give (c : RoleCall) : RoleAnswer → Build Inlined
  | .problem => c.problem "custom role problem"
  | .nothing => return {}
  | .wrap attributes => c.wrap ({ kind := .inline : Node }.setAttrs attributes)

namespace Role

/-- Applies a role. -/
def apply (c : RoleCall) : Role → Build Inlined
  | .generic kind => c.wrap { kind := kind }
  | .code => c.wrap ({ kind := .literal : Node }.setAttr "classes" "code")
  | .pep =>
    match Text.int? (Text.trim c.text.toList) with
    | some n =>
      if 0 ≤ n ∧ n ≤ 9999 then
        c.numbered ("PEP " ++ c.text)
          ("https://peps.python.org/pep-" ++ RoleCall.fourDigits n.toNat)
      else c.problem ("PEP number must be a number from 0 to 9999; \"" ++ c.text ++ "\" is invalid.")
    | none => c.problem ("PEP number must be a number from 0 to 9999; \"" ++ c.text ++ "\" is invalid.")
  | .rfc =>
    let number := c.text.toList.takeWhile (· ≠ '#')
    let anchor := String.ofList (c.text.toList.drop (number.length + 1))
    match Text.int? (Text.trim number) with
    | some n =>
      if 1 ≤ n then
        c.numbered ("RFC " ++ String.ofList number)
          ("https://tools.ietf.org/html/rfc" ++ Text.intText n ++ ".html"
            ++ if anchor = "" then "" else "#" ++ anchor)
      else c.problem ("RFC number must be a number greater than or equal to 1; \"" ++ c.text
        ++ "\" is invalid.")
    | none => c.problem ("RFC number must be a number greater than or equal to 1; \"" ++ c.text
        ++ "\" is invalid.")
  | .raw format =>
    if format = "" then
      c.problem ("No format (Writer name) is associated with this role: \"" ++ c.name ++ "\".\n"
        ++ "The \"raw\" role cannot be used directly.\n"
        ++ "Instead, use the \"role\" directive to create a new role with an associated format.")
    else c.wrap ({ kind := .raw : Node }.setAttr "format" format)
  | .styled base classes => do
    let made ← base.apply c
    made.nodes.forM fun i => do
      let kind := (← Build.node i).kind
      if kind ≠ .text && kind ≠ .problematic then Build.setAttr i "classes" classes
    return made
  | .ignored => return {}
  | .custom role => (role.answer c).give c

/-- The standard roles under all their names. -/
def standard : Data.Table Role :=
  [("emphasis", .generic .emphasis), ("strong", .generic .strong), ("literal", .generic .literal),
   ("code", .code), ("math", .generic .math), ("subscript", .generic .subscript),
   ("sub", .generic .subscript), ("superscript", .generic .superscript),
   ("sup", .generic .superscript), ("title-reference", .generic .titleReference),
   ("title", .generic .titleReference), ("t", .generic .titleReference),
   ("abbreviation", .generic .abbreviation), ("ab", .generic .abbreviation),
   ("acronym", .generic .acronym), ("ac", .generic .acronym), ("pep-reference", .pep),
   ("pep", .pep), ("rfc-reference", .rfc), ("rfc", .rfc), ("raw", .raw "")]

end Role

end MarkupLint
