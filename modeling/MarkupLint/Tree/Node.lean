import MarkupLint.Data.Table
import MarkupLint.Diagnostic.Level

/-! # Nodes

    A node of a document tree.  Nodes have an identity: tables of names and
    requests refer to a node wherever it is moved, so a node knows its
    parent and its children by their places in a `Forest`. -/

namespace MarkupLint

/-! ## Kinds

    What a node is.  The names are those of the elements in the tree that a
    reader of the tree sees. -/

/-- The kind of a node. -/
inductive Kind where
  | document | division | title | subtitle | paragraph | text | literalBlock | doctestBlock
  | blockQuote | bulletList | enumeratedList | listItem | definitionList | definitionListItem
  | term | definition | fieldList | field | fieldName | fieldBody | transition | target
  | reference | emphasis | strong | literal | inline | titleReference | subscript | superscript
  | abbreviation | acronym | math | mathBlock | substitutionDefinition | substitutionReference
  | comment | systemMessage | problematic | pending | admonition | topic | sidebar | rubric
  | container | compound | image | figure | caption | raw | table | row | entry | header
  | footer | metadata | generatedText | unknown
  deriving DecidableEq, Repr, Inhabited

namespace Kind

/-- Every kind with its name, in order; an unknown kind is not among them. -/
def catalog : List (Kind × String) := [
  (.document, "document"), (.division, "section"), (.title, "title"), (.subtitle, "subtitle"),
  (.paragraph, "paragraph"), (.text, "#text"), (.literalBlock, "literal_block"),
  (.doctestBlock, "doctest_block"), (.blockQuote, "block_quote"), (.bulletList, "bullet_list"),
  (.enumeratedList, "enumerated_list"), (.listItem, "list_item"),
  (.definitionList, "definition_list"), (.definitionListItem, "definition_list_item"),
  (.term, "term"), (.definition, "definition"), (.fieldList, "field_list"), (.field, "field"),
  (.fieldName, "field_name"), (.fieldBody, "field_body"), (.transition, "transition"),
  (.target, "target"), (.reference, "reference"), (.emphasis, "emphasis"), (.strong, "strong"),
  (.literal, "literal"), (.inline, "inline"), (.titleReference, "title_reference"),
  (.subscript, "subscript"), (.superscript, "superscript"), (.abbreviation, "abbreviation"),
  (.acronym, "acronym"), (.math, "math"), (.mathBlock, "math_block"),
  (.substitutionDefinition, "substitution_definition"),
  (.substitutionReference, "substitution_reference"), (.comment, "comment"),
  (.systemMessage, "system_message"), (.problematic, "problematic"), (.pending, "pending"),
  (.admonition, "admonition"), (.topic, "topic"), (.sidebar, "sidebar"), (.rubric, "rubric"),
  (.container, "container"), (.compound, "compound"), (.image, "image"), (.figure, "figure"),
  (.caption, "caption"), (.raw, "raw"), (.table, "table"), (.row, "row"), (.entry, "entry"),
  (.header, "header"), (.footer, "footer"), (.metadata, "meta"), (.generatedText, "generated")]

/-- The name of a kind. -/
def name (k : Kind) : String :=
  match catalog.find? (·.1 = k) with
  | some (_, name) => name
  | none => "unknown"

/-- The kind of a name, unknown if there is none. -/
def ofName (s : String) : Kind :=
  match catalog.find? (·.2 = s) with
  | some (k, _) => k
  | none => .unknown

/-- The kind at a place of the catalogue, unknown if there is none. -/
def ofIndex (i : Int) : Kind :=
  if i < 0 then .unknown
  else ((catalog.map (·.1))[i.toNat]?).getD .unknown

/-- Whether the texts of the children are joined without a separator; the
    children of the other kinds are divided by a blank line. -/
def isTextual : Kind → Bool
  | .title | .subtitle | .paragraph | .literalBlock | .doctestBlock | .term | .fieldName
  | .reference | .emphasis | .strong | .literal | .inline | .titleReference | .subscript
  | .superscript | .abbreviation | .acronym | .math | .mathBlock | .substitutionReference
  | .comment | .problematic | .rubric | .caption | .raw | .target | .generatedText
  | .substitutionDefinition => true
  | _ => false

/-- Whether a node of the kind may stand inside a line of text. -/
def isInline : Kind → Bool
  | .text | .emphasis | .strong | .literal | .inline | .reference | .titleReference | .subscript
  | .superscript | .abbreviation | .acronym | .math | .image | .problematic | .generatedText
  | .raw => true
  | _ => false

/-- Whether a node of the kind may stand before the title of a document. -/
def isPreamble : Kind → Bool
  | .comment | .systemMessage | .pending | .substitutionDefinition | .target | .metadata => true
  | _ => false

end Kind

/-! ## Nodes of a forest -/

/-- The place of a node in a forest. -/
abbrev NodeId := Nat

/-- A node: an element or, for the kind `text`, a leaf that holds text. -/
structure Node where
  kind : Kind
  /-- The text of a leaf, or the plain text of the name of a field. -/
  value : String := ""
  source : String := ""
  line : Int := 0
  names : List String := []
  refname : String := ""
  refuri : String := ""
  anonymous : Bool := false
  referenced : Bool := false
  /-- The level of a system message. -/
  level : Level := .debug
  /-- The name of the level of a system message. -/
  type : String := ""
  attrs : Data.Table String := []
  children : List NodeId := []
  parent : Option NodeId := none
  deriving Inhabited, DecidableEq, Repr

namespace Node

/-- The value of an attribute. -/
def attr? (n : Node) (key : String) : Option String := n.attrs.get? key

/-- Sets an attribute. -/
def setAttr (n : Node) (key value : String) : Node :=
  { n with attrs := n.attrs.set key value }

/-- Sets some attributes, one after the other. -/
def setAttrs (n : Node) (attributes : List (String × String)) : Node :=
  { n with attrs := attributes.foldl (fun t p => t.set p.1 p.2) n.attrs }

end Node

end MarkupLint
