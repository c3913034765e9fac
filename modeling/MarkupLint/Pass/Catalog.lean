import MarkupLint.Document.Names

/-! # The standard passes

    Passes change a parsed document as a whole.  Those of greater priority
    are applied first. -/

namespace MarkupLint

/-- A standard pass. -/
inductive Pass where
  | substitutions
  | documentTitle
  | anonymousReferences
  | indirectReferences
  | danglingReferences
  | sectionNumbers
  | contents
  | transitions
  | classAttribute
  | filterMessages
  deriving DecidableEq, Repr

namespace Pass

/-- The kind under which a pass is asked for. -/
def kind : Pass → String
  | .substitutions => "references.substitutions"
  | .documentTitle => "frontmatter.doctitle"
  | .anonymousReferences => "references.anonymous"
  | .indirectReferences => "references.indirect"
  | .danglingReferences => "references.dangling"
  | .sectionNumbers => "parts.sectnum"
  | .contents => "parts.contents"
  | .transitions => "misc.transitions"
  | .classAttribute => "misc.class-attribute"
  | .filterMessages => "universal.filter-messages"

/-- The usual priority of a pass. -/
def priority : Pass → Int
  | .classAttribute => 790
  | .substitutions => 780
  | .documentTitle => 680
  | .anonymousReferences => 560
  | .indirectReferences => 540
  | .sectionNumbers => 290
  | .contents => 280
  | .transitions => 170
  | .danglingReferences => 150
  | .filterMessages => 130

/-- Every standard pass. -/
def all : List Pass :=
  [.substitutions, .documentTitle, .anonymousReferences, .indirectReferences, .danglingReferences,
   .sectionNumbers, .contents, .transitions, .classAttribute, .filterMessages]

/-- The standard pass of a kind. -/
def ofKind? (kind : String) : Option Pass := all.find? (·.kind = kind)

theorem ofKind?_kind (p : Pass) : ofKind? p.kind = some p := by
  cases p <;> decide

/-- The passes that every parsed document goes through. -/
def reading : List Pass :=
  [.substitutions, .documentTitle, .anonymousReferences, .indirectReferences,
   .danglingReferences, .transitions]

/-- The passes before a document is given out. -/
def writing : List Pass := [.filterMessages]

end Pass

end MarkupLint
