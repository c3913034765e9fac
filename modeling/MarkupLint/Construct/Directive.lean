import MarkupLint.Construct.Invocation
import MarkupLint.Construct.Namespace
import MarkupLint.Construct.Role

/-! # Directives

    The directives there are and what each of them accepts. -/

namespace MarkupLint

/-- The standard directives. -/
inductive StandardDirective where
  | admonition (type : String)
  | titledAdmonition
  | image
  | figure
  | code
  | math
  | parsedLiteral
  | topic
  | sidebar
  | rubric
  | quotation (style : String)
  | compound
  | container
  | contents
  | sectionNumbers
  | targetNotes
  | header
  | footer
  | includeFile
  | raw
  | replace
  | unicode
  | date
  | classes
  | defineRole
  | defaultRole
  | title
  | metadata
  | table
  | csvTable
  | listTable
  deriving DecidableEq, Repr

/-- One use of a directive, as the text has it. -/
structure DirectiveUse extends Invocation where
  /-- The directive's name in lower case. -/
  name : String
  line : Nat
  /-- The markup of the directive. -/
  markup : String
  /-- The substitution that the directive defines; empty if it defines none. -/
  substitution : String

/-- The text of the content. -/
def DirectiveUse.contentText (u : DirectiveUse) : String := String.ofList (Line.joinLines u.content)

/-- What a directive that an application adds answers when it is run. -/
inductive DirectiveAnswer where
  /-- Fails for a reason of its own, which ends parsing. -/
  | fail (reason : String)
  /-- Gives up in the middle. -/
  | abort (reason : String)
  /-- Complains about the markup. -/
  | complain (level : Level) (message : String)
  /-- Leaves a pending node for a pass. -/
  | pending (kind : String) (priority : Int) (options : List (String × Data.Value))
  /-- Requires content and reads it. -/
  | nested
  /-- Gives a container with some attributes. -/
  | container (attributes : List (String × String))

/-- What a directive that an application adds does: any function of its use. -/
structure Behaviour where
  answer : DirectiveUse → DirectiveAnswer

namespace Behaviour

/-- Always fails. -/
def fail (reason : String) : Behaviour := ⟨fun _ => .fail reason⟩

/-- Always gives up. -/
def abort (reason : String) : Behaviour := ⟨fun _ => .abort reason⟩

/-- Always complains. -/
def complain (level : Level) (message : String) : Behaviour := ⟨fun _ => .complain level message⟩

/-- Always leaves a pending node. -/
def pending (kind : String) (priority : Int) (options : List (String × Data.Value)) : Behaviour :=
  ⟨fun _ => .pending kind priority options⟩

/-- Always reads its content. -/
def nested : Behaviour := ⟨fun _ => .nested⟩

/-- Shows the use in the attributes of a container. -/
def echo : Behaviour := ⟨fun u =>
  .container <| [("name", u.name)]
    ++ u.arguments.zipIdx.map (fun (a, k) => ("arg" ++ Text.natText k, String.ofList a))
    ++ u.options.map (fun p => ("opt:" ++ p.1, p.2))
    ++ [("content", u.contentText), ("offset", Text.natText u.contentOffset), ("block", u.markup),
        ("substitution", u.substitution)]⟩

end Behaviour

/-- A directive that an application adds. -/
structure CustomDirective where
  /-- Tells the directive from others. -/
  label : String
  spec : DirectiveSpec
  behaviour : Behaviour

/-- A directive. -/
inductive Directive where
  | standard (d : StandardDirective)
  /-- Accepts anything and produces nothing; stands for an ignored name. -/
  | ignored
  | custom (d : CustomDirective)

instance : BEq Directive where
  beq
    | .standard a, .standard b => a == b
    | .ignored, .ignored => true
    | .custom a, .custom b => a.label == b.label
    | _, _ => false

namespace StandardDirective

/-- The options `class` and `name` and some more; later ones win. -/
def common (extra : Data.Table Converter) : Data.Table Converter :=
  extra.foldl (fun t p => t.set p.1 p.2) [("class", .classes), ("name", .unchanged)]

/-- Horizontal alignments. -/
def horizontal : List String := ["left", "center", "right"]

/-- Vertical alignments. -/
def vertical : List String := ["top", "middle", "bottom"]

/-- The options of images. -/
def imageOptions : Data.Table Converter :=
  common [("alt", .unchanged), ("height", .length), ("width", .lengthOrPercentage),
    ("scale", .percentage), ("align", .choice (vertical ++ horizontal)),
    ("target", .unchangedRequired), ("loading", .choice ["embed", "link", "lazy"])]

/-- The options of tables and some more. -/
def tableOptions (extra : Data.Table Converter) : Data.Table Converter :=
  common ([("align", .choice horizontal), ("widths", .unchanged), ("width", .lengthOrPercentage)]
    ++ extra)

/-- What a standard directive accepts. -/
def spec : StandardDirective → DirectiveSpec
  | .admonition _ | .math | .parsedLiteral | .compound =>
    { options := some (common []), hasContent := true }
  | .titledAdmonition =>
    { required := 1, finalWhitespace := true, options := some (common []), hasContent := true }
  | .image => { required := 1, finalWhitespace := true, options := some imageOptions }
  | .figure =>
    { required := 1, finalWhitespace := true
      options := some (common (imageOptions ++ [("figwidth", .unchanged), ("figclass", .classes),
        ("align", .choice horizontal)]))
      hasContent := true }
  | .code => { optional := 1, options := some (common [("number-lines", .unchanged)])
               hasContent := true }
  | .topic =>
    { required := 1, finalWhitespace := true, options := some (common []), hasContent := true }
  | .sidebar =>
    { optional := 1, finalWhitespace := true
      options := some (common [("subtitle", .unchangedRequired)]), hasContent := true }
  | .rubric => { required := 1, finalWhitespace := true, options := some (common []) }
  | .quotation _ | .header | .footer | .replace | .defineRole | .metadata => { hasContent := true }
  | .container =>
    { optional := 1, finalWhitespace := true, options := some [("name", .unchanged)]
      hasContent := true }
  | .contents =>
    { optional := 1, finalWhitespace := true
      options := some [("depth", .nonNegativeInt), ("local", .flag),
        ("backlinks", .choice ["entry", "top", "none"]), ("class", .classes)] }
  | .sectionNumbers =>
    { options := some [("depth", .integer), ("start", .integer),
        ("prefix", .unchangedRequired), ("suffix", .unchangedRequired)] }
  | .targetNotes => { options := some (common []) }
  | .includeFile =>
    { required := 1, finalWhitespace := true
      options := some (common [("literal", .flag), ("code", .unchanged),
        ("encoding", .unchangedRequired), ("tab-width", .integer), ("start-line", .integer),
        ("end-line", .integer), ("start-after", .unchangedRequired),
        ("end-before", .unchangedRequired), ("number-lines", .unchanged)]) }
  | .raw =>
    { required := 1, finalWhitespace := true
      options := some [("file", .uri), ("url", .uri), ("encoding", .unchangedRequired),
        ("class", .classes)]
      hasContent := true }
  | .unicode =>
    { required := 1, finalWhitespace := true
      options := some [("trim", .flag), ("ltrim", .flag), ("rtrim", .flag)] }
  | .date => { optional := 1, finalWhitespace := true }
  | .classes => { required := 1, finalWhitespace := true, hasContent := true }
  | .defaultRole => { optional := 1 }
  | .title => { required := 1, finalWhitespace := true }
  | .table =>
    { optional := 1, finalWhitespace := true, options := some (tableOptions []), hasContent := true }
  | .csvTable =>
    { optional := 1, finalWhitespace := true
      options := some (tableOptions [("header-rows", .nonNegativeInt),
        ("stub-columns", .nonNegativeInt), ("header", .unchanged), ("file", .uri), ("url", .uri),
        ("encoding", .unchangedRequired), ("delim", .singleChar), ("keepspace", .flag),
        ("quote", .singleChar), ("escape", .singleChar)])
      hasContent := true }
  | .listTable =>
    { optional := 1, finalWhitespace := true
      options := some (tableOptions [("header-rows", .nonNegativeInt),
        ("stub-columns", .nonNegativeInt)])
      hasContent := true }

/-- The admonitions that are named for their type. -/
def admonitionTypes : List String :=
  ["attention", "caution", "danger", "error", "hint", "important", "note", "tip", "warning"]

/-- The standard directives under all their names. -/
def catalog : Data.Table StandardDirective :=
  [("admonition", .titledAdmonition), ("image", .image), ("figure", .figure), ("code", .code),
   ("code-block", .code), ("sourcecode", .code), ("math", .math),
   ("parsed-literal", .parsedLiteral), ("topic", .topic), ("sidebar", .sidebar),
   ("rubric", .rubric), ("epigraph", .quotation "epigraph"),
   ("highlights", .quotation "highlights"), ("pull-quote", .quotation "pull-quote"),
   ("compound", .compound), ("container", .container), ("contents", .contents),
   ("sectnum", .sectionNumbers), ("section-numbering", .sectionNumbers),
   ("target-notes", .targetNotes), ("header", .header), ("footer", .footer),
   ("include", .includeFile), ("raw", .raw), ("replace", .replace), ("unicode", .unicode),
   ("date", .date), ("class", .classes), ("role", .defineRole), ("default-role", .defaultRole),
   ("title", .title), ("meta", .metadata), ("table", .table), ("csv-table", .csvTable),
   ("list-table", .listTable)]
  ++ admonitionTypes.map fun t => (t, .admonition t)

end StandardDirective

/-- What a directive accepts. -/
def Directive.spec : Directive → DirectiveSpec
  | .standard d => d.spec
  | .ignored => { hasContent := true }
  | .custom d => d.spec

/-- The names that a document can use. -/
abbrev Constructs := Namespace Directive Role

/-- The standard directives and roles. -/
def Constructs.standard : Constructs where
  directives := StandardDirective.catalog.map fun p => (p.1, .standard p.2)
  roles := Role.standard

/-- Ignored directives and roles, as bindings. -/
def Constructs.ignoring (directives roles : List String) :
    List (String × Directive) × List (String × Role) :=
  (directives.map fun n => (n, .ignored), roles.map fun n => (n, .ignored))

end MarkupLint
