import MarkupLint.Directive.Image

/-! # Text from files

    Directives that read files: `include` and `raw`. -/

namespace MarkupLint

/-- Why the text of a file cannot be had. -/
inductive SourceError where
  | file (e : FileError)
  | text (e : Text.DecodeError)

namespace SourceError

/-- The text of the error, for a path. -/
def message (path : String) : SourceError → String
  | .file e => e.message path
  | .text e => "read " ++ path ++ ": " ++ e.message

/-- Whether there is no such file. -/
def isMissing : SourceError → Bool
  | .file .notFound | .file .outside => true
  | _ => false

/-- Whether the operating system does not let the file be read. -/
def isDenied : SourceError → Bool
  | .file .denied => true
  | _ => false

/-- The complaint about a file that does not exist. -/
def missing (path : String) : String :=
  "InputError: [Errno 2] No such file or directory: '" ++ path ++ "'"

/-- The error as directives report it. -/
def inputError (path : String) (e : SourceError) : String :=
  if e.isMissing then missing path else "InputError: " ++ e.message path

end SourceError

/-- The text of a file in an encoding. -/
def FileTree.readText (files : FileTree) (decoders : Text.Decoders) (path encoding : String) :
    Except SourceError (List Char) :=
  match files.read path with
  | .error e => .error (.file e)
  | .ok bytes =>
    match decoders.decode bytes encoding with
    | .ok text => .ok text
    | .error e => .error (.text e)

/-- The text of a file that a text sees. -/
def Surroundings.readText (env : Surroundings) (path encoding : String) :
    Except SourceError (List Char) :=
  env.files.readText env.conventions.decoders path encoding

namespace Call

/-- The path that an argument means in the file the directive stands in. -/
def resolvePath (c : Call) (argument : String) : String :=
  let path := squeezed argument
  let source := c.site.source
  if Path.isAbs path || source = "" || source = "<string>" then path
  else Path.join (Path.dir source) path

/-- Reads a file that the document then depends on. -/
def readFile (c : Call) (path : String) : Parse (Except SourceError (List Char)) := do
  Parse.modifyDocument (·.addDependency path)
  return c.site.env.readText path (c.option "encoding")

/-- The complaint about a path that cannot be read. -/
def pathProblem (c : Call) (reason : String) : Complaint where
  level := .severe
  text := "Problems with " ++ c.shownName ++ " directive path:\n" ++ reason ++ "."

/-- A line number within a text of `count` lines; a negative one counts
    from the end. -/
def clampLine (count : Nat) (value : String) : Nat :=
  let i := (Text.int? value.toList).getD 0
  min (if i < 0 then i + count else i).toNat count

/-- The lines of a text that the options select. -/
def selectLines (c : Call) (text : List Char) : List Char :=
  let lines := Text.splitOn '\n' text
  let start := match c.option? "start-line" with
    | some v => clampLine lines.length v
    | none => 0
  let stop := match c.option? "end-line" with
    | some v => clampLine lines.length v
    | none => lines.length
  Line.joinLines ((lines.take stop).drop start)

/-- The complaint about a marker that is not in the text. -/
def markerProblem (c : Call) (option : String) : Complaint where
  level := .severe
  text := "Problem with \"" ++ option ++ "\" option of " ++ c.shownName
    ++ " directive:\nText not found."

/-- A side of the first place where the marker that an option gives stands
    in a text; the whole text if no marker is given. -/
def besideMarker (c : Call) (option : String) (side : List Char × List Char → List Char)
    (text : List Char) : Except Complaint (List Char) :=
  match c.option? option with
  | none => .ok text
  | some marker =>
    match Text.cut? marker.toList text with
    | some parts => .ok (side parts)
    | none => .error (c.markerProblem option)

/-- The text between the markers that the options give. -/
def selectMarked (c : Call) (text : List Char) : Except Complaint (List Char) := do
  let text ← c.besideMarker "start-after" (·.2) text
  c.besideMarker "end-before" (·.1) text

/-- What a text is when its tabs are expanded; a width that is not positive
    is a fault of the document if the text has a tab. -/
def expanded {α : Type} (x : Option α) : Run α :=
  match x with
  | some a => pure a
  | none => (throw Stop.fault : Parse α)

/-- The complaint about a file that is being included already. -/
def cycleProblem (c : Call) (path document : String) : Complaint where
  level := .warning
  text := "circular inclusion in " ++ c.shownName ++ " directive: "
    ++ " < ".intercalate (path :: c.site.includes ++ [document])

/-- The path of the file to be included: not one in angle brackets, nor one
    that is being read already. -/
def includePath (c : Call) (document : String) : Except Complaint String :=
  let argument := c.argument.toList
  let path := c.resolvePath c.argument
  if argument.head? = some '<' && argument.getLast? = some '>' then
    .error (c.pathProblem (SourceError.missing (String.ofList (argument.drop 1).dropLast)))
  else if path = document || c.site.includes.contains path then
    .error (c.cycleProblem path document)
  else .ok path

/-- The part of an included text that the options select. -/
def includedText (c : Call) (path : String) :
    Except SourceError (List Char) → Except Complaint (List Char)
  | .ok text => c.selectMarked (c.selectLines text)
  | .error e =>
    if e.isMissing || e.isDenied then .error (c.pathProblem (e.inputError path))
    else .error { level := .severe, text := "Problem with " ++ c.shownName ++ " directive:\n"
      ++ e.message path }

/-- The tab width of an included text. -/
def tabWidth (c : Call) (usual : Int) : Int :=
  match c.option? "tab-width" with
  | some v => (Text.int? v.toList).getD 0
  | none => usual

/-- Whether a file is included as literal text. -/
def isVerbatim (c : Call) : Bool := c.has "literal" || c.has "code"

/-- An included text as it stands. -/
def verbatim (c : Call) (path : String) (text : List Char) : Parse (List NodeId) := do
  let (n, complaints) ← c.element { kind := .literalBlock } [← Build.leaf (String.ofList text)]
  Build.update n ({ · with source := path })
  if let some language := c.option? "code" then
    Build.setAttr n "classes" (classesAfter "code" language)
    Build.setAttr n "language" language
  return n :: complaints

/-- The site of an included body. -/
def includedSite (c : Call) (path : String) (parent : NodeId) : Site :=
  { c.site with source := path, includes := path :: c.site.includes, parent := parent }

/-- Reads a file at the place of the directive, as markup or as literal
    text. -/
def includeFile (c : Call) (read : ReadBody) : Run (List NodeId) := do
  let d ← (Parse.document : Parse Document)
  let path ← (c.includePath d.source : Except Complaint String)
  let text ← (c.includedText path (← c.readFile path) : Except Complaint (List Char))
  if c.isVerbatim then
    let shown ← expanded (expandTabs? (c.tabWidth d.tabWidth) text)
    c.verbatim path shown
  else
    let lines ← expanded (splitLines? (c.tabWidth d.tabWidth) text)
    let parent ← c.site.container
    read.file (c.includedSite path parent) ⟨0, lines⟩
    return []

/-- The complaint about content beside a file. -/
def bothProblem (c : Call) : Complaint where
  text := c.shownName ++ " directive may not both specify an external file and have content."

/-- The complaint about a file beside an address. -/
def twoSourcesProblem (c : Call) : Complaint where
  text := "The \"file\" and \"url\" options may not be simultaneously specified for the "
    ++ c.shownName ++ " directive."

/-- The text of the file that an option names; there may be no address
    besides. -/
def fileText (c : Call) : Run (List Char) := do
  if c.has "url" then throw c.twoSourcesProblem
  let path := c.resolvePath (c.option "file")
  match ← c.readFile path with
  | .ok text => return text
  | .error e => throw (c.pathProblem (e.inputError path))

/-- The text for an output format. -/
def rawText (c : Call) : Run String := do
  if !c.content.isEmpty then
    if c.has "file" || c.has "url" then throw c.bothProblem
    return c.contentText
  if c.has "file" then return String.ofList (← c.fileText)
  if c.has "url" then return ""
  c.requireContent
  return ""

/-- Text for one output format, from the content or a file; what is at an
    address is not fetched. -/
def raw (c : Call) : Run (List NodeId) := do
  let text ← c.rawText
  let (n, _) ← c.element { kind := .raw } [← Build.leaf text]
  Build.setAttr n "format" (String.ofList (Text.collapse (Text.lower c.argument.toList)))
  if let some url := c.option? "url" then Build.setAttr n "source" url
  return [n]

end Call

end MarkupLint
