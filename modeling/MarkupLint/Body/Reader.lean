import MarkupLint.Body.Block
import MarkupLint.Body.Line
import MarkupLint.Body.Pattern

/-! # Reading bodies

    A body is read from its first line on.  Each construct takes the line it
    starts with and some of the lines after it, so reading ends with the
    lines; a list that reading gets stuck at is the last block, and takes
    them all.  A function that reads a construct is given the number of its
    first line, that line and the lines after it; it gives the blocks it
    found and how many of the lines after the first it took. -/

namespace MarkupLint.Reader

/-- The blocks of a construct and the lines it took after its first. -/
abbrev Reading := List Block × Nat

/-- What the reading of a construct depends on besides its lines. -/
structure Manner where
  /-- Whether sections may start in the body. -/
  titles : Bool
  /-- How many columns a text takes. -/
  width : List Char → Nat
  /-- The number of the first line of the body. -/
  first : Nat

/-- The complaint about a construct that an unindented line follows. -/
def unindentProblem (what : String) (line : Nat) : Problem :=
  ⟨.warning, line, what ++ " ends without a blank line; unexpected unindent.", none⟩

/-- That complaint as a block. -/
def unindent (what : String) (line : Nat) : Block := .problem (unindentProblem what line)

/-- That complaint, unless the construct ended well. -/
def unindentUnless (finished : Bool) (what : String) (line : Nat) : List Block :=
  if finished then [] else [unindent what line]

/-! ## Paragraphs and literal blocks -/

/-- What follows a paragraph that announces a literal block.  `n` is the
    number of the first of the lines `ls`. -/
def literalAfter (n : Nat) (ls : List Line) : List Block × Nat :=
  let blanks := (ls.takeWhile Text.isBlank).length
  let start := n + blanks
  let missing : List Block × Nat :=
    let line := if ls.isEmpty then n - 1 else n
    ([.problem ⟨.warning, line, "Literal block expected; none found.", none⟩], 0)
  match ls.drop blanks with
  | [] => missing
  | l :: rest =>
    if l.isIndented then
      let e := Extract.indented l rest
      (.literal start (Line.joinLines e.lines)
        :: unindentUnless e.blankFinish "Literal block" (start + 1 + e.extra),
        blanks + 1 + e.extra)
    else if 0 < blanks && (l.head?.map Pattern.isAdornmentChar).getD false then
      let block := (l :: rest).takeWhile (!Text.isBlank ·)
      let quoted := block.takeWhile fun x => x.head? = l.head?
      let broken := if quoted.length < block.length then
          [Block.problem ⟨.error, start + quoted.length, "Inconsistent literal block quoting.", none⟩]
        else []
      (broken ++ [.literal start (Line.joinLines quoted)], blanks + block.length)
    else missing

/-- The text of a paragraph without the colons that announce a literal
    block, and whether there are such colons. -/
def announcement (text : List Char) : List Char × Bool :=
  match text.reverse with
  | ':' :: ':' :: before =>
    if Text.trim text = [':', ':'] then ([], true)
    else match before with
      | c :: _ =>
        if c = ' ' || c = '\n' then
          (Text.dropRightWhile (fun d => d = ' ' || d = '\n') before.reverse, true)
        else ((':' :: before).reverse, true)
      | [] => ([], true)
  | _ => (text, false)

/-- A paragraph and the literal block it announces. -/
def paragraph (n : Nat) (l : Line) (rest : List Line) : Reading :=
  let more := rest.takeWhile fun (x : Line) => !Text.isBlank x && !x.isIndented
  let after := rest.drop more.length
  let next := n + 1 + more.length
  let stray := match after with
    | x :: _ => if Text.isBlank x then none else some next
    | [] => none
  let (text, announced) := announcement (Line.joinLines (l :: more))
  let block := Block.paragraph n text stray
  if announced then
    let (blocks, taken) := literalAfter next after
    (block :: blocks, more.length + taken)
  else ([block], more.length)

/-! ## Titles and transitions -/

/-- A line with an adornment below it; none if it is to be read as text, in
    which case the blocks are complaints that precede it. -/
def underlined (how : Manner) (n : Nat) (title underline : Line) : Option Reading × List Block :=
  let line := n + 1
  let markup := title ++ '\n' :: underline
  let short := decide (underline.length < how.width title)
  if short && underline.length < 3 then
    (none, if how.titles then
      [.problem ⟨.info, line, "Possible title underline, too short for the title.\n"
        ++ "Treating it as ordinary text because it's so short.", none⟩] else [])
  else
    let shortage : Option Problem :=
      if short then some ⟨.warning, line, "Title underline too short.", some markup⟩ else none
    if how.titles then
      (some ([.heading ⟨title, markup, ⟨underline.headD ' ', none⟩, n, shortage⟩], 1), [])
    else
      (some (shortage.toList.map .problem
        ++ [.problem ⟨.severe, line, "Unexpected section title.", some markup⟩], 1), [])

/-- An adornment line too short to be an overline, as text. -/
def shortOverline (n : Nat) (l : Line) (rest : List Line) : Reading :=
  let (blocks, taken) := paragraph n l rest
  (.problem ⟨.info, n, "Possible incomplete section title.\n"
    ++ "Treating the overline as ordinary text because it's so short.", none⟩ :: blocks, taken)

/-- A line with an adornment above it, and one below it if all is well. -/
def overlined (how : Manner) (n : Nat) (overline title : Line) (rest : List Line) : Reading :=
  let isShort := decide (overline.length < 4)
  let asText := shortOverline n overline (title :: rest)
  match rest with
  | [] =>
    if isShort then asText
    else ([.problem ⟨.severe, n, "Incomplete section title.",
      some (overline ++ '\n' :: title)⟩], 1)
  | underline :: _ =>
    let markup := overline ++ '\n' :: title ++ '\n' :: underline
    if !Pattern.isAdornment underline then
      if isShort then asText
      else ([.problem ⟨.severe, n, "Missing matching underline for section title overline.",
        some markup⟩], 2)
    else if overline ≠ underline then
      if isShort then asText
      else ([.problem ⟨.severe, n, "Title overline & underline mismatch.", some markup⟩], 2)
    else
      let tooShort := decide (overline.length < how.width title)
      if tooShort && isShort then asText
      else
        let shortage : Option Problem :=
          if tooShort then some ⟨.warning, n, "Title overline too short.", some markup⟩ else none
        let style : TitleStyle := ⟨underline.headD ' ', overline.head?⟩
        ([.heading ⟨Text.trim title, markup, style, n + 1, shortage⟩], 2)

/-- An adornment line: an overline, a transition or short text. -/
def adornment (how : Manner) (n : Nat) (l : Line) (rest : List Line) : Reading :=
  let isShort := decide (l.length < 4)
  if !how.titles then
    if l = [':', ':'] then paragraph n l rest
    else if isShort then
      let (blocks, taken) := paragraph n l rest
      (.problem ⟨.info, n, "Unexpected possible title overline or transition.\n"
        ++ "Treating it as ordinary text because it's so short.", none⟩ :: blocks, taken)
    else ([.problem ⟨.severe, n, "Unexpected section title or transition.", some l⟩], 0)
  else
    let alone : Reading := if isShort then paragraph n l rest else ([.transition n], 0)
    match rest with
    | [] => alone
    | next :: more =>
      if Text.isBlank next then alone
      else if Pattern.isAdornment next then
        if isShort then shortOverline n l rest
        else ([.problem ⟨.error, n, "Invalid section title or transition marker.",
          some (l ++ '\n' :: next)⟩], 1)
      else overlined how n l next more

/-! ## Lists -/

/-- Reads items one after the other as long as `item` finds one.  Gives the
    items, the number of lines they took, and whether the last ended well. -/
def collect {α σ : Type} (item : σ → Nat → Line → List Line → Option (α × σ × Extract))
    (s : σ) (n : Nat) (ls : List Line) : List α × Nat × Bool :=
  match ls with
  | [] => ([], 0, true)
  | l :: rest =>
    match item s n l rest with
    | none => ([], 0, true)
    | some (a, s, e) =>
      let (items, taken, finished) := collect item s (n + 1 + e.extra) (rest.drop e.extra)
      (a :: items, 1 + e.extra + taken, if items.isEmpty then e.blankFinish else finished)
termination_by ls.length
decreasing_by
  simp only [List.length_drop, List.length_cons]
  omega

/-- A list block from what `collect` found. -/
def listReading {α : Type} (what : String) (n : Nat) (block : List α → Block)
    (found : List α × Nat × Bool) : Reading :=
  let (items, taken, finished) := found
  (block items :: unindentUnless finished what (n + taken), taken - 1)

/-- An item whose marker takes `width` columns. -/
def listItem (width n : Nat) (l : Line) (rest : List Line) : ListItem × Extract :=
  let e := if Text.isBlank (l.drop width) then Extract.firstKnown width l rest
    else Extract.known width l rest
  (⟨n, ⟨n - 1, e.lines⟩⟩, e)

/-- A list of items with the same bullet. -/
def bulletList (bullet : Char) (n : Nat) (ls : List Line) : Reading :=
  listReading "Bullet list" n (.bulletList n) <|
    collect (fun (_ : Unit) n l rest =>
      match Pattern.bullet? l with
      | some (b, width) =>
        if b = bullet then
          let (item, e) := listItem width n l rest
          some (item, (), e)
        else none
      | none => none) () n ls

/-- Whether an enumerator is followed by a blank line, an indented line,
    another enumerator or nothing. -/
def enumeratorHolds : List Line → Bool
  | [] => true
  | next :: _ => Text.isBlank next || next.isIndented || (Pattern.enumerator? next).isSome

/-- A list of items numbered one after the other in the form of the first. -/
def enumeratedList (first : Pattern.Enumerator) (n : Nat) (ls : List Line) : Reading :=
  let start := match first.ordinal with
    | some k => if k = 1 then none else some (k, first.text)
    | none => none
  listReading "Enumerated list" n (.enumeratedList n start) <|
    collect (fun (expected : Option Nat) n l rest =>
      match Pattern.enumerator? l with
      | some e =>
        if e.form = first.form && e.ordinal = expected && enumeratorHolds rest then
          let (item, x) := listItem e.width n l rest
          some (item, expected.map (· + 1), x)
        else none
      | none => none) first.ordinal n ls

/-- A list of fields. -/
def fieldList (n : Nat) (ls : List Line) : Reading :=
  listReading "Field list" n (.fieldList n) <|
    collect (fun (_ : Unit) n l rest =>
      (Pattern.field? l).map fun (name, width) =>
        let e := Extract.firstKnown width l rest
        (⟨n, name, ⟨n - 1, e.lines⟩⟩, (), e)) () n ls

/-- A list of command-line options. -/
def optionList (n : Nat) (ls : List Line) : Reading :=
  listReading "Option list" n (.optionList n) <|
    collect (fun (_ : Unit) n l rest =>
      (Pattern.options? l).map fun mark =>
        let e := Extract.firstKnown mark.length l rest
        (⟨n, Text.trim mark, ⟨n - 1, e.lines⟩⟩, (), e)) () n ls

/-- A term and the indented lines that define it. -/
def definitionItem (n : Nat) (l next : Line) (rest : List Line) : DefinitionItem × Extract :=
  let e := Extract.indented next rest
  let (term, classifier) := match Text.cut? [' ', ':', ' '] l with
    | some (before, after) => if before.isEmpty then (l, none) else (before, some (Text.trim after))
    | none => (l, none)
  (⟨n, term, classifier, Text.endsWith [':', ':'] l, ⟨n, e.lines⟩⟩, { e with extra := e.extra + 1 })

/-- A list of terms, each with an indented definition below it. -/
def definitionList (n : Nat) (ls : List Line) : Reading :=
  listReading "Definition list" n (.definitionList n) <|
    collect (fun (_ : Unit) n l rest =>
      match rest with
      | next :: more =>
        if Pattern.isPlain l && !Text.isBlank next && next.isIndented then
          let (item, e) := definitionItem n l next more
          some (item, (), e)
        else none
      | [] => none) () n ls

/-! ## Other constructs -/

/-- A block quote. -/
def blockQuote (n : Nat) (l : Line) (rest : List Line) : Reading :=
  let e := Extract.indented l rest
  (.quote n ⟨n - 1, e.lines⟩ :: unindentUnless e.blankFinish "Block quote" (n + 1 + e.extra),
    e.extra)

/-- A doctest block: the lines up to a blank one. -/
def doctest (n : Nat) (l : Line) (rest : List Line) : Reading :=
  let more := rest.takeWhile (!Text.isBlank ·)
  ([.doctest n (Line.joinLines (l :: more))], more.length)

/-- A line block: lines after a bar, and the indented lines that go on with
    them. -/
def lineBlock (n : Nat) (l : Line) (rest : List Line) : Reading :=
  let more := rest.takeWhile fun (x : Line) =>
    !Text.isBlank x && (Pattern.isLineBlock x || x.isIndented)
  let content (x : Line) : List Char :=
    let x := Text.trim x
    Text.trim ((Text.dropStart? ['|'] x).getD x)
  let numbered := (l :: more).zipIdx.map fun (x, k) => (n + k, content x)
  let finished := match rest.drop more.length with
    | x :: _ => Text.isBlank x
    | [] => true
  (.lineBlock n numbered :: unindentUnless finished "Line block" (n + 1 + more.length),
    more.length)

/-- A grid table: the lines that start with a plus or a bar. -/
def gridTable (n : Nat) (l : Line) (rest : List Line) : Reading :=
  let more := rest.takeWhile fun x =>
    !Text.isBlank x && (x.head? = some '+' || x.head? = some '|')
  let text := Line.joinLines (l :: more)
  let after := rest.drop more.length
  let junk := after.takeWhile (!Text.isBlank ·)
  let last := more.getLastD l
  if junk.isEmpty && Pattern.isGridBorder (Text.replaceChar '=' ['-'] last) then
    ([.table n text], more.length)
  else
    ([.problem ⟨.error, n, "Malformed table.", some text⟩], more.length + junk.length)

/-- How many lines after its first a simple table takes: it goes on over
    blank lines until a second border was seen. -/
def simpleTableExtent (borders : Nat) : List Line → Nat
  | [] => 0
  | l :: rest =>
    if Text.isBlank l then
      if 2 ≤ borders || rest.isEmpty then 0 else 1 + simpleTableExtent borders rest
    else
      let seen := if Pattern.isSimpleBorder l || Pattern.isAdornment l then borders + 1 else borders
      1 + simpleTableExtent seen rest

/-- A simple table. -/
def simpleTable (n : Nat) (l : Line) (rest : List Line) : Reading :=
  let extent := simpleTableExtent 1 rest
  ([.table n (Line.joinLines (l :: rest.take extent))], extent)

/-- The complaint after an explicit block, unless it ended well or another
    one follows. -/
def explicitEnd (e : Extract) (n : Nat) (rest : List Line) : List Block :=
  let follows := match rest.drop e.extra with
    | x :: _ => Pattern.isExplicit x || Pattern.isAnonymous x
    | [] => false
  unindentUnless (e.blankFinish || follows) "Explicit markup" (n + 1 + e.extra)

/-- An explicit markup block after a marker of some width. -/
def explicitBlock (width n : Nat) (l : Line) (rest : List Line) : Reading :=
  let e := Extract.firstKnown width l rest
  let markup := Line.joinLines (l :: Extract.trimEnd (rest.take e.extra))
  (.explicit n e.lines markup :: explicitEnd e n rest, e.extra)

/-- An anonymous target after a marker of some width. -/
def anonymousTarget (width n : Nat) (l : Line) (rest : List Line) : Reading :=
  let e := Extract.firstKnown width l rest
  (.anonymousTarget n e.lines :: explicitEnd e n rest, e.extra)

/-- Text: a title, a definition list or a paragraph, as the next line says. -/
def text (how : Manner) (n : Nat) (l : Line) (rest : List Line) : Reading :=
  match rest with
  | [] => paragraph n l rest
  | next :: _ =>
    if Pattern.isAdornment next then
      match underlined how n l next with
      | (some reading, _) => reading
      | (none, complaints) =>
        let (blocks, taken) := paragraph n l rest
        (complaints ++ blocks, taken)
    else if !Text.isBlank next && next.isIndented then definitionList n (l :: rest)
    else paragraph n l rest

/-- The construct that starts with a line. -/
def block (how : Manner) (n : Nat) (l : Line) (rest : List Line) : Reading :=
  if Text.isBlank l then ([], 0)
  else if l.isIndented then blockQuote n l rest
  else if let some (bullet, _) := Pattern.bullet? l then bulletList bullet n (l :: rest)
  else if (Pattern.enumeratorParts? l).isSome then
    match Pattern.enumerator? l with
    | some first =>
      if enumeratorHolds rest then enumeratedList first n (l :: rest) else paragraph n l rest
    | none =>
      if enumeratorHolds rest then ([.stuckList n how.first], rest.length) else paragraph n l rest
  else if (Pattern.field? l).isSome then fieldList n (l :: rest)
  else if (Pattern.options? l).isSome then optionList n (l :: rest)
  else if Pattern.isDoctest l then doctest n l rest
  else if Pattern.isLineBlock l then lineBlock n l rest
  else if Pattern.isGridBorder l then gridTable n l rest
  else if Pattern.isSimpleBorder l then simpleTable n l rest
  else if let some width := Pattern.marker? ['.', '.'] l then explicitBlock width n l rest
  else if let some width := Pattern.marker? ['_', '_'] l then anonymousTarget width n l rest
  else if Pattern.isAdornment l then adornment how n l rest
  else text how n l rest

/-- The blocks of some lines, the first of which has number `n`. -/
def blocks (how : Manner) (n : Nat) (ls : List Line) : List Block :=
  match ls with
  | [] => []
  | l :: rest =>
    let (found, taken) := block how n l rest
    found ++ blocks how (n + 1 + taken) (rest.drop taken)
termination_by ls.length
decreasing_by
  simp only [List.length_drop, List.length_cons]
  omega

end MarkupLint.Reader

namespace MarkupLint

/-- How a body is read; `titles` says whether sections may start in it, and
    `width` how many columns a text takes. -/
def Body.manner (b : Body) (titles : Bool) (width : List Char → Nat) : Reader.Manner where
  titles := titles
  width := width
  first := b.offset + 1

/-- The blocks of a body. -/
def Body.blocks (b : Body) (titles : Bool) (width : List Char → Nat) : List Block :=
  Reader.blocks (b.manner titles width) (b.offset + 1) b.lines

end MarkupLint
