import MarkupLint.Data.Csv
import MarkupLint.Directive.External

/-! # Tables

    Tables with a title, tables of comma-separated values and tables
    written as lists. -/

namespace MarkupLint.Call

/-- The title that the argument gives, and its messages. -/
def tableTitle (c : Call) : Parse (List NodeId × List NodeId) := do
  match c.argument? with
  | none => return ([], [])
  | some text =>
    let (title, messages) ← c.inlineTitle .title text
    return ([title], messages)

/-- A table with a title. -/
def table (c : Call) (read : ReadBody) : Run (List NodeId) := do
  if c.content.isEmpty then
    return [← c.report .warning
      ("Content block expected for the " ++ c.shownName ++ " directive; none found.") true]
  let (title, messages) ← c.tableTitle
  let problem : Complaint :=
    { text := "Error parsing content block for the " ++ c.shownName
        ++ " directive: exactly one table expected." }
  match ← c.contentNodes read with
  | [table] =>
    if (← Build.node table).kind ≠ .table then throw problem
    Build.edit fun f => (f.detach table).insert table 0 title
    Build.update table ({ · with line := c.line })
    return table :: messages
  | _ => throw problem

/-! ## Dimensions -/

/-- How many rows are headers and how many columns are stubs. -/
structure Dimensions where
  headerRows : Int
  stubColumns : Int

/-- The dimensions that the options give; a header given apart is one more
    row. -/
def dimensions (c : Call) (header : Bool) : Dimensions :=
  let count (key : String) : Int := (Text.int? (c.option key).toList).getD 0
  let rows := count "header-rows"
  ⟨if header then Text.wrapWord (rows + 1) else rows, count "stub-columns"⟩

/-- The complaint about rows that do not fill the dimensions; `widths` holds
    the number of cells of each row. -/
def dimensionProblem (c : Call) (d : Dimensions) (widths : List Nat) : Option String :=
  let rows : Int := widths.length
  if rows < d.headerRows then
    some (Text.intText d.headerRows ++ " header row(s) specified but only " ++ Text.intText rows
      ++ " row(s) of data supplied (" ++ c.shownName ++ " directive).")
  else if rows = d.headerRows ∧ 0 < d.headerRows then
    some ("Insufficient data supplied (" ++ Text.intText rows
      ++ " row(s)); no data remaining for table body, required by " ++ c.shownName
      ++ " directive.")
  else
    widths.findSome? fun (cells : Nat) =>
      let width : Int := cells
      if width < d.stubColumns then
        some (Text.intText d.stubColumns ++ " stub column(s) specified but only "
          ++ Text.intText width ++ " columns(s) of data supplied (" ++ c.shownName
          ++ " directive).")
      else if width = d.stubColumns ∧ 0 < d.stubColumns then
        some ("Insufficient data supplied (" ++ Text.intText width
          ++ " columns(s)); no data remaining for table body, required by " ++ c.shownName
          ++ " directive.")
      else none

/-- The complaint about column widths that do not fit the columns. -/
def widthProblem (c : Call) (columns : Nat) : Option String :=
  let given := Text.trim (c.option "widths").toList
  if given.isEmpty || given = "auto".toList || given = "grid".toList then none
  else
    let fields := Text.wordsBy (fun c => c = ',' || c = ' ') given
    if fields.any fun f => ((Text.int? f).map fun n => decide (n < 0)).getD true then
      some ("Error in " ++ c.shownName
        ++ " directive:\n\"widths\" must be \"auto\", \"grid\", or a list of positive integers.")
    else if fields.length ≠ columns then
      some (c.shownName ++ " widths do not match the number of columns in table ("
        ++ Text.natText columns ++ ").")
    else none

/-- Complains about dimensions and widths that do not fit the rows. -/
def requireShape (c : Call) (d : Dimensions) (widths : List Nat) (columns : Nat) : Run Unit :=
  match c.dimensionProblem d widths <|> c.widthProblem columns with
  | some text => throw { text := text }
  | none => pure ()

/-- A table of rows of cells. -/
def buildTable (c : Call) (title : List NodeId) (d : Dimensions) (rows : List (List NodeId)) :
    Build NodeId := do
  let (table, _) ← c.element { kind := .table }
  Build.append table title
  rows.zipIdx.forM fun (cells, k) => do
    let blank : Node := { kind := .row }
    let row ← Build.element
      (if (k : Int) < d.headerRows then blank.setAttr "header" "true" else blank) cells
    Build.append table [row]
  return table

/-! ## Comma-separated values -/

/-- Exchanges two characters of a text. -/
def swapChars (a b : Char) (s : List Char) : List Char :=
  let hold := '\x00'
  Text.replaceChar hold [b] (Text.replaceChar b [a] (Text.replaceChar a [hold] s))

/-- The values in a text, in the dialect that the options give.  Another
    quote character is exchanged with the usual one around the reading. -/
def values? (c : Call) (s : List Char) : Option (List (List (List Char))) :=
  let quote := ((c.option "quote").toList.head?).getD '"'
  let swap (s : List Char) : List Char := if quote = '"' then s else swapChars quote '"' s
  let dialect : Data.Csv.Dialect :=
    { delimiter := ((c.option "delim").toList.head?).getD ',', trim := !c.has "keepspace" }
  (Data.Csv.records? dialect (swap s)).map (·.map (·.map swap))

/-- The values in a text, or a complaint that the dialect is none. -/
def readValues (c : Call) (s : List Char) : Run (List (List (List Char))) :=
  valueOr (c.values? s)
    { text := "Error with CSV data in " ++ c.shownName
        ++ " directive:\ncsv: invalid field or comment delimiter" }

/-- The text of the values, from the content or a file. -/
def valueText (c : Call) : Run (List Char) := do
  if !c.content.isEmpty then
    if c.has "file" || c.has "url" then throw c.bothProblem
    return Line.joinLines c.content
  if c.has "file" then return ← c.fileText
  if c.has "url" then
    throw { level := .warning, text := "Problems with " ++ c.shownName ++ " directive URL \""
      ++ c.option "url" ++ "\":\nremote tables are not fetched." }
  throw { level := .warning, text := "The " ++ c.shownName
    ++ " directive requires content; none supplied." }

/-- The rows of the header that an option gives. -/
def headerValues (c : Call) : Run (List (List (List Char))) :=
  match c.option? "header" with
  | some h => c.readValues h.toList
  | none => pure []

/-- A cell that holds a text read as a body. -/
def readCell (c : Call) (read : Site → Body → Parse Unit) (text : List Char) :
    Parse NodeId := do
  let entry ← Build.element { kind := .entry }
  if !Text.isBlank text then
    read { c.site with titles := false, parent := entry }
      ⟨c.contentOffset, Text.splitOn '\n' text⟩
  return entry

/-- The cells of a row, with empty ones up to a number of columns. -/
def readRow (c : Call) (read : Site → Body → Parse Unit) (columns : Nat)
    (row : List (List Char)) : Parse (List NodeId) :=
  (row ++ List.replicate (columns - row.length) []).mapM (c.readCell read)

/-- A table of comma-separated values. -/
def csvTable (c : Call) (read : ReadBody) : Run (List NodeId) := do
  let text ← c.valueText
  let (title, messages) ← c.tableTitle
  let header ← c.headerValues
  let values ← c.readValues text
  let rows := header ++ values
  if rows.isEmpty then throw { text := "No table data detected in CSV file." }
  let d := c.dimensions (c.has "header")
  let columns := rows.foldl (fun n r => max n r.length) 0
  c.requireShape d (rows.map (·.length)) columns
  let top ← header.mapM fun row => liftM (c.readRow read.within columns row)
  let inside := if c.content.isEmpty then read.file else read.within
  let below ← values.mapM fun row => liftM (c.readRow inside columns row)
  return (← c.buildTable title d (top ++ below)) :: messages

/-! ## Lists -/

/-- The cells of the rows of a two-level list, which all have as many as the
    first; `k` is the number of the next row. -/
def listRows (f : Forest) (columns : Option Nat) (k : Nat) :
    List NodeId → Except String (List (List NodeId))
  | [] => .ok []
  | item :: rest =>
    match f.children item with
    | [row] =>
      if (f.get row).kind ≠ .bulletList then .error (missingRow k)
      else
        let cells := f.children row
        let columns := columns.getD cells.length
        if cells.length ≠ columns then
          .error ("uniform two-level bullet list expected, but row " ++ Text.natText k
            ++ " does not contain the same number of items as row 1 ("
            ++ Text.natText cells.length ++ " vs " ++ Text.natText columns ++ ").")
        else (listRows f (some columns) (k + 1) rest).map (cells :: ·)
    | _ => .error (missingRow k)
where
  /-- The complaint about a row that is no list. -/
  missingRow (k : Nat) : String :=
    "two-level bullet list expected, but row " ++ Text.natText k
      ++ " does not contain a second-level bullet list."

/-- The rows of a table whose content consists of some nodes: the items of
    the one list they are, with the nodes of every item. -/
def listCells (f : Forest) (nodes : List NodeId) : Except String (List (List (List NodeId))) :=
  match nodes with
  | [list] =>
    if (f.get list).kind = .bulletList then
      (listRows f none 1 (f.children list)).map (·.map (·.map f.children))
    else .error "exactly one bullet list expected."
  | _ => .error "exactly one bullet list expected."

/-- A table of rows that are read off a list. -/
def listedTable (c : Call) (title messages : List NodeId) (rows : List (List (List NodeId))) :
    Run (List NodeId) := do
  let cells ← rows.mapM fun row => row.mapM fun nodes =>
    (Build.element { kind := .entry } nodes : Build NodeId)
  let d := c.dimensions false
  c.requireShape d (rows.map (·.length)) ((rows.head?.map (·.length)).getD 0)
  return (← c.buildTable title d cells) :: messages

/-- A table written as a two-level list. -/
def listTable (c : Call) (read : ReadBody) : Run (List NodeId) := do
  if c.content.isEmpty then
    throw { text := "The " ++ c.shownName ++ " directive is empty; content required." }
  let (title, messages) ← c.tableTitle
  let nodes ← c.contentNodes read
  match listCells (← get).doc.forest nodes with
  | .error e =>
    throw { text := "Error parsing content block for the " ++ c.shownName ++ " directive: " ++ e }
  | .ok rows => c.listedTable title messages rows

end MarkupLint.Call
