import MarkupLint.Batch.Run
import MarkupLint.Diagnostic.Format
import MarkupLint.Diagnostic.Report

/-! # Reports

    What is written about the results of a batch. -/

namespace MarkupLint

namespace OutputFormat

/-- The format that a report is asked for by its exact name; no name stands
    for text. -/
def ofReportName (name : String) : Except String OutputFormat :=
  match (("", OutputFormat.text) :: named).lookup name with
  | some f => .ok f
  | none => .error ("unknown format " ++ Text.quoted name)

end OutputFormat

namespace FileResult

/-- The records of all files, in order. -/
def allRecords (results : List FileResult) : List Record := results.flatMap (·.records)

/-- Whether a record of any file reaches a level. -/
def failed (threshold : Level) (results : List FileResult) : Bool :=
  results.any fun r => Record.reaches threshold r.records

/-- The lines about one file: its records from a level on, or that it has
    none. -/
def reportLines (level : Level) (colour : Bool) (r : FileResult) : String :=
  let shown := Record.atLeast level r.records
  if shown.isEmpty then Record.cleanLine colour r.path ++ "\n"
  else Record.renderLines colour shown

/-- The report on some files: lines for each, or one array of all records. -/
def report (format : OutputFormat) (level : Level) (colour : Bool) (results : List FileResult) :
    String :=
  match format with
  | .text => String.join (results.map (reportLines level colour))
  | .json => Record.renderJson "" (Record.atLeast level (allRecords results))

end FileResult

end MarkupLint
