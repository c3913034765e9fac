import MarkupLint.Directive.Box
import MarkupLint.Directive.Literal
import MarkupLint.Directive.Setting
import MarkupLint.Directive.Substitute
import MarkupLint.Directive.Table

/-! # What directives do -/

namespace MarkupLint

namespace Call

/-- Runs a standard directive. -/
def runStandard (c : Call) (read : ReadBody) : StandardDirective → Run (List NodeId)
  | .admonition type => c.admonition read type
  | .titledAdmonition => c.titledAdmonition read
  | .image => c.image
  | .figure => c.figure read
  | .code => c.code
  | .math => c.math
  | .parsedLiteral => c.parsedLiteral
  | .topic => c.pseudoSection read .topic
  | .sidebar => c.pseudoSection read .sidebar
  | .rubric => c.rubric
  | .quotation style => c.quotation read style
  | .compound => c.compound read
  | .container => c.container read
  | .contents => c.contents
  | .sectionNumbers => c.sectionNumbers
  | .targetNotes => return []
  | .header => c.decoration read .header
  | .footer => c.decoration read .footer
  | .includeFile => c.includeFile read
  | .raw => c.raw
  | .replace => c.replace read
  | .unicode => c.unicode
  | .date => c.date
  | .classes => c.classes read
  | .defineRole => c.defineRole
  | .defaultRole => c.defaultRole
  | .title => c.title
  | .metadata => c.metadata read
  | .table => c.table read
  | .csvTable => c.csvTable read
  | .listTable => c.listTable read

/-- The reason for which a directive fails, with the place it stands at. -/
def failure (c : Call) (shown reason : String) : Stop :=
  .failed ("rst: directive " ++ Text.quoted shown ++ " at " ++ c.site.source ++ ":"
    ++ Text.natText c.line ++ ": " ++ reason)

/-- Gives what a directive that an application added answered; `shown` is
    its name as it stands in the text. -/
def give (c : Call) (read : ReadBody) (shown : String) : DirectiveAnswer → Run (List NodeId)
  | .fail reason => (throw (c.failure shown reason) : Parse _)
  | .abort reason => (throw (Stop.aborted ("custom:" ++ reason)) : Parse _)
  | .complain level message => throw { level := level, text := message }
  | .pending kind priority options => do
    return [← Build.pending { kind := .pending } kind priority options]
  | .nested => do
    c.requireContent
    let n ← Build.element { kind := .compound }
    c.readContent read n
    return [n]
  | .container attributes => do
    let blank : Node := { kind := .container, line := c.line }
    return [← Build.element (blank.setAttrs attributes)]

/-- Runs a directive. -/
def run (c : Call) (read : ReadBody) (shown : String) : Directive → Run (List NodeId)
  | .standard d => c.runStandard read d
  | .ignored => return []
  | .custom d => c.give read shown (d.behaviour.answer c.toDirectiveUse)

end Call

end MarkupLint
