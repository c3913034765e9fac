import MarkupLint.Directive.Call

/-! # Literal text and rubrics

    Directives that take their content as it stands, or as inline markup. -/

namespace MarkupLint.Call

/-- Program text; the language is the argument. -/
def code (c : Call) : Run (List NodeId) := do
  c.requireContent
  let start := c.option "number-lines"
  if start ≠ "" && (Text.int? start.toList).isNone then
    throw { text := ":number-lines: with non-integer start value" }
  let text ← Build.leaf c.contentText
  let (n, complaints) ← c.element { kind := .literalBlock } [text]
  let classes := classesAfter "code" (c.option "class")
  match c.argument? with
  | none => Build.setAttr n "classes" classes
  | some language => do
    Build.setAttr n "language" language
    Build.setAttr n "classes" (classes ++ " " ++ language)
  return n :: complaints

/-- The pieces of a text between empty lines. -/
def mathBlocks (text : List Char) : List (List Char) :=
  go text.length text
where
  /-- At most `count` cuts. -/
  go : Nat → List Char → List (List Char)
    | 0, s => [s]
    | count + 1, s =>
      match Text.cut? ['\n', '\n'] s with
      | some (before, after) => before :: go count after
      | none => [s]

/-- Formulas, divided by empty lines. -/
def math (c : Call) : Run (List NodeId) := do
  c.requireContent
  let blocks := (mathBlocks (Line.joinLines c.content)).filter (!Text.isBlank ·)
  let made ← blocks.mapM fun block => do
    let text ← Build.leaf (String.ofList block)
    let (n, complaints) ← c.element { kind := .mathBlock } [text]
    return n :: complaints
  return made.flatten

/-- Text whose line breaks count and whose markup is read. -/
def parsedLiteral (c : Call) : Run (List NodeId) := do
  c.requireContent
  let made ← Parse.inlineParse c.site (Line.joinLines c.content) (c.contentOffset + 1)
  let (n, complaints) ← c.element { kind := .literalBlock } made.nodes
  Build.setAttr n "classes" (classesAfter "parsed-literal" (c.option "class"))
  return n :: made.messages ++ complaints

/-- A heading that is not a section's. -/
def rubric (c : Call) : Run (List NodeId) := do
  let made ← Parse.inlineParse c.site c.argument.toList c.line
  let (n, complaints) ← c.element { kind := .rubric } made.nodes
  return n :: made.messages ++ complaints

end MarkupLint.Call
