import MarkupLint.Directive.Call

/-! # Directives for substitutions

    Directives that give the text of a substitution: `replace`, `unicode`
    and `date`. -/

namespace MarkupLint.Call

/-- What a replacement may hold: one paragraph, whose content is the
    result, and messages; anything else is refused. -/
def replacement (f : Forest) (paragraph : Option NodeId) (messages : List NodeId) :
    List NodeId → Option (List NodeId)
  | [] => some (messages ++ ((paragraph.map fun p => f.children p).getD []))
  | i :: rest =>
    let kind := (f.get i).kind
    if paragraph.isNone && kind = .paragraph then replacement f (some i) messages rest
    else if kind = .systemMessage then replacement f paragraph (messages ++ [i]) rest
    else none

/-- A paragraph of text. -/
def replace (c : Call) (read : ReadBody) : Run (List NodeId) := do
  c.requireSubstitution
  c.requireContent
  let nodes ← c.contentNodes read
  match replacement (← get).doc.forest none [] nodes with
  | some result => return result
  | none => return [← c.report .error
      ("Error in " ++ c.shownName ++ " directive: may contain a single paragraph only.") false]

/-- The text before a comment, which starts with two points and a space at
    the start of the text or after white space. -/
def beforeComment (s : List Char) : List Char :=
  if Text.startsWith ['.', '.', ' '] s then [] else go s
where
  /-- The text before the first comment after white space. -/
  go : List Char → List Char
    | [] => []
    | c :: rest =>
      if (c = ' ' || c = '\n') && Text.startsWith ['.', '.', ' '] rest then [] else c :: go rest

/-- Characters given by their codes. -/
def unicode (c : Call) : Run (List NodeId) := do
  c.requireSubstitution
  let codes := Text.words (beforeComment c.argument.toList)
  let texts ← codes.mapM fun code =>
    match Converter.character (String.ofList code) with
    | .ok s => (pure s : Run String)
    | .error e => throw { text := "Invalid character code: " ++ String.ofList code
        ++ "\nValueError: " ++ e }
  return [← Build.leaf (String.join texts)]

/-- The date of the clock. -/
def date (c : Call) : Run (List NodeId) := do
  c.requireSubstitution
  let layout := c.argument?.getD "%Y-%m-%d"
  return [← Build.leaf (String.ofList
    (c.site.env.conventions.date c.site.env.clock layout.toList))]

end MarkupLint.Call
