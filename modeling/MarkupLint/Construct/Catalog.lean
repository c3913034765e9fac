/-! # The project catalogue

    The directives and roles that a documentation project adds to the plain
    markup; ignoring them keeps them from being reported as unknown. -/

namespace MarkupLint.Catalog

/-- The directives, in order. -/
def directives : List String :=
  ["autosummary", "centered", "currentmodule", "deprecated", "hlist", "include", "index",
   "literalinclude", "no-code-block", "seealso", "toctree", "todo", "versionadded",
   "versionchanged"]

/-- The roles, in order. -/
def roles : List String := ["ctype"]

/-- Adds a name, unless it is empty or there already. -/
def addName (names : List String) (name : String) : List String :=
  if name = "" || names.contains name then names else names ++ [name]

/-- Joins lists of names in order, without repeats and empty names. -/
def merge (lists : List (List String)) : List String := lists.flatten.foldl addName []

end MarkupLint.Catalog
