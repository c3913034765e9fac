import MarkupLint.Text.Search

/-! # Paths

    Lexical operations on slash-separated paths. -/

namespace MarkupLint.Path

/-- Whether a path starts at the root. -/
def isAbs (p : String) : Bool := p.toList.head? = some '/'

/-- The names of a path, without empty ones and dots. -/
def parts (p : String) : List String :=
  ((Text.splitOn '/' p.toList).map String.ofList).filter fun s => s ≠ "" && s ≠ "."

/-- Takes back a name for every `..` that follows one.  `done` holds the
    names so far in reverse; at the root a `..` leads nowhere. -/
def resolveUp (rooted : Bool) (done : List String) : List String → List String
  | [] => done.reverse
  | ".." :: rest =>
    match done with
    | name :: before =>
      if name = ".." then resolveUp rooted (".." :: done) rest else resolveUp rooted before rest
    | [] => if rooted then resolveUp rooted [] rest else resolveUp rooted [".."] rest
  | name :: rest => resolveUp rooted (name :: done) rest

/-- The shortest path with the same meaning. -/
def clean (p : String) : String :=
  let rooted := isAbs p
  let body := "/".intercalate (resolveUp rooted [] (parts p))
  if rooted then "/" ++ body else if body = "" then "." else body

/-- Two paths, one after the other; empty ones are left out. -/
def join (a b : String) : String :=
  if a = "" then (if b = "" then "" else clean b)
  else clean (a ++ "/" ++ b)

/-- Everything up to the last slash. -/
def dir (p : String) : String :=
  clean (String.ofList (p.toList.reverse.dropWhile (· ≠ '/')).reverse)

/-- The last name of a path. -/
def base (p : String) : String :=
  if p = "" then "."
  else
    let trimmed := (p.toList.reverse.dropWhile (· == '/'))
    if trimmed.isEmpty then "/" else String.ofList (trimmed.takeWhile (· ≠ '/')).reverse

/-- The last name from its last dot on; empty if it has none. -/
def ext (p : String) : String :=
  let name := p.toList.reverse.takeWhile (· ≠ '/')
  if name.contains '.' then String.ofList ('.' :: (name.takeWhile (· ≠ '.')).reverse) else ""

end MarkupLint.Path
