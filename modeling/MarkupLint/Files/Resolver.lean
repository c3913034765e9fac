import MarkupLint.Files.Glob
import MarkupLint.Files.Tree
import MarkupLint.Text.Case
import MarkupLint.Text.Quoted

/-! # Files to lint

    Arguments stand for files: a glob pattern for the paths it matches, a
    directory for the documents below it, anything else for itself.  The
    files are those of the arguments in order, without repeats. -/

namespace MarkupLint

namespace FileTree

/-- The names in a directory in order, and whether each is a directory. -/
def list (t : FileTree) (dir : String) : List (String × Bool) :=
  let below := t.entries.filterMap fun (path, entry) =>
    if !isBelow dir path then none
    else
      let rest := if dir = "." then path.toList else path.toList.drop (dir.length + 1)
      let name := rest.takeWhile (· ≠ '/')
      some (String.ofList name, decide (name.length < rest.length) || entry == .directory)
  (below.foldl (fun (t : Data.Table Bool) p => t.set p.1 p.2) []).mergeSort fun a b => a.1 ≤ b.1

/-- Whether a clean path is that of a directory in the tree. -/
def isDirectory (t : FileTree) (path : String) : Bool := t.standing? path == some .directory

/-- The part of a tree below a directory. -/
def subtree (t : FileTree) (dir : String) : FileTree where
  entries := t.entries.filterMap fun (path, entry) =>
    if dir = "." then some (path, entry)
    else if isBelow dir path then some (String.ofList (path.toList.drop (dir.length + 1)), entry)
    else none

/-- The files below a directory, at most `depth` levels deep; directories
    whose names start with a dot are passed over. -/
def documentsWithin (t : FileTree) (extensions : List String) : Nat → String → List String
  | 0, _ => []
  | depth + 1, dir =>
    (t.list dir).flatMap fun (name, isDir) =>
      let path := Path.join dir name
      if isDir then
        if name.toList.head? = some '.' then [] else documentsWithin t extensions depth path
      else if extensions.contains (Text.lowerString (Path.ext path)) then [path]
      else []

/-- The files below a directory with one of some extensions, in order. -/
def documents (t : FileTree) (extensions : List String) (dir : String) : List String :=
  let longest := t.entries.foldl (fun n p => max n p.1.length) 0
  (t.documentsWithin extensions (longest + 1) dir).mergeSort fun a b => a ≤ b

/-- The paths that a pattern matches; none if it is malformed.  The names in
    a pattern are matched one after the other, the last against what is in
    the directories that those before it match. -/
def globWithin (t : FileTree) : Nat → List Char → Option (List String)
  | 0, _ => none
  | depth + 1, pattern => do
    let _ ← Glob.items? pattern
    let file := (pattern.reverse.takeWhile (· ≠ '/')).reverse
    let dir := pattern.take (pattern.length - file.length - 1)
    let items ← Glob.items? file
    let dirs ← if Glob.hasSpecial dir || dir.contains '\\' then globWithin t depth dir
      else some [if dir.isEmpty then "." else String.ofList dir]
    return dirs.flatMap fun d =>
      if t.isDirectory d then
        ((t.list d).filter fun p => Glob.isMatch items p.1.toList).map fun p => Path.join d p.1
      else []

/-- The paths that a pattern matches, in order; none if it is malformed. -/
def glob (t : FileTree) (pattern : String) : Option (List String) :=
  (t.globWithin (pattern.length + 1) pattern.toList).map fun paths =>
    paths.mergeSort fun a b => a ≤ b

end FileTree

/-- The documents that a directory stands for. -/
def defaultExtensions : List String := [".rst", ".rest"]

/-- What arguments are resolved against. -/
structure Resolver where
  /-- The files below the base; none if there is no file system at all. -/
  files : Option FileTree
  /-- The base that the paths found are joined to; none if they are kept. -/
  base : Option String := none
  extensions : List String := defaultExtensions
  /-- The paths outside the tree that a pattern matches that starts at the
      root; none if it is malformed.  By default none are known. -/
  outside : String → Option (List String) := fun pattern =>
    (Glob.items? pattern.toList).map fun _ => []
  /-- Why a directory of the tree cannot be walked. -/
  fault? : String → Option String := fun _ => none

/-- Why arguments cannot be resolved. -/
inductive ResolveError where
  | noFileSystem
  | noPatterns
  | malformed (pattern : String)
  /-- An absolute pattern where only names below a root can be matched. -/
  | rooted (pattern : String)
  | noMatch (patterns : List String)
  /-- A directory cannot be walked. -/
  | walk (dir reason : String)
  | missingBase (base : String) (e : FileError)
  | baseNotDirectory (base : String)
  /-- There are neither arguments nor configured files. -/
  | noFiles
  deriving DecidableEq, Repr

namespace ResolveError

/-- What is wrong with a pattern. -/
def patternReason : ResolveError → String
  | .rooted _ => "absolute pattern on a rooted file system"
  | _ => "syntax error in pattern"

/-- The text of the error. -/
def message : ResolveError → String
  | .noFileSystem => "fileset: resolver has no filesystem"
  | .noPatterns => "fileset: no patterns provided"
  | .malformed p => "invalid glob pattern " ++ Text.quoted p ++ ": syntax error in pattern"
  | .rooted p =>
    "invalid glob pattern " ++ Text.quoted p ++ ": absolute pattern on a rooted file system"
  | .noMatch ps => "patterns matched no files: " ++ ", ".intercalate ps
  | .walk dir reason => "walk " ++ dir ++ ": " ++ reason
  | .missingBase base e =>
    "stat base " ++ Text.quoted base ++ ": stat " ++ base ++ ": " ++ e.reason
  | .baseNotDirectory base => "base " ++ Text.quoted base ++ " is not a directory"
  | .noFiles => "no files to lint"

end ResolveError

namespace Resolver

/-- A resolver for the files below a directory of the working tree. -/
def atBase (t : FileTree) (base : String) : Except ResolveError Resolver :=
  match t.resolve base with
  | .error e => .error (.missingBase base e)
  | .ok path =>
    if t.isDirectory path then .ok { files := some (t.subtree path), base := some base }
    else .error (.baseNotDirectory base)

/-- A path that was found, as the result gives it; one that starts at the
    root stays as it is. -/
def joined (r : Resolver) (path : String) : String :=
  if Path.isAbs path then path
  else match r.base with
    | none => path
    | some base => Path.join base path

/-- The paths that a pattern matches. -/
def glob (r : Resolver) (t : FileTree) (pattern : String) : Except ResolveError (List String) :=
  if Path.isAbs pattern then
    if r.base.isNone then .error (.rooted pattern)
    else match r.outside pattern with
      | some paths => .ok (paths.mergeSort fun a b => a ≤ b)
      | none => .error (.malformed pattern)
  else match t.glob (Path.clean pattern) with
    | some paths => .ok paths
    | none => .error (.malformed pattern)

/-- The files that one argument stands for; none if it ought to match
    something and does not. -/
def expand (r : Resolver) (t : FileTree) (pattern : String) :
    Except ResolveError (Option (List String)) :=
  let some? (paths : List String) : Option (List String) :=
    if paths.isEmpty then none else some (paths.map r.joined)
  let path := Path.clean pattern
  if Glob.hasSpecial pattern.toList then (r.glob t pattern).map some?
  else if !Path.isAbs pattern && t.isDirectory path then
    match r.fault? path with
    | some reason => .error (.walk path reason)
    | none => .ok (some? (t.documents r.extensions path))
  else .ok (some [pattern])

/-- The elements of a list without repeats. -/
def dedupe (paths : List String) : List String :=
  paths.foldl (fun found p => if found.contains p then found else found ++ [p]) []

/-- The files that some arguments stand for. -/
def resolve (r : Resolver) (patterns : List String) : Except ResolveError (List String) := do
  match r.files with
  | none => .error .noFileSystem
  | some t =>
    if patterns.isEmpty then .error .noPatterns
    else
      let found ← patterns.mapM fun p => (r.expand t p).map fun paths => (p, paths)
      let missing := (found.filter (·.2.isNone)).map (·.1)
      if missing.isEmpty then .ok (dedupe (found.flatMap fun p => p.2.getD []))
      else .error (.noMatch missing)

/-- The files of the arguments, or the configured ones if there are no
    arguments. -/
def resolveOr (r : Resolver) (patterns configured : List String) :
    Except ResolveError (List String) :=
  if patterns.isEmpty then
    if configured.isEmpty then .error .noFiles else .ok configured
  else r.resolve patterns

end Resolver

end MarkupLint
