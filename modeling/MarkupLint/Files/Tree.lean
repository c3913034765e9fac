import MarkupLint.Data.Bytes
import MarkupLint.Data.Table
import MarkupLint.Files.Path

/-! # File trees

    The files below a working directory.  A directory is there if it is
    listed or something is listed below it.  Of what lies outside nothing
    is known but what reading it gives. -/

namespace MarkupLint

/-- What a name in a file tree stands for. -/
inductive FileEntry where
  | file (content : Bytes)
  | directory
  deriving DecidableEq, Repr, Inhabited

/-- Why a file cannot be read. -/
inductive FileError where
  | notFound
  | notDirectory
  | isDirectory
  | invalid
  /-- The path leads out of the tree. -/
  | outside
  /-- The operating system does not permit it. -/
  | denied
  /-- Another reason of the operating system's. -/
  | other (operation reason : String)
  deriving DecidableEq, Repr, Inhabited

namespace FileError

/-- The operating system's words for it. -/
def reason : FileError → String
  | .notFound | .outside => "no such file or directory"
  | .notDirectory => "not a directory"
  | .isDirectory => "is a directory"
  | .invalid => "invalid argument"
  | .denied => "permission denied"
  | .other _ reason => reason

/-- What failed. -/
def operation : FileError → String
  | .isDirectory => "read"
  | .other operation _ => operation
  | _ => "open"

/-- The complaint about reading a path. -/
def message (e : FileError) (path : String) : String :=
  e.operation ++ " " ++ path ++ ": " ++ e.reason

end FileError

/-- Whether a path is the root or leads up from the working directory and
    nowhere else. -/
def Path.isAround (path : String) : Bool :=
  let parts := Path.parts path
  parts.all (· = "..") && (Path.isAbs path || !parts.isEmpty)

/-- Files and directories by their clean paths. -/
structure FileTree where
  entries : Data.Table FileEntry := []
  /-- What reading a path that leads out of the tree gives. -/
  beyond : String → Except FileError Bytes := fun path =>
    .error (if Path.isAround path then .isDirectory else .notFound)
  /-- Why what stands at a path cannot be read, if something is in the way. -/
  barrier? : String → Option FileError := fun _ => none
  deriving Inhabited

namespace FileTree

/-- Puts a file or a directory at a path; the root is always there. -/
def put (t : FileTree) (path : String) (e : FileEntry) : FileTree :=
  let path := Path.clean path
  if path = "." then t else { t with entries := t.entries.set path e }

/-- Whether `path` is below the directory `dir`. -/
def isBelow (dir path : String) : Bool :=
  dir = "." || Text.startsWith (dir ++ "/").toList path.toList

/-- What stands at a clean path. -/
def standing? (t : FileTree) (path : String) : Option FileEntry :=
  if path = "." then some .directory
  else match t.entries.get? path with
    | some e => some e
    | none => if t.entries.any fun p => isBelow path p.1 then some .directory else none

/-- Follows the names of a path from a directory; `done` holds the names so
    far in reverse. -/
def follow (t : FileTree) (done : List String) : List String → Except FileError String
  | [] => .ok (if done.isEmpty then "." else "/".intercalate done.reverse)
  | ".." :: rest =>
    match done with
    | _ :: before => follow t before rest
    | [] => .error .outside
  | name :: rest =>
    let path := "/".intercalate (name :: done).reverse
    match t.standing? path with
    | none => .error .notFound
    | some .directory => follow t (name :: done) rest
    | some (.file _) => if rest.isEmpty then .ok path else .error .notDirectory

/-- The clean path that a path leads to. -/
def resolve (t : FileTree) (path : String) : Except FileError String :=
  if path = "" then .error .notFound
  else if Path.isAbs path then .error .outside
  else if path.toList.contains '\x00' then .error .invalid
  else
    match t.follow [] (Path.parts path) with
    | .ok p =>
      if path.toList.getLast? = some '/' && (t.standing? p matches some (.file _)) then
        .error .notDirectory
      else .ok p
    | .error e => .error e

/-- What a path leads to. -/
def stat (t : FileTree) (path : String) : Except FileError FileEntry := do
  let p ← t.resolve path
  match t.standing? p with
  | some e => .ok e
  | none => .error .notFound

/-- The content of the file a path leads to. -/
def read (t : FileTree) (path : String) : Except FileError Bytes :=
  match t.barrier? path with
  | some e => .error e
  | none =>
    match t.stat path with
    | .ok (.file content) => .ok content
    | .ok .directory => .error .isDirectory
    | .error .outside => t.beyond path
    | .error e => .error e

/-- The paths of the files at and below a path, in order. -/
def filesAt (t : FileTree) (path : String) : List String :=
  let path := Path.clean path
  let found := t.entries.filterMap fun (p, entry) =>
    if entry ≠ .directory && (p = path || isBelow path p) then some p else none
  found.mergeSort fun a b => a ≤ b

end FileTree

end MarkupLint
