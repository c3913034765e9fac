import MarkupLint.Cache.Entry
import MarkupLint.Files.Tree

/-! # Results in files

    One file for each result, in a tree of directories named after the
    first bytes of the keys. -/

namespace MarkupLint

/-- A directory of results. -/
structure DirectoryCache where
  /-- The directory. -/
  base : String
  /-- The contents of the files by path. -/
  files : Data.Table Bytes := []
  counts : CacheCounts := {}

namespace DirectoryCache

/-- What the name of every entry ends in. -/
def extension : String := ".msgpack"

/-- The longest name that a file can have, in bytes. -/
def longestName : Nat := 255

/-- A key with whatever file names do not allow replaced. -/
def safeKey (key : String) : String :=
  key.map fun c => if "/\\:*?\"<>|".toList.contains c then '_' else c

/-- The path of the file for a key. -/
def path (c : DirectoryCache) (key : String) : String :=
  let safe := safeKey key
  let bytes := packText safe
  let dir :=
    if 4 ≤ bytes.length then
      Path.join (Path.join c.base (unpackText (bytes.take 2)))
        (unpackText ((bytes.drop 2).take 2))
    else c.base
  Path.join dir (safe ++ extension)

/-- Whether a file can be written at a path. -/
def canWrite (c : DirectoryCache) (path : String) : Bool :=
  (packText (Path.base path)).length ≤ longestName && !path.toList.contains '\x00'
    && !c.files.any fun p => FileTree.isBelow p.1 path

/-- Whether a path lies in a directory; everything that starts at the root
    lies in it. -/
def isWithin (base path : String) : Bool :=
  if Path.clean base = "/" then Path.isAbs path else FileTree.isBelow (Path.clean base) path

/-- Whether a path is that of an entry of this directory. -/
def holds (c : DirectoryCache) (path : String) : Bool :=
  isWithin c.base path && Text.endsWith extension.toList path.toList

variable [CacheCodec]

/-- Whether what is in a file is no longer of use. -/
def isStale (now : Int) (content : Bytes) : Bool :=
  match CacheCodec.entry.decode? content with
  | some e => e.isExpired now
  | none => true

/-- Looks a key up.  A file that is of no use is removed. -/
def get (c : DirectoryCache) (now : Int) (key : String) :
    Option (List Record) × DirectoryCache :=
  match c.files.get? (c.path key) with
  | none => (none, { c with counts := c.counts.miss })
  | some content =>
    match CacheCodec.entry.decode? content with
    | some e =>
      if e.isExpired now then
        (none, { c with files := c.files.erase (c.path key), counts := c.counts.miss })
      else (some e.records, { c with counts := c.counts.hit })
    | none => (none, { c with files := c.files.erase (c.path key), counts := c.counts.miss })

/-- Keeps a result, if its file can be written. -/
def set (c : DirectoryCache) (key : String) (e : CacheEntry) : DirectoryCache :=
  if c.canWrite (c.path key) then
    { c with files := c.files.set (c.path key) (CacheCodec.entry.encode e) }
  else c

/-- Removes the file of a key. -/
def delete (c : DirectoryCache) (key : String) : DirectoryCache :=
  { c with files := c.files.erase (c.path key) }

/-- Removes everything in the directory. -/
def clear (c : DirectoryCache) : DirectoryCache :=
  { c with files := c.files.filter fun p => !isWithin c.base p.1 }

/-- Counts the entries. -/
def stats (c : DirectoryCache) (now : Int) : CacheStats :=
  let entries := c.files.filter fun p => c.holds p.1
  { entries := entries.length, expired := entries.countP fun p => isStale now p.2
    counts := c.counts }

/-- Removes the entries that are of no use and counts them. -/
def prune (c : DirectoryCache) (now : Int) : Nat × DirectoryCache :=
  let stale (p : String × Bytes) : Bool := c.holds p.1 && isStale now p.2
  (c.files.countP stale, { c with files := c.files.filter fun p => !stale p })

/-- The paths of all files in the directory, in order. -/
def layout (c : DirectoryCache) : List String :=
  (c.files.keys.filter (isWithin c.base)).mergeSort fun a b => a ≤ b

/-- The directory as it stands in a file tree. -/
def load (t : FileTree) (base : String) : DirectoryCache where
  base := base
  files := t.entries.filterMap fun (path, entry) =>
    match entry with
    | .file content =>
      if isWithin base path then some (path, content) else none
    | .directory => none

/-- Writes the directory to a file tree. -/
def save (c : DirectoryCache) (t : FileTree) : FileTree :=
  let kept := t.entries.filter fun (path, entry) =>
    entry == .directory || !isWithin c.base path || c.files.has path
  let t : FileTree := { entries := kept }
  c.files.foldl (fun t (path, content) => t.put path (.file content)) (t.put c.base .directory)

end DirectoryCache

end MarkupLint
