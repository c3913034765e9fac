import MarkupLint.Cache.Backend
import MarkupLint.Cache.Database
import MarkupLint.Cache.Directory
import MarkupLint.Cache.Memory

/-! # Caches

    One cache with any of the backends.  A key is answered with the records
    that were last kept under it, or not at all. -/

namespace MarkupLint

namespace FileTree

/-- Makes a directory and those above it; what cannot be made is named. -/
def makeDirectories (t : FileTree) (path : String) : Except (String × FileError) FileTree :=
  let names := Path.parts path
  let root := if Path.isAbs path then "/" else ""
  let above := (List.range names.length).map fun n => root ++ "/".intercalate (names.take (n + 1))
  match above.find? fun p => t.standing? (Path.clean p) matches some (.file _) with
  | some p => .error (p, .notDirectory)
  | none =>
    if path.toList.contains '\x00' then .error (path, .invalid)
    else .ok (if names.isEmpty then t else t.put path .directory)

end FileTree

/-- A cache of results, in memory or in a database by means of some libraries. -/
inductive Cache (σ : Nat → Int → Type := RecencyList) (ρ : Type := RowTable) where
  | none
  | memory (c : MemoryCache σ)
  | directory (c : DirectoryCache)
  | database (c : DatabaseCache ρ)

namespace Cache

variable {σ : Nat → Int → Type} [RecencyStore σ] {ρ : Type} [RowStore ρ] [CacheCodec]

/-- The path of a database that is not kept. -/
def unkeptDatabase : String := ":memory:"

/-- Opens a database file. -/
def openDatabase (t : FileTree) (path : String) : Except CacheError (Cache σ ρ) :=
  match t.standing? (Path.clean path) with
  | some .directory => .error (.unopenable path)
  | some (.file content) =>
    match RowStore.ofFile? content with
    | some rows => .ok (.database { path := some path, rows := rows })
    | .none => .error (.notDatabase path)
  | .none => .ok (.database { path := some path, rows := RowStore.empty })

/-- Opens a cache. -/
def openWith (s : CacheSettings) (t : FileTree) : Except CacheError (Cache σ ρ) :=
  match s.backend with
  | .none => .ok .none
  | .memory =>
    .ok (.memory {
      size := s.room, lifetime := s.longest, size_pos := s.room_pos, lifetime_pos := s.longest_pos
      store := RecencyStore.empty _ _ })
  | .files =>
    if s.path = "" then .error (.needsPath .files)
    else match t.makeDirectories s.path with
      | .error (path, e) => .error (.noDirectory path e)
      | .ok _ => .ok (.directory (DirectoryCache.load t s.path))
  | .database =>
    if s.path = "" then .error (.needsPath .database)
    else if s.path = unkeptDatabase then
      .ok (.database { path := Option.none, rows := RowStore.empty })
    else match t.makeDirectories (Path.dir s.path) with
      | .error (path, e) => .error (.noDirectory path e)
      | .ok _ => openDatabase t s.path

/-- Opens a cache whose backend is given by name. -/
def openNamed (backend : String) (s : CacheSettings) (t : FileTree) : Except CacheError Cache :=
  match Backend.named.lookup backend with
  | some b => Cache.openWith { s with backend := b } t
  | .none => .error (.unknownBackend backend)

/-- Writes to a file tree whatever outlives the cache. -/
def save (c : Cache σ ρ) (t : FileTree) : FileTree :=
  match c with
  | .none => t
  | .memory _ => t
  | .directory c => c.save t
  | .database c =>
    match c.path with
    | some path => t.put path (.file (RowStore.file c.rows))
    | .none => t

/-- Looks a key up. -/
def get (c : Cache σ ρ) (now : Int) (key : String) : Option (List Record) × Cache σ ρ :=
  match c with
  | .none => (Option.none, .none)
  | .memory c => (c.get now key).map id .memory
  | .directory c => (c.get now key).map id .directory
  | .database c => (c.get now key).map id .database

/-- Keeps records under a key for a time. -/
def set (c : Cache σ ρ) (now : Int) (key : String) (records : List Record) (lifetime : Int) :
    Cache σ ρ :=
  let e : CacheEntry := { records := records, expiresAt := now + lifetime }
  match c with
  | .none => .none
  | .memory c => .memory (c.set now key e)
  | .directory c => .directory (c.set key e)
  | .database c => .database (c.set key e)

/-- Drops what is kept under a key. -/
def delete (c : Cache σ ρ) (key : String) : Cache σ ρ :=
  match c with
  | .none => .none
  | .memory c => .memory (c.delete key)
  | .directory c => .directory (c.delete key)
  | .database c => .database (c.delete key)

/-- Drops everything. -/
def clear (c : Cache σ ρ) : Cache σ ρ :=
  match c with
  | .none => .none
  | .memory c => .memory c.clear
  | .directory c => .directory c.clear
  | .database c => .database c.clear

/-- What the cache says about itself, if it can. -/
def stats? (c : Cache σ ρ) (now : Int) : Option CacheStats :=
  match c with
  | .none => Option.none
  | .memory c => some c.stats
  | .directory c => some (c.stats now)
  | .database c => some (c.stats now)

/-- Drops what has expired, in a cache that keeps it until then, and counts
    what was dropped. -/
def prune? (c : Cache σ ρ) (now : Int) : Option Nat × Cache σ ρ :=
  match c with
  | .none => (Option.none, .none)
  | .memory c => (Option.none, .memory c)
  | .directory c => ((c.prune now).map some .directory)
  | .database c => ((c.prune now).map some .database)

end Cache

end MarkupLint
