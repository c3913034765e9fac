import MarkupLint.Files.Tree
import MarkupLint.Text.Choice

/-! # Cache settings

    Where results are kept: nowhere, in memory, in one file for each
    result, or in one database file. -/

namespace MarkupLint

/-- Where results are kept. -/
inductive Backend where
  | none
  | memory
  | files
  | database
  deriving DecidableEq, Repr, Inhabited

namespace Backend

/-- The name of a backend. -/
def name : Backend → String
  | .none => "none"
  | .memory => "memory"
  | .files => "file"
  | .database => "sqlite"

/-- The backends in the order they are listed. -/
def all : List Backend := [.none, .memory, .files, .database]

/-- The backends by name; no name is that of none. -/
def named : List (String × Backend) := ("", .none) :: all.map fun b => (b.name, b)

/-- Reads the name of a backend. -/
def parse (word : String) : Except Text.UnknownName Backend :=
  Text.choose "cache backend" "none, memory, file or sqlite" named word

end Backend

/-- How results are kept. -/
structure CacheSettings where
  backend : Backend := .none
  /-- The directory of the files, or the database file. -/
  path : String := ""
  /-- The bound on results in memory; the usual one if it is not positive. -/
  size : Int := 0
  /-- How long a result is kept, in nanoseconds; in memory the usual time if it
      is not positive. -/
  lifetime : Int := 0
  deriving DecidableEq, Repr, Inhabited

/-- One second in nanoseconds. -/
def second : Int := 1000000000

/-- How long a result is kept if nothing else is said: a day. -/
def CacheSettings.usualLifetime : Int := 24 * 3600 * second

/-- How many results are kept in memory if nothing else is said. -/
def CacheSettings.usualSize : Nat := 1024

namespace CacheSettings

/-- How many results are kept in memory. -/
def room (s : CacheSettings) : Nat := if 0 < s.size then s.size.toNat else usualSize

/-- How long a result is kept in memory at most. -/
def longest (s : CacheSettings) : Int := if 0 < s.lifetime then s.lifetime else usualLifetime

/-- There is room for one result at least. -/
theorem room_pos (s : CacheSettings) : 0 < s.room := by
  rw [room]
  split
  · omega
  · decide

/-- And some time to keep it. -/
theorem longest_pos (s : CacheSettings) : 0 < s.longest := by
  rw [longest]
  split
  · assumption
  · decide

end CacheSettings

/-- Why a cache cannot be opened. -/
inductive CacheError where
  | needsPath (backend : Backend)
  | unknownBackend (name : String)
  | noDirectory (path : String) (e : FileError)
  /-- The path of the database is that of a directory. -/
  | unopenable (path : String)
  | notDatabase (path : String)
  deriving DecidableEq, Repr

/-- The text of a cache error. -/
def CacheError.message : CacheError → String
  | .needsPath b => "cache: " ++ b.name ++ " backend needs a path"
  | .unknownBackend name => "cache: unknown backend " ++ Text.quoted name
  | .noDirectory path e => "create cache directory: mkdir " ++ path ++ ": " ++ e.reason
  | .unopenable path =>
    "create cache schema in " ++ path ++ ": unable to open database file: out of memory (14)"
  | .notDatabase path => "create cache schema in " ++ path ++ ": file is not a database (26)"

end MarkupLint
