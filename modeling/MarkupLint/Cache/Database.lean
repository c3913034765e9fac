import MarkupLint.Cache.Entry
import MarkupLint.Data.Table
import MarkupLint.Text.Integer

/-! # Results in a database

    One row for each key, in a table that a library keeps (`RowStore`).  A row
    holds the records as bytes and the time it is over in nanoseconds, as a
    machine integer: a time beyond those wraps around.  A row that is over is
    not found, but stays until such rows are dropped. -/

namespace MarkupLint

/-- A table of rows, each with a key, some bytes and a time. -/
class RowStore (ρ : Type) where
  empty : ρ
  /-- The bytes of the row of a key, if its time is after some time. -/
  select? (t : ρ) (key : String) (now : Int) : Option Bytes
  /-- Adds a row in place of that of the key. -/
  replace (t : ρ) (key : String) (bytes : Bytes) (expiresAt : Int) : ρ
  delete (t : ρ) (key : String) : ρ
  deleteAll (t : ρ) : ρ
  count (t : ρ) : Nat
  /-- How many rows have a time that is not after some time. -/
  countOver (t : ρ) (now : Int) : Nat
  /-- Drops the rows whose time is not after some time, and counts them. -/
  deleteOver (t : ρ) (now : Int) : Nat × ρ
  /-- The file of a table. -/
  file (t : ρ) : Bytes
  /-- Reads the file of a table. -/
  ofFile? (bytes : Bytes) : Option ρ

/-- A database of results. -/
structure DatabaseCache (ρ : Type) where
  /-- The database file; none if the database is not kept. -/
  path : Option String
  rows : ρ
  counts : CacheCounts := {}

namespace DatabaseCache

/-- A time as a row holds it. -/
def stamp (time : Int) : Int := Text.wrapWord time

variable {ρ : Type} [RowStore ρ]

/-- Drops the row of a key. -/
def delete (c : DatabaseCache ρ) (key : String) : DatabaseCache ρ :=
  { c with rows := RowStore.delete c.rows key }

/-- Drops every row. -/
def clear (c : DatabaseCache ρ) : DatabaseCache ρ := { c with rows := RowStore.deleteAll c.rows }

/-- Counts the rows. -/
def stats (c : DatabaseCache ρ) (now : Int) : CacheStats :=
  { entries := RowStore.count c.rows, expired := RowStore.countOver c.rows (stamp now)
    counts := c.counts }

/-- Drops the expired rows and counts them. -/
def prune (c : DatabaseCache ρ) (now : Int) : Nat × DatabaseCache ρ :=
  let (n, rows) := RowStore.deleteOver c.rows (stamp now)
  (n, { c with rows := rows })

variable [CacheCodec]

/-- Looks a key up.  A row whose bytes are not those of records is dropped. -/
def get (c : DatabaseCache ρ) (now : Int) (key : String) :
    Option (List Record) × DatabaseCache ρ :=
  match RowStore.select? c.rows key (stamp now) with
  | none => (none, { c with counts := c.counts.miss })
  | some bytes =>
    match CacheCodec.records.decode? bytes with
    | none => (none, { c.delete key with counts := c.counts.miss })
    | some records => (some records, { c with counts := c.counts.hit })

/-- Keeps a result in place of what was kept for the key. -/
def set (c : DatabaseCache ρ) (key : String) (e : CacheEntry) : DatabaseCache ρ :=
  { c with rows :=
      RowStore.replace c.rows key (CacheCodec.records.encode e.records) (stamp e.expiresAt) }

end DatabaseCache

/-! ## A list of rows -/

/-- Rows by key, in the order in which their keys came in. -/
structure RowTable where
  rows : Data.Table (Bytes × Int)
  distinct : rows.keys.Nodup

namespace RowTable

/-- Whether the time of a row is after some time. -/
def isLive (now : Int) (row : Bytes × Int) : Bool := decide (now < row.2)

/-- How rows are packed. -/
def packing : Data.Packing (Data.Table (Bytes × Int)) :=
  .list <| .pair .text <| .pair .bytes .int

/-- Reads rows; an empty file is one without rows. -/
def ofFile? (bytes : Bytes) : Option RowTable := do
  let rows : Data.Table (Bytes × Int) ←
    if bytes.isEmpty then some [] else packing.codec.decode? bytes
  if h : rows.keys.Nodup then some ⟨rows, h⟩ else none

end RowTable

instance : RowStore RowTable where
  empty := ⟨[], List.nodup_nil⟩
  select? t key now := ((t.rows.get? key).filter (RowTable.isLive now)).map (·.1)
  replace t key bytes expiresAt :=
    ⟨t.rows.set key (bytes, expiresAt), Data.Table.nodup_keys_set t.distinct⟩
  delete t key := ⟨t.rows.erase key, Data.Table.nodup_keys_filter t.distinct _⟩
  deleteAll _ := ⟨[], List.nodup_nil⟩
  count t := t.rows.length
  countOver t now := t.rows.countP fun p => !RowTable.isLive now p.2
  deleteOver t now :=
    (t.rows.countP fun p => !RowTable.isLive now p.2,
      ⟨t.rows.filter fun p => RowTable.isLive now p.2,
        Data.Table.nodup_keys_filter t.distinct _⟩)
  file t := RowTable.packing.write t.rows
  ofFile? := RowTable.ofFile?

end MarkupLint
