import MarkupLint.Data.Bytes
import MarkupLint.Diagnostic.Record
import MarkupLint.Text.Encoding

/-! # Cache entries

    The records of one result and when they are no longer to be used.  How
    both are written to bytes is for a library to say; all that is relied on
    is that they are read back (`CacheCodec`). -/

namespace MarkupLint

/-- One result that is kept. -/
structure CacheEntry where
  records : List Record
  /-- The time up to which the result may be used, in nanoseconds. -/
  expiresAt : Int
  deriving DecidableEq, Repr, Inhabited

/-- Whether an entry can no longer be used. -/
def CacheEntry.isExpired (now : Int) (e : CacheEntry) : Bool := decide (e.expiresAt < now)

/-- How often a cache was asked with and without success. -/
structure CacheCounts where
  hits : Nat := 0
  misses : Nat := 0
  deriving DecidableEq, Repr, Inhabited

namespace CacheCounts

/-- Counts a success. -/
def hit (c : CacheCounts) : CacheCounts := { c with hits := c.hits + 1 }

/-- Counts a failure. -/
def miss (c : CacheCounts) : CacheCounts := { c with misses := c.misses + 1 }

end CacheCounts

/-- What a cache says about itself. -/
structure CacheStats where
  entries : Nat
  /-- How many of the entries can no longer be used. -/
  expired : Nat
  counts : CacheCounts
  deriving DecidableEq, Repr

/-- A text as bytes. -/
def packText (s : String) : Bytes := s.toUTF8.data.toList

/-- Reads a text from bytes. -/
def unpackText (bytes : Bytes) : String := String.ofList (Text.decodeUtf8 bytes)

/-- How entries and records are written to bytes. -/
class CacheCodec where
  entry : Data.Codec CacheEntry
  records : Data.Codec (List Record)

namespace Data.Packing

/-- Records, field by field. -/
def record : Packing Record :=
  (int.option.pair <| text.pair <| int.pair <| text.pair <| text.pair text).map
    (fun r => (r.line, r.source, r.level.rank, r.type, r.message, r.fullMessage))
    (fun (line, source, rank, type, message, fullMessage) =>
      ⟨line, source, ⟨rank⟩, type, message, fullMessage⟩)
    fun _ => rfl

/-- Entries: their time and their records. -/
def entry : Packing CacheEntry :=
  (int.pair record.list).map (fun e => (e.expiresAt, e.records))
    (fun (expiresAt, records) => ⟨records, expiresAt⟩) fun _ => rfl

end Data.Packing

/-- Entries and records that are packed. -/
instance CacheCodec.packed : CacheCodec where
  entry := Data.Packing.entry.codec
  records := Data.Packing.record.list.codec

end MarkupLint
