import MarkupLint.Cache.Entry
import MarkupLint.Data.Table

/-! # Results in memory

    A library keeps a bounded number of entries, of which the one not used for
    the longest time is dropped first, and none for longer than a time that
    all of them have in common (`RecencyStore`).  An entry of which the own
    time is over is taken out when it is looked up. -/

namespace MarkupLint

/-- A store of entries, of a size and with a time that each is held at most. -/
class RecencyStore (σ : Nat → Int → Type) where
  empty (size : Nat) (lifetime : Int) : σ size lifetime
  /-- Looks a key up; what is found is used last. -/
  get {size : Nat} {lifetime : Int} (s : σ size lifetime) (now : Int) (key : String) :
    Option CacheEntry × σ size lifetime
  /-- Holds an entry from a time on; one that was not used is dropped if there
      are too many. -/
  add {size : Nat} {lifetime : Int} (s : σ size lifetime) (now : Int) (key : String)
    (e : CacheEntry) : σ size lifetime
  remove {size : Nat} {lifetime : Int} (s : σ size lifetime) (key : String) : σ size lifetime
  /-- Takes everything out. -/
  purge {size : Nat} {lifetime : Int} (s : σ size lifetime) : σ size lifetime
  /-- How many entries there are. -/
  length {size : Nat} {lifetime : Int} (s : σ size lifetime) : Nat

/-- Results in memory. -/
structure MemoryCache (σ : Nat → Int → Type) where
  /-- How many results are kept at most. -/
  size : Nat
  /-- How long a result is kept at most, in nanoseconds. -/
  lifetime : Int
  size_pos : 0 < size
  lifetime_pos : 0 < lifetime
  store : σ size lifetime
  counts : CacheCounts := {}

namespace MemoryCache

variable {σ : Nat → Int → Type} [RecencyStore σ]

/-- Looks a key up.  What has expired is dropped. -/
def get (c : MemoryCache σ) (now : Int) (key : String) : Option (List Record) × MemoryCache σ :=
  match RecencyStore.get c.store now key with
  | (none, store) => (none, { c with store := store, counts := c.counts.miss })
  | (some e, store) =>
    if e.isExpired now then
      (none, { c with store := RecencyStore.remove store key, counts := c.counts.miss })
    else (some e.records, { c with store := store, counts := c.counts.hit })

/-- Keeps a result from a time on. -/
def set (c : MemoryCache σ) (now : Int) (key : String) (e : CacheEntry) : MemoryCache σ :=
  { c with store := RecencyStore.add c.store now key e }

/-- Drops the result of a key. -/
def delete (c : MemoryCache σ) (key : String) : MemoryCache σ :=
  { c with store := RecencyStore.remove c.store key }

/-- Drops every result. -/
def clear (c : MemoryCache σ) : MemoryCache σ := { c with store := RecencyStore.purge c.store }

/-- The number of results; which of them have expired is not known. -/
def stats (c : MemoryCache σ) : CacheStats :=
  { entries := RecencyStore.length c.store, expired := 0, counts := c.counts }

end MemoryCache

/-! ## A list of what was used last -/

/-- Entries by key, the last used first, each with the time up to which it is
    held. -/
structure RecencyList (size : Nat) (lifetime : Int) where
  entries : Data.Table (CacheEntry × Int)
  distinct : entries.keys.Nodup

namespace RecencyList

variable {size : Nat} {lifetime : Int}

/-- Puts an entry in front of the others. -/
def front (s : RecencyList size lifetime) (key : String) (p : CacheEntry × Int) :
    RecencyList size lifetime where
  entries := (key, p) :: s.entries.erase key
  distinct := Data.Table.nodup_keys_front s.distinct key p

/-- Drops the entries that there is no room for. -/
def bounded (s : RecencyList size lifetime) : RecencyList size lifetime where
  entries := s.entries.take size
  distinct := s.distinct.sublist ((List.take_sublist _ _).map _)

/-- The entries but that of a key. -/
def without (s : RecencyList size lifetime) (key : String) : RecencyList size lifetime where
  entries := s.entries.erase key
  distinct := Data.Table.nodup_keys_filter s.distinct _

end RecencyList

instance : RecencyStore RecencyList where
  empty _ _ := ⟨[], List.nodup_nil⟩
  get s now key :=
    match s.entries.get? key with
    | none => (none, s)
    | some (e, held) => if held < now then (none, s) else (some e, s.front key (e, held))
  add {_ lifetime} s now key e := (s.front key (e, now + lifetime)).bounded
  remove s key := s.without key
  purge _ := ⟨[], List.nodup_nil⟩
  length s := s.entries.length

end MarkupLint
