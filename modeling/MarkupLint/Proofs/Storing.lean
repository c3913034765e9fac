import Mathlib.Data.List.Perm.Subperm
import MarkupLint.Cache.Store
import MarkupLint.Proofs.Filing

/-! # What a cache shows

    Whatever its backend, a cache shows at most one entry for a key
    (`Cache.shown?`), and what it answers can be read off that entry and the
    time (`Cache.get_fst`).  Keeping a result replaces the entry of its key,
    deleting takes it away, clearing takes all of them away; looking a key up
    and pruning drop nothing but what is over (`Shed`).

    All of that holds of a sound cache.  In memory there is room for all keys,
    so none is dropped for another; in a directory every file is that of a
    result; no key has two entries. -/

namespace MarkupLint

/-! ## Tables -/

namespace Data.Table

variable {α : Type} {t : Table α}

/-- A key has the value that it was set to last. -/
theorem get?_set (t : Table α) (key : String) (value : α) (other : String) :
    (t.set key value).get? other = if other = key then some value else t.get? other := by
  split
  · rename_i h
    rw [h, get?_set_self]
  · rename_i h
    exact get?_set_of_ne t value h

/-- A key that is erased has none. -/
theorem get?_erase (t : Table α) (key other : String) :
    (t.erase key).get? other = if other = key then none else t.get? other := by
  split
  · rename_i h
    rw [h, get?_erase_self]
  · rename_i h
    exact get?_erase_of_ne t h

/-- What is left of a table without repeats. -/
theorem get?_filter (h : t.keys.Nodup) (p : String × α → Bool) (key : String) :
    get? (t.filter p) key = (t.get? key).filter fun v => p (key, v) := by
  induction t with
  | nil => rfl
  | cons first rest ih =>
    obtain ⟨k, v⟩ := first
    obtain ⟨hk, hrest⟩ := List.nodup_cons.mp h
    rw [List.filter_cons, get?_cons]
    by_cases hkey : k = key
    · subst hkey
      have hnone : get? rest k = none := (get?_eq_none_iff _ _).mpr hk
      rw [if_pos rfl]
      cases hp : p (k, v) with
      | true => simp [get?_cons, Option.filter_some, hp]
      | false => simp [ih hrest, hnone, Option.filter_some, hp]
    · rw [if_neg hkey, ← ih hrest]
      cases hp : p (k, v) with
      | true => simp [get?_cons, hkey]
      | false => simp

end Data.Table

/-- A part of a list and the rest. -/
theorem length_filter_not_add_countP {α : Type} (l : List α) (p : α → Bool) :
    (l.filter fun a => !p a).length + l.countP p = l.length := by
  rw [← List.countP_eq_length_filter, Nat.add_comm]
  refine (congrArg _ (List.countP_congr fun a _ => ?_)).trans
    (List.length_eq_countP_add_countP p).symm
  simp

/-! ## What libraries are relied on for -/

/-- Of what there was nothing is lost but what is over. -/
def Shed {α : Type} (isOver : α → Bool) (before after : Option α) : Prop :=
  after = before ∨ after = before.filter fun a => !isOver a

/-- What is shed is shed under another form, if it is over in that form too. -/
theorem Shed.map {α β : Type} {isOver : α → Bool} {isOver' : β → Bool} {before after : Option α}
    (h : Shed isOver before after) {f : α → β}
    (hover : ∀ a, isOver a = true → isOver' (f a) = true) :
    Shed isOver' (before.map f) (after.map f) := by
  rcases h with rfl | rfl
  · exact .inl rfl
  · cases before with
    | none => exact .inl rfl
    | some a =>
      cases ha : isOver a with
      | true => simp [Shed, Option.filter_some, ha, hover a ha]
      | false => simp [Shed, Option.filter_some, ha]

/-- What a store of entries is relied on for.  Under each key it holds an entry
    up to a time, and answers with it until then; entries of which the time is
    over may be gone whenever it is used.  If there is room for all keys none
    is dropped for another. -/
class LawfulRecencyStore (σ : Nat → Int → Type) [RecencyStore σ] where
  /-- What is held under a key, and up to when. -/
  held? {size : Nat} {lifetime : Int} (s : σ size lifetime) (key : String) :
    Option (CacheEntry × Int)
  held?_empty (size : Nat) (lifetime : Int) (key : String) :
    held? (RecencyStore.empty size lifetime : σ size lifetime) key = none
  get_fst {size : Nat} {lifetime : Int} (s : σ size lifetime) (now : Int) (key : String) :
    (RecencyStore.get s now key).1
      = ((held? s key).filter fun p => decide (now ≤ p.2)).map (·.1)
  held?_get {size : Nat} {lifetime : Int} (s : σ size lifetime) (now : Int) (key k : String) :
    Shed (fun p => decide (p.2 < now)) (held? s k) (held? (RecencyStore.get s now key).2 k)
  held?_add {size : Nat} {lifetime : Int} (s : σ size lifetime) (now : Int) (key : String)
    (e : CacheEntry) {keys : List String} (lasting : 0 < lifetime)
    (known : ∀ k, held? s k ≠ none → k ∈ keys) (mem : key ∈ keys) (room : keys.length ≤ size) :
    held? (RecencyStore.add s now key e) key = some (e, now + lifetime) ∧ ∀ k ≠ key,
      Shed (fun p => decide (p.2 < now)) (held? s k) (held? (RecencyStore.add s now key e) k)
  held?_remove {size : Nat} {lifetime : Int} (s : σ size lifetime) (key k : String) :
    held? (RecencyStore.remove s key) k = if k = key then none else held? s k
  held?_purge {size : Nat} {lifetime : Int} (s : σ size lifetime) (key : String) :
    held? (RecencyStore.purge s) key = none

/-- What a table of rows is relied on for: one row for each key, found, replaced
    and dropped as is said, and counted rightly. -/
class LawfulRowStore (ρ : Type) [RowStore ρ] where
  /-- The row of a key. -/
  row? (t : ρ) (key : String) : Option (Bytes × Int)
  row?_empty (key : String) : row? (RowStore.empty : ρ) key = none
  select?_eq (t : ρ) (key : String) (now : Int) :
    RowStore.select? t key now = ((row? t key).filter fun row => decide (now < row.2)).map (·.1)
  row?_replace (t : ρ) (key : String) (bytes : Bytes) (time : Int) (k : String) :
    row? (RowStore.replace t key bytes time) k = if k = key then some (bytes, time) else row? t k
  row?_delete (t : ρ) (key k : String) :
    row? (RowStore.delete t key) k = if k = key then none else row? t k
  row?_deleteAll (t : ρ) (key : String) : row? (RowStore.deleteAll t) key = none
  row?_deleteOver (t : ρ) (now : Int) (key : String) :
    row? (RowStore.deleteOver t now).2 key = (row? t key).filter fun row => decide (now < row.2)
  deleteOver_fst (t : ρ) (now : Int) : (RowStore.deleteOver t now).1 = RowStore.countOver t now
  countOver_deleteOver (t : ρ) (now : Int) :
    RowStore.countOver (RowStore.deleteOver t now).2 now = 0
  count_deleteOver (t : ρ) (now : Int) :
    RowStore.count (RowStore.deleteOver t now).2 + RowStore.countOver t now = RowStore.count t

namespace RecencyList

variable {size : Nat} {lifetime : Int} {s : RecencyList size lifetime} {key : String}

/-- The front of the list has the entry that was used last, and the others are
    what they were. -/
theorem get?_front (s : RecencyList size lifetime) (key : String) (p : CacheEntry × Int)
    (k : String) :
    (s.front key p).entries.get? k = if k = key then some p else s.entries.get? k := by
  rw [front, Data.Table.get?_cons, Data.Table.get?_erase]
  by_cases hk : k = key
  · rw [if_pos hk.symm, if_pos hk]
  · rw [if_neg (Ne.symm hk), if_neg hk, if_neg hk]

/-- Nothing is dropped if there is room for all keys. -/
theorem bounded_eq {keys : List String} (known : ∀ k, s.entries.get? k ≠ none → k ∈ keys)
    (room : keys.length ≤ size) : s.bounded = s := by
  have hsub : s.entries.keys ⊆ keys := fun k hk =>
    known k fun hnone => (Data.Table.get?_eq_none_iff _ _).mp hnone hk
  have hlength := (List.subperm_of_subset s.distinct hsub).length_le
  rw [Data.Table.keys, List.length_map] at hlength
  simp only [bounded, List.take_of_length_le (hlength.trans room)]

end RecencyList

instance : LawfulRecencyStore RecencyList where
  held? s key := s.entries.get? key
  held?_empty _ _ _ := rfl
  get_fst s now key := by
    simp only [RecencyStore.get]
    cases s.entries.get? key with
    | none => rfl
    | some p => by_cases hover : p.2 < now <;> simp [Option.filter_some, hover]
  held?_get s now key k := by
    left
    simp only [RecencyStore.get]
    cases hfound : s.entries.get? key with
    | none => rfl
    | some p =>
      dsimp only
      split
      · rfl
      · rw [RecencyList.get?_front]
        split
        · rename_i hk
          rw [hk, hfound]
        · rfl
  held?_add {size lifetime} s now key e {keys} _ known mem room := by
    have hall : (s.front key (e, now + lifetime)).bounded = s.front key (e, now + lifetime) := by
      refine RecencyList.bounded_eq (fun k hk => ?_) room
      rw [RecencyList.get?_front] at hk
      split at hk
      · rename_i heq
        exact heq ▸ mem
      · exact known k hk
    simp only [RecencyStore.add, hall, RecencyList.get?_front]
    exact ⟨if_pos trivial, fun k hk => .inl (if_neg hk)⟩
  held?_remove _ _ _ := Data.Table.get?_erase ..
  held?_purge _ _ := rfl

instance : LawfulRowStore RowTable where
  row? t key := t.rows.get? key
  row?_empty _ := rfl
  select?_eq _ _ _ := rfl
  row?_replace _ _ _ _ _ := Data.Table.get?_set ..
  row?_delete _ _ _ := Data.Table.get?_erase ..
  row?_deleteAll _ _ := rfl
  row?_deleteOver t _ _ := Data.Table.get?_filter t.distinct _ _
  deleteOver_fst _ _ := rfl
  countOver_deleteOver t now := by
    change (t.rows.filter fun p => RowTable.isLive now p.2).countP _ = 0
    rw [List.countP_filter]
    simp
  count_deleteOver t now := by
    have hlength := length_filter_not_add_countP t.rows fun p => !RowTable.isLive now p.2
    simp only [Bool.not_not] at hlength
    exact hlength

open CacheKey (IsDigest)

variable {keys : List String} {key other : String} {now : Int} {e : CacheEntry}
  {σ : Nat → Int → Type} [RecencyStore σ] [LawfulRecencyStore σ]
  {ρ : Type} [RowStore ρ] [LawfulRowStore ρ]

/-! ## Memory -/

namespace MemoryCache

open LawfulRecencyStore (held?)

variable {c : MemoryCache σ}

/-- An entry that is held up to a time. -/
def kept (p : CacheEntry × Int) : CacheEntry := { p.1 with expiresAt := min p.1.expiresAt p.2 }

/-- The entry of a key. -/
def shown? (c : MemoryCache σ) (key : String) : Option CacheEntry :=
  (held? c.store key).map kept

/-- The time that a store adds does not touch the records. -/
theorem records_kept (p : CacheEntry × Int) : (kept p).records = p.1.records := rfl

/-- An entry in memory is over when either of its times has passed. -/
theorem isExpired_kept (p : CacheEntry × Int) :
    (kept p).isExpired now = (p.1.isExpired now || decide (p.2 < now)) := by
  simp only [CacheEntry.isExpired, kept, ← Bool.decide_or]
  exact decide_eq_decide.mpr (by omega)

/-- There is room for the results of some keys, and there are no others. -/
structure Sound (keys : List String) (c : MemoryCache σ) : Prop where
  known : ∀ k, held? c.store k ≠ none → k ∈ keys
  room : keys.length ≤ c.size

/-- What is answered is the entry that is shown, unless it is over. -/
theorem get_fst (c : MemoryCache σ) (now : Int) (key : String) :
    (c.get now key).1 = ((c.shown? key).filter fun e => !e.isExpired now).map (·.records) := by
  have hfound := LawfulRecencyStore.get_fst c.store now key
  rw [get, shown?]
  generalize RecencyStore.get c.store now key = r at hfound ⊢
  obtain ⟨found, store⟩ := r
  obtain rfl : found = _ := hfound
  cases held? c.store key with
  | none => rfl
  | some p =>
    by_cases hheld : p.2 < now
    · simp [Option.filter_some, hheld, Int.not_le.mpr hheld, isExpired_kept]
    · by_cases hover : p.1.isExpired now = true <;>
        simp [Option.filter_some, Int.not_lt.mp hheld, hheld, hover, isExpired_kept, records_kept]

/-- Looking a key up drops nothing but what is over. -/
theorem shed_get (c : MemoryCache σ) (now : Int) (key k : String) :
    Shed (·.isExpired now) (c.shown? k) ((c.get now key).2.shown? k) := by
  have hfound := LawfulRecencyStore.get_fst c.store now key
  have hstore := LawfulRecencyStore.held?_get c.store now key k
  have hshed : Shed (·.isExpired now) (c.shown? k)
      ((held? (RecencyStore.get c.store now key).2 k).map kept) :=
    hstore.map fun p hp => by rw [isExpired_kept, hp, Bool.or_true]
  rw [get]
  generalize RecencyStore.get c.store now key = r at hfound hshed ⊢
  obtain ⟨found, store⟩ := r
  cases found with
  | none => exact hshed
  | some e =>
    dsimp only
    split
    -- What was found is over by its own time and taken out.
    · rename_i hover
      rw [shown?]
      change Shed _ _ ((held? (RecencyStore.remove store key) k).map kept)
      rw [LawfulRecencyStore.held?_remove]
      split
      · rename_i hk
        obtain ⟨p, hp, rfl⟩ := Option.map_eq_some_iff.mp hfound.symm
        right
        simp [hk, (Option.filter_eq_some_iff.mp hp).1, Option.filter_some, isExpired_kept, hover]
      · exact hshed
    · exact hshed

/-- A key that is shown after shedding was shown before. -/
theorem known_of_shed {isOver : CacheEntry × Int → Bool}
    {before after : Option (CacheEntry × Int)} (h : Shed isOver before after)
    (hsome : after ≠ none) : before ≠ none := by
  rintro rfl
  rcases h with rfl | rfl <;> exact hsome rfl

/-- Removing a key leaves only known keys and room for them. -/
theorem Sound.remove {store : σ c.size c.lifetime} (h : c.Sound keys)
    (hknown : ∀ k, held? store k ≠ none → k ∈ keys) (key : String) (counts : CacheCounts) :
    Sound keys { c with store := RecencyStore.remove store key, counts := counts } where
  known := fun k hk => by
    rw [LawfulRecencyStore.held?_remove] at hk
    split at hk
    · exact absurd rfl hk
    · exact hknown k hk
  room := h.room

/-- Looking a key up may only shed entries. -/
theorem Sound.get (h : c.Sound keys) (now : Int) (key : String) :
    (c.get now key).2.Sound keys := by
  have hknown : ∀ k, held? (RecencyStore.get c.store now key).2 k ≠ none → k ∈ keys :=
    fun k hk => h.known k (known_of_shed (LawfulRecencyStore.held?_get c.store now key k) hk)
  rw [MemoryCache.get]
  generalize RecencyStore.get c.store now key = r at hknown ⊢
  obtain ⟨found, store⟩ := r
  cases found with
  | none => exact ⟨hknown, h.room⟩
  | some e =>
    dsimp only
    split
    · exact h.remove hknown key _
    · exact ⟨hknown, h.room⟩

/-- Nothing is dropped to keep a result. -/
theorem Sound.shown?_set (h : c.Sound keys) (hkey : key ∈ keys) (now : Int) (e : CacheEntry) :
    (c.set now key e).shown? key
        = some { e with expiresAt := min e.expiresAt (now + c.lifetime) }
      ∧ ∀ k ≠ key, Shed (·.isExpired now) (c.shown? k) ((c.set now key e).shown? k) := by
  obtain ⟨hself, hothers⟩ :=
    LawfulRecencyStore.held?_add c.store now key e c.lifetime_pos h.known hkey h.room
  refine ⟨congrArg (Option.map kept) hself, fun k hk => ?_⟩
  exact (hothers k hk).map fun p hp => by rw [isExpired_kept, hp, Bool.or_true]

/-- There is room for a known key. -/
theorem Sound.set (h : c.Sound keys) (hkey : key ∈ keys) (now : Int) (e : CacheEntry) :
    (c.set now key e).Sound keys where
  known := fun k hk => by
    by_cases heq : k = key
    · exact heq ▸ hkey
    · exact h.known k (known_of_shed ((LawfulRecencyStore.held?_add c.store now key e
        c.lifetime_pos h.known hkey h.room).2 k heq) hk)
  room := h.room

/-- A deleted key is shown no more. -/
theorem shown?_delete (c : MemoryCache σ) (key other : String) :
    (c.delete key).shown? other = if other = key then none else c.shown? other := by
  change (held? (RecencyStore.remove c.store key) other).map kept = _
  rw [LawfulRecencyStore.held?_remove]
  split <;> rfl

/-- Nothing is shown once all is cleared. -/
theorem shown?_clear (c : MemoryCache σ) (key : String) : c.clear.shown? key = none :=
  congrArg (Option.map kept) (LawfulRecencyStore.held?_purge c.store key)

omit [LawfulRecencyStore σ] in
/-- Looking a key up leaves the lifetime of the store. -/
theorem lifetime_get (c : MemoryCache σ) (now : Int) (key : String) :
    (c.get now key).2.lifetime = c.lifetime := by
  rw [get]
  split
  · rfl
  · split <;> rfl

omit [LawfulRecencyStore σ] in
/-- It counts as a hit or as a miss. -/
theorem counts_get (c : MemoryCache σ) (now : Int) (key : String) :
    (c.get now key).2.counts = c.counts.hit ∨ (c.get now key).2.counts = c.counts.miss := by
  rw [get]
  split
  · exact .inr rfl
  · split
    · exact .inr rfl
    · exact .inl rfl

end MemoryCache

/-! ## Files -/

variable [CacheCodec]

namespace DirectoryCache

variable {c : DirectoryCache}

/-- The entry of a key. -/
def shown? (c : DirectoryCache) (key : String) : Option CacheEntry :=
  (c.files.get? (c.path key)).bind CacheCodec.entry.decode?

/-- The files are those of results, and the directory is one that there can
    be. -/
structure Sound (c : DirectoryCache) : Prop where
  named : '\x00' ∉ c.base.toList
  distinct : c.files.keys.Nodup
  filed : ∀ p ∈ c.files, ∃ key e, IsDigest key ∧ p = (c.path key, CacheCodec.entry.encode e)

/-- What is answered is the entry of the file, unless it is over. -/
theorem get_fst (c : DirectoryCache) (now : Int) (key : String) :
    (c.get now key).1 = ((c.shown? key).filter fun e => !e.isExpired now).map (·.records) := by
  rw [get, shown?]
  cases c.files.get? (c.path key) with
  | none => rfl
  | some content =>
    simp only [Option.bind_some]
    cases CacheCodec.entry.decode? content with
    | none => rfl
    | some e => by_cases hover : e.isExpired now = true <;> simp [Option.filter_some, hover]

omit [CacheCodec] in
/-- Nothing is shown for another key if the file of one is removed. -/
theorem get?_erase_path (hkey : IsDigest key) (hother : IsDigest other) (c : DirectoryCache) :
    (c.files.erase (c.path key)).get? (c.path other)
      = if other = key then none else c.files.get? (c.path other) := by
  rw [Data.Table.get?_erase]
  exact if_congr (path_inj hother hkey c) rfl rfl

/-- Only the file of the key is removed, for keys that are digests have files
    of their own. -/
theorem shown?_delete (hkey : IsDigest key) (hother : IsDigest other) (c : DirectoryCache) :
    (c.delete key).shown? other = if other = key then none else c.shown? other := by
  have herase := get?_erase_path hkey hother c
  rw [shown?, delete]
  change ((c.files.erase (c.path key)).get? (c.path other)).bind _ = _
  rw [herase]
  split <;> rfl

/-- Looking a key up drops nothing but what is over. -/
theorem shed_get (hkey : IsDigest key) (hother : IsDigest other) (c : DirectoryCache)
    (now : Int) :
    Shed (·.isExpired now) (c.shown? other) ((c.get now key).2.shown? other) := by
  -- A file is removed only if it shows nothing, or what is over.
  have hremoved : (∀ e ∈ c.shown? key, e.isExpired now = true) →
      Shed (·.isExpired now) (c.shown? other) ((c.delete key).shown? other) := by
    intro hover
    rw [shown?_delete hkey hother]
    by_cases hsame : other = key
    · rw [if_pos hsame, hsame]
      right
      cases hshown : c.shown? key with
      | none => rfl
      | some e => simp [Option.filter_some, hover e hshown]
    · rw [if_neg hsame]
      exact .inl rfl
  have hshown : c.shown? key = (c.files.get? (c.path key)).bind CacheCodec.entry.decode? := rfl
  rw [get]
  cases hfile : c.files.get? (c.path key) with
  | none => exact .inl rfl
  | some content =>
    rw [hfile, Option.bind_some] at hshown
    dsimp only
    cases hread : CacheCodec.entry.decode? content with
    | none => exact hremoved fun e he => by rw [hshown, hread] at he; cases he
    | some e =>
      dsimp only
      split
      · rename_i hover
        refine hremoved fun e' he => ?_
        rw [hshown, hread] at he
        exact Option.some.inj he ▸ hover
      · exact .inl rfl

/-- Looking a key up counts as a hit or as a miss. -/
theorem counts_get (c : DirectoryCache) (now : Int) (key : String) :
    (c.get now key).2.counts = c.counts.hit ∨ (c.get now key).2.counts = c.counts.miss := by
  rw [get]
  split
  · exact .inr rfl
  · split
    · split
      · exact .inr rfl
      · exact .inl rfl
    · exact .inr rfl

/-- Keeping a result counts as neither. -/
theorem counts_set (c : DirectoryCache) (key : String) (e : CacheEntry) :
    (c.set key e).counts = c.counts := by
  rw [set]
  split <;> rfl

/-- Pruning takes out what is over, and counts it. -/
theorem prune_stats (c : DirectoryCache) (now : Int) :
    (c.prune now).1 = (c.stats now).expired ∧ ((c.prune now).2.stats now).expired = 0
      ∧ ((c.prune now).2.stats now).entries + (c.prune now).1 = (c.stats now).entries := by
  obtain ⟨entries, hentries⟩ : ∃ entries, entries = c.files.filter fun p => c.holds p.1 :=
    ⟨_, rfl⟩
  have hcount : (c.prune now).1 = entries.countP fun p => isStale now p.2 := by
    rw [hentries, List.countP_filter]
    exact List.countP_congr fun p _ => by rw [Bool.and_comm]
  have hleft : ((c.prune now).2.files.filter fun p => c.holds p.1)
      = entries.filter fun p => !isStale now p.2 := by
    rw [hentries, prune, List.filter_filter, List.filter_filter]
    refine List.filter_congr fun p _ => ?_
    change (c.holds p.1 && !(c.holds p.1 && _)) = (_ && c.holds p.1)
    cases c.holds p.1 <;> simp
  refine ⟨?_, ?_, ?_⟩
  · rw [stats, ← hentries]
    exact hcount
  · change ((c.prune now).2.files.filter fun p => c.holds p.1).countP _ = 0
    rw [hleft, List.countP_filter]
    simp
  · change ((c.prune now).2.files.filter fun p => c.holds p.1).length + (c.prune now).1
      = (c.files.filter fun p => c.holds p.1).length
    rw [hleft, hcount, ← hentries]
    exact length_filter_not_add_countP _ _

namespace Sound

/-- A directory with some of the files. -/
theorem filter (h : c.Sound) (p : String × Bytes → Bool) (counts : CacheCounts) :
    Sound { c with files := c.files.filter p, counts := counts } where
  named := h.named
  distinct := Data.Table.nodup_keys_filter h.distinct p
  filed := fun q hq => h.filed q (List.mem_of_mem_filter hq)

/-- A file that is removed leaves files of results only. -/
theorem get (h : c.Sound) (now : Int) (key : String) : (c.get now key).2.Sound := by
  have hsame : ∀ counts, Sound { c with counts := counts } := fun _ =>
    ⟨h.named, h.distinct, h.filed⟩
  rw [DirectoryCache.get]
  split
  · exact hsame _
  · split
    · split
      · exact h.filter _ _
      · exact hsame _
    · exact h.filter _ _

/-- The file of a digest can always be written. -/
theorem set_eq (h : c.Sound) (hkey : IsDigest key) (e : CacheEntry) :
    c.set key e
      = { c with files := c.files.set (c.path key) (CacheCodec.entry.encode e) } := by
  rw [DirectoryCache.set, if_pos]
  refine canWrite_path hkey h.named fun p hp => ?_
  obtain ⟨q, hq, rfl⟩ := List.mem_map.mp hp
  obtain ⟨k, e, hk, rfl⟩ := h.filed q hq
  exact ⟨k, hk, rfl⟩

/-- What is written is read back, for an entry can be decoded from its
    encoding. -/
theorem shown?_set (h : c.Sound) (hkey : IsDigest key) (hother : IsDigest other)
    (e : CacheEntry) :
    (c.set key e).shown? other = if other = key then some e else c.shown? other := by
  rw [h.set_eq hkey, shown?]
  change ((c.files.set (c.path key) _).get? (c.path other)).bind _ = _
  rw [Data.Table.get?_set, if_congr (path_inj hother hkey c) rfl rfl]
  split
  · exact CacheCodec.entry.decode?_encode e
  · rfl

/-- The file that is written is that of a result. -/
theorem set (h : c.Sound) (hkey : IsDigest key) (e : CacheEntry) : (c.set key e).Sound := by
  rw [h.set_eq hkey]
  refine ⟨h.named, Data.Table.nodup_keys_set h.distinct, fun p hp => ?_⟩
  have hget := Data.Table.get?_of_mem (Data.Table.nodup_keys_set h.distinct) hp
  rw [Data.Table.get?_set] at hget
  split at hget
  · rename_i hpath
    exact ⟨key, e, hkey, Prod.ext hpath (Option.some.inj hget).symm⟩
  · exact h.filed p (Data.Table.mem_of_get? hget)

/-- Nothing is left of the directory. -/
theorem clear_files (h : c.Sound) : c.clear.files = [] := by
  refine List.filter_eq_nil_iff.mpr fun p hp => ?_
  obtain ⟨key, e, hkey, rfl⟩ := h.filed p hp
  simp [isWithin_path hkey c]

/-- Pruning removes the files of results that are over. -/
theorem shown?_prune (h : c.Sound) (hkey : IsDigest key) (now : Int) :
    (c.prune now).2.shown? key = (c.shown? key).filter fun e => !e.isExpired now := by
  rw [shown?, shown?, prune]
  change (Data.Table.get? (c.files.filter _) (c.path key)).bind _ = _
  rw [Data.Table.get?_filter h.distinct]
  cases c.files.get? (c.path key) with
  | none => rfl
  | some content =>
    cases hread : CacheCodec.entry.decode? content with
    | none => simp [Option.filter_some, holds_path hkey c, isStale, hread]
    | some e =>
      by_cases hover : e.isExpired now = true <;>
        simp [Option.filter_some, hover, holds_path hkey c, isStale, hread]

end Sound

end DirectoryCache

/-! ## A database -/

namespace DatabaseCache

open LawfulRowStore (row?)

variable {c : DatabaseCache ρ}

/-- The entry that a row holds, if its bytes are those of records. -/
def entry? (row : Bytes × Int) : Option CacheEntry :=
  (CacheCodec.records.decode? row.1).map fun records => ⟨records, row.2⟩

/-- The entry of a key. -/
def shown? (c : DatabaseCache ρ) (key : String) : Option CacheEntry :=
  (row? c.rows key).bind entry?

/-- Whether a row with an entry is found no longer. -/
def isOver (now : Int) (e : CacheEntry) : Bool := decide (e.expiresAt ≤ stamp now)

/-- What is answered is the row of the key, unless it is over. -/
theorem get_fst (c : DatabaseCache ρ) (now : Int) (key : String) :
    (c.get now key).1 = ((c.shown? key).filter fun e => !isOver now e).map (·.records) := by
  rw [get, LawfulRowStore.select?_eq, shown?]
  cases row? c.rows key with
  | none => rfl
  | some row =>
    rw [Option.bind_some, entry?, Option.filter_some]
    by_cases hlive : stamp now < row.2
    · simp only [hlive, decide_true, if_true, Option.map_some]
      cases CacheCodec.records.decode? row.1 with
      | none => rfl
      | some records => simp [Option.filter_some, isOver, hlive]
    · simp only [hlive, decide_false, Bool.false_eq_true, if_false, Option.map_none]
      cases CacheCodec.records.decode? row.1 with
      | none => rfl
      | some records => simp [Option.filter_some, isOver, Int.not_lt.mp hlive]

/-- A deleted key has no row. -/
theorem shown?_delete (c : DatabaseCache ρ) (key other : String) :
    (c.delete key).shown? other = if other = key then none else c.shown? other := by
  change (row? (RowStore.delete c.rows key) other).bind entry? = _
  rw [LawfulRowStore.row?_delete]
  split <;> rfl

/-- No row is left once all is cleared. -/
theorem shown?_clear (c : DatabaseCache ρ) (key : String) : c.clear.shown? key = none :=
  congrArg (Option.bind · entry?) (LawfulRowStore.row?_deleteAll c.rows key)

/-- The row has the time as a word, so a time that fits into one is kept. -/
theorem shown?_set (c : DatabaseCache ρ) (key : String) (e : CacheEntry) (other : String) :
    (c.set key e).shown? other = if other = key
      then some { e with expiresAt := stamp e.expiresAt } else c.shown? other := by
  change (row? (RowStore.replace c.rows key _ _) other).bind entry? = _
  rw [LawfulRowStore.row?_replace]
  split
  · rw [Option.bind_some, entry?, CacheCodec.records.decode?_encode]
    rfl
  · rfl

/-- A row is dropped when it is looked up only if it shows nothing. -/
theorem shown?_get (c : DatabaseCache ρ) (now : Int) (key other : String) :
    (c.get now key).2.shown? other = c.shown? other := by
  rw [get]
  split
  · rfl
  · rename_i bytes hselect
    split
    · rename_i hread
      rw [LawfulRowStore.select?_eq] at hselect
      obtain ⟨row, hrow, rfl⟩ := Option.map_eq_some_iff.mp hselect
      refine (c.shown?_delete key other).trans ?_
      split
      · rename_i hsame
        rw [hsame, shown?, (Option.filter_eq_some_iff.mp hrow).1, Option.bind_some, entry?, hread]
        rfl
      · rfl
    · rfl

/-- Pruning removes the rows that are over. -/
theorem shown?_prune (c : DatabaseCache ρ) (now : Int) (key : String) :
    (c.prune now).2.shown? key = (c.shown? key).filter fun e => !isOver now e := by
  change (row? (RowStore.deleteOver c.rows (stamp now)).2 key).bind entry? = _
  rw [LawfulRowStore.row?_deleteOver, shown?]
  cases row? c.rows key with
  | none => rfl
  | some row =>
    rw [Option.bind_some, Option.filter_some]
    by_cases hlive : stamp now < row.2
    · simp only [hlive, decide_true, if_true, Option.bind_some, entry?]
      cases CacheCodec.records.decode? row.1 with
      | none => rfl
      | some records => simp [Option.filter_some, isOver, hlive]
    · simp only [hlive, decide_false, Bool.false_eq_true, if_false, Option.bind_none, entry?]
      cases CacheCodec.records.decode? row.1 with
      | none => rfl
      | some records => simp [Option.filter_some, isOver, Int.not_lt.mp hlive]

omit [LawfulRowStore ρ] in
/-- Looking a key up counts as a hit or as a miss. -/
theorem counts_get (c : DatabaseCache ρ) (now : Int) (key : String) :
    (c.get now key).2.counts = c.counts.hit ∨ (c.get now key).2.counts = c.counts.miss := by
  rw [get]
  split
  · exact .inr rfl
  · split
    · exact .inr rfl
    · exact .inl rfl

omit [CacheCodec] in
/-- Pruning takes out what is over, and counts it. -/
theorem prune_stats (c : DatabaseCache ρ) (now : Int) :
    (c.prune now).1 = (c.stats now).expired ∧ ((c.prune now).2.stats now).expired = 0
      ∧ ((c.prune now).2.stats now).entries + (c.prune now).1 = (c.stats now).entries := by
  have hcount := LawfulRowStore.deleteOver_fst c.rows (stamp now)
  refine ⟨hcount, LawfulRowStore.countOver_deleteOver c.rows (stamp now), ?_⟩
  change _ + (RowStore.deleteOver c.rows (stamp now)).1 = _
  rw [hcount]
  exact LawfulRowStore.count_deleteOver c.rows (stamp now)

end DatabaseCache

/-! ## Any backend -/

namespace Cache

variable {c d : Cache σ ρ} {records : List Record} {lifetime : Int}

/-- The entry that a cache shows for a key. -/
def shown? : Cache σ ρ → String → Option CacheEntry
  | .none, _ => Option.none
  | .memory c, key => c.shown? key
  | .directory c, key => c.shown? key
  | .database c, key => c.shown? key

/-- Whether a cache answers with an entry no longer. -/
def isOver : Cache σ ρ → Int → CacheEntry → Bool
  | .none, _, _ => true
  | .memory _, now, e | .directory _, now, e => e.isExpired now
  | .database _, now, e => DatabaseCache.isOver now e

/-- Up to when a cache keeps what it is given at a time for a time. -/
def expiry : Cache σ ρ → Int → Int → Int
  | .memory c, now, lifetime => min (now + lifetime) (now + c.lifetime)
  | .database _, now, lifetime => DatabaseCache.stamp (now + lifetime)
  | _, now, lifetime => now + lifetime

/-- How often a cache was asked. -/
def counts : Cache σ ρ → CacheCounts
  | .none => {}
  | .memory c => c.counts
  | .directory c => c.counts
  | .database c => c.counts

/-- What a cache that is pruned says of itself before and after: what was over
    is gone, and it was counted. -/
def Prunes (c : Cache σ ρ) (now : Int) : Prop :=
  ∃ n before after, (c.prune? now).1 = some n ∧ c.stats? now = some before
    ∧ (c.prune? now).2.stats? now = some after
    ∧ n = before.expired ∧ after.expired = 0 ∧ after.entries + n = before.entries

/-- A cache that holds results of some keys and has room for all of them. -/
def Sound (keys : List String) : Cache σ ρ → Prop
  | .none => False
  | .memory c => c.Sound keys
  | .directory c => c.Sound
  | .database _ => True

/-- A database tells times apart that a row can hold. -/
def Tells (c : Cache σ ρ) (time : Int) : Prop :=
  ∀ d, c = .database d → Text.fitsWord time = true

omit [RecencyStore σ] [LawfulRecencyStore σ] [RowStore ρ] [LawfulRowStore ρ] [CacheCodec] in
/-- What is over stays so. -/
theorem isOver_mono {later : Int} (hnow : c.Tells now) (hlater : c.Tells later)
    (hle : now ≤ later) (h : c.isOver now e = true) : c.isOver later e = true := by
  cases c with
  | none => rfl
  | memory c | directory c =>
    rw [isOver, CacheEntry.isExpired, decide_eq_true_eq] at h ⊢
    exact Int.lt_of_lt_of_le h hle
  | database c =>
    simp only [isOver, DatabaseCache.isOver, decide_eq_true_eq, DatabaseCache.stamp,
      Text.wrapWord_of_fits (hnow c rfl), Text.wrapWord_of_fits (hlater c rfl)] at h ⊢
    exact Int.le_trans h hle

/-- A cache answers with the entry of a key unless it is over. -/
theorem get_fst (c : Cache σ ρ) (now : Int) (key : String) :
    (c.get now key).1 = ((c.shown? key).filter fun e => !c.isOver now e).map (·.records) := by
  cases c with
  | none => rfl
  | memory c => exact c.get_fst now key
  | directory c => exact c.get_fst now key
  | database c => exact c.get_fst now key

omit [LawfulRecencyStore σ] in
/-- Only a cache in memory is not pruned. -/
theorem prunes_or_memory (c : Cache σ ρ) (hsome : c ≠ .none) (now : Int) :
    c.Prunes now ∨ ∃ m, c = .memory m := by
  cases c with
  | none => exact absurd rfl hsome
  | memory m => exact .inr ⟨m, rfl⟩
  | directory c => exact .inl ⟨_, _, _, rfl, rfl, rfl, c.prune_stats now⟩
  | database c => exact .inl ⟨_, _, _, rfl, rfl, rfl, c.prune_stats now⟩

/-- By the backends: looking a key up sheds only what is over. -/
theorem shed_get (hkey : IsDigest key) (hother : IsDigest other) (c : Cache σ ρ) (now : Int) :
    Shed (c.isOver now) (c.shown? other) ((c.get now key).2.shown? other) := by
  cases c with
  | none => exact .inl rfl
  | memory c => exact c.shed_get now key other
  | directory c => exact DirectoryCache.shed_get hkey hother c now
  | database c => exact .inl (c.shown?_get now key other)

namespace Sound

/-- A result is kept in place of what was shown for its key, and nothing else
    is lost but what is over. -/
theorem shown?_set (h : c.Sound keys) (hmem : key ∈ keys) (hkey : IsDigest key) :
    (c.set now key records lifetime).shown? key
        = some { records := records, expiresAt := c.expiry now lifetime }
      ∧ ∀ other, IsDigest other → other ≠ key →
        Shed (c.isOver now) (c.shown? other) ((c.set now key records lifetime).shown? other) := by
  cases c with
  | none => cases h
  | memory c =>
    obtain ⟨hself, hothers⟩ := MemoryCache.Sound.shown?_set h hmem now ⟨records, now + lifetime⟩
    exact ⟨hself, fun other _ hne => hothers other hne⟩
  | directory c =>
    have hset : ∀ other, IsDigest other → (c.set key ⟨records, now + lifetime⟩).shown? other
        = if other = key then some ⟨records, now + lifetime⟩ else c.shown? other :=
      fun _ hother => DirectoryCache.Sound.shown?_set h hkey hother _
    exact ⟨(hset key hkey).trans (if_pos rfl), fun other hother hne =>
      .inl ((hset other hother).trans (if_neg hne))⟩
  | database c =>
    have hset := c.shown?_set key ⟨records, now + lifetime⟩
    exact ⟨(hset key).trans (if_pos rfl), fun other _ hne =>
      .inl ((hset other).trans (if_neg hne))⟩

/-- By the backends: a deleted key is shown no more. -/
theorem shown?_delete (h : c.Sound keys) (hkey : IsDigest key) (hother : IsDigest other) :
    (c.delete key).shown? other = if other = key then Option.none else c.shown? other := by
  cases c with
  | none => cases h
  | memory c => exact c.shown?_delete key other
  | directory c => exact DirectoryCache.shown?_delete hkey hother c
  | database c => exact c.shown?_delete key other

/-- By the backends: nothing is shown once all is cleared. -/
theorem shown?_clear (h : c.Sound keys) (key : String) : c.clear.shown? key = Option.none := by
  cases c with
  | none => cases h
  | memory c => exact c.shown?_clear key
  | directory c =>
    change (Data.Table.get? c.clear.files _).bind _ = _
    rw [DirectoryCache.Sound.clear_files h]
    rfl
  | database c => exact c.shown?_clear key

/-- By the backends: pruning sheds only what is over. -/
theorem shed_prune (h : c.Sound keys) (hkey : IsDigest key) (now : Int) :
    Shed (c.isOver now) (c.shown? key) ((c.prune? now).2.shown? key) := by
  cases c with
  | none => cases h
  | memory c => exact .inl rfl
  | directory c => exact .inr (DirectoryCache.Sound.shown?_prune h hkey now)
  | database c => exact .inr (c.shown?_prune now key)

omit [LawfulRowStore ρ] in
/-- Looking a key up keeps a cache sound. -/
theorem get (h : c.Sound keys) (now : Int) (key : String) : (c.get now key).2.Sound keys := by
  cases c with
  | none => cases h
  | memory c => exact MemoryCache.Sound.get h now key
  | directory c => exact DirectoryCache.Sound.get h now key
  | database c => trivial

omit [LawfulRowStore ρ] in
/-- So does keeping a result under a known digest. -/
theorem set (h : c.Sound keys) (hmem : key ∈ keys) (hkey : IsDigest key) :
    (c.set now key records lifetime).Sound keys := by
  cases c with
  | none => cases h
  | memory c => exact MemoryCache.Sound.set h hmem now _
  | directory c => exact DirectoryCache.Sound.set h hkey _
  | database c => trivial

omit [LawfulRowStore ρ] in
/-- So does deleting a key. -/
theorem delete (h : c.Sound keys) (key : String) : (c.delete key).Sound keys := by
  cases c with
  | none => cases h
  | memory c => exact MemoryCache.Sound.remove h h.known key _
  | directory c => exact DirectoryCache.Sound.filter h _ _
  | database c => trivial

omit [LawfulRowStore ρ] in
/-- So does clearing the cache. -/
theorem clear (h : c.Sound keys) : c.clear.Sound keys := by
  cases c with
  | none => cases h
  | memory c =>
    exact ⟨fun k hk => absurd (LawfulRecencyStore.held?_purge c.store k) hk, h.room⟩
  | directory c => exact DirectoryCache.Sound.filter h _ _
  | database c => trivial

omit [LawfulRowStore ρ] in
/-- So does pruning it. -/
theorem prune (h : c.Sound keys) (now : Int) : (c.prune? now).2.Sound keys := by
  cases c with
  | none => cases h
  | memory c => exact h
  | directory c => exact DirectoryCache.Sound.filter h _ _
  | database c => trivial

end Sound

end Cache

end MarkupLint
