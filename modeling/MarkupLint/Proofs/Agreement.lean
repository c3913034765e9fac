import MarkupLint.Proofs.Storing
import Mathlib.Data.List.Dedup

/-! # Backends agree

    A history is what is asked of a cache, one request after the other.  What
    was last kept under a key can be read off the history alone
    (`Cache.standing?`), and a cache with any backend reflects it: it shows
    just that, or nothing if that is over (`Cache.reflects_after`).  So caches
    with different backends answer alike (`Cache.backends_agree`), though one
    of them drops what is over when it is looked up and another only when it
    is pruned.

    Two moments are left out.  At the very instant at which a result is over
    one backend still answers with it and another does not; and a cache in
    memory may keep nothing as long as a result is to be kept.

    What is left out besides is a defect.  The rows of a database hold times as
    machine integers, so a result that is to be kept beyond the last of these
    is over at once, though with the other backends it is found
    (`Cache.database_forgets`). -/

namespace MarkupLint

open CacheKey (IsDigest)

namespace Cache

/-! ## Histories -/

/-- Something that is asked of a cache. -/
inductive Request where
  | get (now : Int) (key : String)
  | set (now : Int) (key : String) (records : List Record) (lifetime : Int)
  | delete (key : String)
  | clear
  | prune (now : Int)
  deriving DecidableEq, Repr

namespace Request

/-- The key that a request names. -/
def key? : Request → Option String
  | .get _ key | .set _ key _ _ | .delete key => some key
  | .clear | .prune _ => Option.none

/-- The times that a cache has to do with: when a request is made, and up to
    when a result is to be kept. -/
def times : Request → List Int
  | .get now _ | .prune now => [now]
  | .set now _ _ lifetime => [now, now + lifetime]
  | .delete _ | .clear => []

/-- When a request is made, if that matters. -/
def time? : Request → Option Int
  | .get now _ | .set now _ _ _ | .prune now => some now
  | .delete _ | .clear => Option.none

/-- The moment of a request is one of its times. -/
theorem mem_times {r : Request} {time : Int} (h : r.time? = some time) : time ∈ r.times := by
  cases r <;> cases h <;> exact List.mem_cons_self

/-- Whether a result is looked up. -/
def isGet : Request → Bool
  | .get _ _ => true
  | _ => false

/-- Whether what is kept under a key is replaced or taken away. -/
def Replaces (key : String) : Request → Prop
  | .set _ k _ _ | .delete k => k = key
  | .clear => True
  | .get _ _ | .prune _ => False

/-- A result is not looked up at the very instant at which it is over. -/
def Apart : Request → Request → Prop
  | .set start key _ lifetime, .get now k => k = key → now ≠ start + lifetime
  | _, _ => True

/-- A result that is kept for a time at most is not looked up between the end
    of that time and its own. -/
def Outlasted (most : Int) : Request → Request → Prop
  | .set start key _ lifetime, .get now k =>
    k = key → start + most < now → start + lifetime < now
  | _, _ => True

end Request

variable {keys : List String} {key other : String} {now : Int} {r : Request}
  {ops earlier later : List Request}

/-- A history of keys that were made of parts, one request not before the
    other, in which nothing is looked up at the very instant it is over. -/
structure Orderly (ops : List Request) : Prop where
  keys : ∀ key ∈ ops.filterMap Request.key?, ∃ parts, key = CacheKey.ofParts parts
  clock : (ops.filterMap Request.time?).Pairwise (· ≤ ·)
  apart : ops.Pairwise Request.Apart

/-- Some of the requests are in order if all are, in the same turn. -/
theorem Orderly.sublist (h : Orderly ops) (hsub : List.Sublist earlier ops) :
    Orderly earlier where
  keys := fun key hkey => h.keys key ((hsub.filterMap _).subset hkey)
  clock := h.clock.sublist (hsub.filterMap _)
  apart := h.apart.sublist hsub

/-! ## What was last kept -/

/-- Records that are kept from a time on. -/
structure Standing where
  start : Int
  records : List Record
  lifetime : Int

/-- What is kept under a key after a request. -/
def Request.settle (key : String) (was : Option Standing) : Request → Option Standing
  | .set start k records lifetime => if k = key then some ⟨start, records, lifetime⟩ else was
  | .delete k => if k = key then Option.none else was
  | .clear => Option.none
  | .get _ _ | .prune _ => was

/-- What was last kept under a key, if nothing took it away. -/
def standing? (key : String) (ops : List Request) : Option Standing :=
  ops.foldl (Request.settle key) Option.none

/-- The last request settles what stands. -/
theorem standing?_concat (key : String) (ops : List Request) (r : Request) :
    standing? key (ops ++ [r]) = r.settle key (standing? key ops) := by
  rw [standing?, List.foldl_append]
  rfl

/-- A request that does not replace a result leaves what stands. -/
theorem Request.settle_of_not_replaces (h : ¬r.Replaces key) (was : Option Standing) :
    r.settle key was = was := by
  cases r with
  | get now k => rfl
  | prune now => rfl
  | set start k records lifetime => exact if_neg h
  | delete k => exact if_neg h
  | clear => exact absurd trivial h

/-- One that does puts its own result there, or nothing. -/
theorem Request.settle_eq_some_iff (h : r.Replaces key) {was : Option Standing} {s : Standing} :
    r.settle key was = some s ↔ r = .set s.start key s.records s.lifetime := by
  cases r with
  | get now k => cases h
  | prune now => cases h
  | set start k records lifetime =>
    obtain rfl : k = key := h
    obtain ⟨start', records', lifetime'⟩ := s
    simp [settle]
  | delete k =>
    obtain rfl : k = key := h
    simp [settle]
  | clear => simp [settle]

/-- It was kept by some request, and none of the later ones replaced it. -/
theorem standing?_eq_some_iff {s : Standing} :
    standing? key ops = some s ↔ ∃ earlier later : List Request,
      ops = earlier ++ .set s.start key s.records s.lifetime :: later
        ∧ ∀ r ∈ later, ¬r.Replaces key := by
  induction ops using List.reverseRecOn with
  | nil => simp [standing?]
  | append_singleton ops r ih =>
    rw [standing?_concat]
    by_cases hr : r.Replaces key
    · rw [Request.settle_eq_some_iff hr]
      constructor
      · rintro rfl
        exact ⟨ops, [], rfl, nofun⟩
      · rintro ⟨earlier, later, hops, hlater⟩
        -- A request that replaces what was kept is not among those that do not.
        rcases List.eq_nil_or_concat later with rfl | ⟨more, last, rfl⟩
        · exact List.singleton_inj.mp (List.append_inj_right' hops rfl)
        · rw [List.concat_eq_append, ← List.cons_append, ← List.append_assoc] at hops
          have hlast := List.singleton_inj.mp (List.append_inj_right' hops rfl)
          exact absurd hr (hlast ▸ hlater last (by simp))
    · rw [Request.settle_of_not_replaces hr, ih]
      constructor
      · rintro ⟨earlier, later, rfl, hlater⟩
        refine ⟨earlier, later ++ [r], by simp, ?_⟩
        exact List.forall_mem_append.mpr ⟨hlater, List.forall_mem_singleton.mpr hr⟩
      · rintro ⟨earlier, later, hops, hlater⟩
        rcases List.eq_nil_or_concat later with rfl | ⟨more, last, rfl⟩
        · have hlast := List.singleton_inj.mp (List.append_inj_right' hops rfl)
          rw [hlast] at hr
          exact absurd rfl hr
        · rw [List.concat_eq_append, ← List.cons_append, ← List.append_assoc] at hops
          exact ⟨earlier, more, List.append_inj_left' hops rfl,
            fun r hmem => hlater r (by simp [hmem])⟩

/-- The records that were last kept under a key, if their time is not over. -/
def found? (key : String) (now : Int) (ops : List Request) : Option (List Record) :=
  ((standing? key ops).filter fun s => decide (now < s.start + s.lifetime)).map (·.records)

/-- What should be found was kept at some time, is not over, and was not
    replaced since. -/
theorem found?_eq_some_iff {records : List Record} :
    found? key now ops = some records ↔
      ∃ (earlier : List Request) (start lifetime : Int) (later : List Request),
        ops = earlier ++ .set start key records lifetime :: later ∧ now < start + lifetime
          ∧ ∀ r ∈ later, ¬r.Replaces key := by
  rw [found?, Option.map_eq_some_iff]
  constructor
  · rintro ⟨s, hs, rfl⟩
    obtain ⟨hstanding, hlive⟩ := Option.filter_eq_some_iff.mp hs
    obtain ⟨earlier, later, hops, hlater⟩ := standing?_eq_some_iff.mp hstanding
    exact ⟨earlier, s.start, s.lifetime, later, hops, of_decide_eq_true hlive, hlater⟩
  · rintro ⟨earlier, start, lifetime, later, hops, hlive, hlater⟩
    refine ⟨⟨start, records, lifetime⟩, Option.filter_eq_some_iff.mpr ⟨?_, decide_eq_true hlive⟩,
      rfl⟩
    exact standing?_eq_some_iff.mpr ⟨earlier, later, hops, hlater⟩

/-- What a request is to be answered with after a history. -/
def due (ops : List Request) : Request → List (Option (List Record))
  | .get now key => [found? key now ops]
  | _ => []

/-- What the later requests of a history are to be answered with. -/
def expected (ops : List Request) : List Request → List (Option (List Record))
  | [] => []
  | r :: rest => due ops r ++ expected (ops ++ [r]) rest

/-- Pruning is of no concern to what is expected. -/
theorem expected_prune (now : Int) (earlier mid later : List Request) :
    expected (earlier ++ .prune now :: mid) later = expected (earlier ++ mid) later := by
  have hstanding : ∀ (key : String) (mid : List Request), standing? key (earlier ++ .prune now :: mid)
      = standing? key (earlier ++ mid) := fun key mid => by
    rw [standing?, standing?, List.foldl_append, List.foldl_append]
    rfl
  induction later generalizing mid with
  | nil => rfl
  | cons r rest ih =>
    have hdue : due (earlier ++ .prune now :: mid) r = due (earlier ++ mid) r := by
      cases r with
      | get t key => rw [due, due, found?, found?, hstanding]
      | set _ _ _ _ | delete _ | clear | prune _ => rfl
    rw [expected, expected, hdue, List.append_assoc, List.cons_append, ih, List.append_assoc]

/-! ## One request -/

section Stores

variable {σ : Nat → Int → Type} [RecencyStore σ] {ρ : Type} [RowStore ρ] [CacheCodec]
  {c d : Cache σ ρ}

/-- A cache after a request. -/
def act (c : Cache σ ρ) : Request → Cache σ ρ
  | .get now key => (c.get now key).2
  | .set now key records lifetime => c.set now key records lifetime
  | .delete key => c.delete key
  | .clear => c.clear
  | .prune now => (c.prune? now).2

/-- A cache after a history. -/
def after (c : Cache σ ρ) (ops : List Request) : Cache σ ρ := ops.foldl act c

/-- The last request is served by the cache that the others left. -/
theorem after_concat (c : Cache σ ρ) (ops : List Request) (r : Request) :
    c.after (ops ++ [r]) = (c.after ops).act r := by
  rw [after, List.foldl_append]
  rfl

/-- What a request is answered with, if it is to be answered. -/
def reply (c : Cache σ ρ) : Request → List (Option (List Record))
  | .get now key => [(c.get now key).1]
  | _ => []

/-- What the requests of a history are answered with. -/
def answers (c : Cache σ ρ) : List Request → List (Option (List Record))
  | [] => []
  | r :: rest => c.reply r ++ answers (c.act r) rest

/-- A cache keeps its backend, and its bound on lifetimes if it has one. -/
theorem act_cases (c : Cache σ ρ) (r : Request) :
    c = .none ∧ c.act r = .none
      ∨ (∃ m n, c = .memory m ∧ c.act r = .memory n ∧ n.lifetime = m.lifetime)
      ∨ (∃ m n, c = .directory m ∧ c.act r = .directory n)
      ∨ ∃ m n, c = .database m ∧ c.act r = .database n := by
  cases c with
  | none => cases r <;> exact .inl ⟨rfl, rfl⟩
  | memory c =>
    refine .inr (.inl ?_)
    cases r with
    | get now key => exact ⟨_, _, rfl, rfl, c.lifetime_get now key⟩
    | set _ _ _ _ | delete _ | clear | prune _ => exact ⟨_, _, rfl, rfl, rfl⟩
  | directory c => cases r <;> exact .inr (.inr (.inl ⟨_, _, rfl, rfl⟩))
  | database c => cases r <;> exact .inr (.inr (.inr ⟨_, _, rfl, rfl⟩))

/-- When an entry is over is settled by the kind of a cache, which no request
    changes. -/
theorem isOver_act (c : Cache σ ρ) (r : Request) : (c.act r).isOver = c.isOver := by
  obtain ⟨rfl, hd⟩ | ⟨m, n, rfl, hd, -⟩ | ⟨m, n, rfl, hd⟩ | ⟨m, n, rfl, hd⟩ := c.act_cases r
  · rw [hd]
  all_goals
    rw [hd]
    rfl

/-- So is the time that an entry is given. -/
theorem expiry_act (c : Cache σ ρ) (r : Request) : (c.act r).expiry = c.expiry := by
  obtain ⟨rfl, hd⟩ | ⟨m, n, rfl, hd, hsame⟩ | ⟨m, n, rfl, hd⟩ | ⟨m, n, rfl, hd⟩ := c.act_cases r
  · rw [hd]
  · funext start lifetime
    rw [hd, expiry, expiry, hsame]
  · rw [hd]
    rfl
  · rw [hd]
    rfl

/-- A cache that is there stays there. -/
theorem act_ne_none (hsome : c ≠ .none) (r : Request) : c.act r ≠ .none := by
  obtain ⟨rfl, -⟩ | ⟨m, n, -, hd, -⟩ | ⟨m, n, -, hd⟩ | ⟨m, n, -, hd⟩ := c.act_cases r
  · exact absurd rfl hsome
  all_goals
    rw [hd]
    exact nofun

/-- The entry in which a cache keeps records. -/
def entryOf (c : Cache σ ρ) (s : Standing) : CacheEntry where
  records := s.records
  expiresAt := c.expiry s.start s.lifetime

/-- How an entry is kept is settled by the kind of a cache, too. -/
theorem entryOf_act (c : Cache σ ρ) (r : Request) : (c.act r).entryOf = c.entryOf := by
  funext s
  rw [entryOf, expiry_act]
  rfl

/-- By the requests. -/
theorem isOver_after (c : Cache σ ρ) (ops : List Request) : (c.after ops).isOver = c.isOver := by
  induction ops using List.reverseRecOn with
  | nil => rfl
  | append_singleton ops r ih => rw [after_concat, isOver_act, ih]

/-- By the requests. -/
theorem entryOf_after (c : Cache σ ρ) (ops : List Request) : (c.after ops).entryOf = c.entryOf := by
  induction ops using List.reverseRecOn with
  | nil => rfl
  | append_singleton ops r ih => rw [after_concat, entryOf_act, ih]

/-- A cache in memory has room for the keys of a history, and does not drop
    anything before its time; a database tells the times of the history apart. -/
structure Fits (c : Cache σ ρ) (ops : List Request) : Prop where
  room : ∀ m, c = .memory m → (ops.filterMap Request.key?).dedup.length ≤ m.size
  lasting : ∀ m, c = .memory m → ops.Pairwise (Request.Outlasted m.lifetime)
  tells : ∀ time ∈ ops.flatMap Request.times, c.Tells time

omit [RecencyStore σ] [RowStore ρ] [CacheCodec] in
/-- What fits all of some requests fits some of them. -/
theorem Fits.sublist (h : c.Fits ops) (hsub : List.Sublist earlier ops) : c.Fits earlier := by
  refine ⟨fun m hm => le_trans ?_ (h.room m hm), fun m hm => (h.lasting m hm).sublist hsub,
    fun time htime => h.tells time ?_⟩
  · refine (List.subperm_of_subset (List.nodup_dedup _) fun key hkey => ?_).length_le
    exact List.mem_dedup.mpr ((hsub.filterMap _).subset (List.mem_dedup.mp hkey))
  · obtain ⟨r, hr, hmem⟩ := List.mem_flatMap.mp htime
    exact List.mem_flatMap.mpr ⟨r, hsub.subset hr, hmem⟩

/-- A cache that is there can show its counts. -/
theorem stats?_eq (hsome : c ≠ .none) (now : Int) :
    ∃ s, c.stats? now = some s ∧ s.counts = c.counts := by
  cases c with
  | none => exact absurd rfl hsome
  | memory c | directory c | database c => exact ⟨_, rfl, rfl⟩

/-- Looking a key up counts as a hit or as a miss. -/
theorem counts_get (hsome : c ≠ .none) (now : Int) (key : String) :
    (c.get now key).2.counts = c.counts.hit ∨ (c.get now key).2.counts = c.counts.miss := by
  cases c with
  | none => exact absurd rfl hsome
  | memory c => exact c.counts_get now key
  | directory c => exact c.counts_get now key
  | database c => exact c.counts_get now key

/-- Keeping a result counts as neither. -/
theorem counts_set (c : Cache σ ρ) (now : Int) (key : String) (records : List Record)
    (lifetime : Int) : (c.set now key records lifetime).counts = c.counts := by
  cases c with
  | none | memory c | database c => rfl
  | directory c => exact c.counts_set key _

/-- Every request that looks something up is counted once. -/
theorem counts_act (hsome : c ≠ .none) (r : Request) :
    (c.act r).counts.hits + (c.act r).counts.misses
      = c.counts.hits + c.counts.misses + if r.isGet then 1 else 0 := by
  cases r with
  | get now key =>
    rcases counts_get hsome now key with h | h
    · rw [act, h, CacheCounts.hit]
      simp only [Request.isGet, if_true]
      omega
    · rw [act, h, CacheCounts.miss]
      simp only [Request.isGet, if_true]
      omega
  | set now key records lifetime =>
    rw [act, counts_set]
    rfl
  | delete key => cases c <;> rfl
  | clear => cases c <;> rfl
  | prune now => cases c <;> rfl

/-! ## What a cache reflects -/

variable [LawfulRecencyStore σ]

/-- By the requests: each keeps a cache sound if it is about known digests. -/
theorem Sound.act (h : c.Sound keys) (hr : ∀ k ∈ r.key?, k ∈ keys ∧ IsDigest k) :
    (c.act r).Sound keys := by
  cases r with
  | get now key => exact h.get now key
  | set now key records lifetime =>
    obtain ⟨hmem, hkey⟩ := hr key rfl
    exact h.set hmem hkey
  | delete key => exact h.delete key
  | clear => exact h.clear
  | prune now => exact h.prune now

variable [LawfulRowStore ρ]

/-- What a cache shows for a key is what was last kept under it, or nothing if
    that was over when something was asked. -/
def Reflects (c : Cache σ ρ) (ops : List Request) (key : String) : Prop :=
  c.shown? key = (standing? key ops).map c.entryOf
    ∨ c.shown? key = Option.none ∧ ∃ s, standing? key ops = some s
      ∧ ∃ now ∈ ops.filterMap Request.time?, c.isOver now (c.entryOf s) = true

/-- A request that drops nothing but what is over. -/
theorem Reflects.shed (h : c.Reflects ops key) (htime : r.time? = some now)
    (hshed : Shed (c.isOver now) (c.shown? key) ((c.act r).shown? key)) (hr : ¬r.Replaces key) :
    (c.act r).Reflects (ops ++ [r]) key := by
  have htimes : (ops ++ [r]).filterMap Request.time? = ops.filterMap Request.time? ++ [now] := by
    simp [htime]
  rw [Reflects, standing?_concat, Request.settle_of_not_replaces hr, htimes, isOver_act,
    entryOf_act]
  rcases h with hshown | ⟨hnone, s, hs, t, ht, hover⟩
  -- What is dropped now is over now, and now is a time of the longer history.
  · rcases hshed with hsame | hfiltered
    · exact .inl (hsame.trans hshown)
    · rw [hfiltered, hshown]
      cases hstanding : standing? key ops with
      | none => exact .inl rfl
      | some s =>
        rw [Option.map_some, Option.filter_some]
        cases hover : c.isOver now (c.entryOf s) with
        | true => exact .inr ⟨rfl, s, rfl, now, by simp, hover⟩
        | false => exact .inl rfl
  · refine .inr ⟨?_, s, hs, t, List.mem_append_left _ ht, hover⟩
    rcases hshed with hsame | hfiltered
    · rw [hsame, hnone]
    · rw [hfiltered, hnone]
      rfl

/-- A request for another key. -/
theorem Reflects.keep (h : c.Reflects ops key) (hr : ¬r.Replaces key)
    (hsame : (c.act r).shown? key = c.shown? key) : (c.act r).Reflects (ops ++ [r]) key := by
  rw [Reflects, standing?_concat, Request.settle_of_not_replaces hr, isOver_act, entryOf_act, hsame]
  refine h.imp_right ?_
  rintro ⟨hnone, s, hs, t, ht, hover⟩
  refine ⟨hnone, s, hs, t, ?_, hover⟩
  rw [List.filterMap_append]
  exact List.mem_append_left _ ht

/-- **What one request preserves.** -/
theorem Reflects.act (h : c.Reflects ops key) (hkey : IsDigest key) (hc : c.Sound keys)
    (hr : ∀ k ∈ r.key?, k ∈ keys ∧ IsDigest k) : (c.act r).Reflects (ops ++ [r]) key := by
  cases r with
  | get now k => exact h.shed rfl (shed_get (hr k rfl).2 hkey c now) not_false
  | prune now => exact h.shed rfl (hc.shed_prune hkey now) not_false
  | set now k records lifetime =>
    obtain ⟨hmem, hk⟩ := hr k rfl
    obtain ⟨hself, hothers⟩ := hc.shown?_set hmem hk
    by_cases heq : key = k
    · subst heq
      left
      rw [standing?_concat, Request.settle, if_pos rfl, entryOf_act]
      exact hself
    · exact h.shed rfl (hothers key hkey heq) (Ne.symm heq)
  | delete k =>
    have hentry := hc.shown?_delete (hr k rfl).2 hkey
    by_cases heq : key = k
    · left
      rw [standing?_concat, Request.settle, if_pos heq.symm]
      exact hentry.trans (if_pos heq)
    · exact h.keep (Ne.symm heq) (hentry.trans (if_neg heq))
  | clear =>
    left
    rw [standing?_concat]
    exact hc.shown?_clear key

/-! ## A history -/

/-- **What a history preserves.** -/
theorem reflects_after (hc : c.Sound keys) (hempty : ∀ k, c.shown? k = Option.none)
    (hops : ∀ k ∈ ops.filterMap Request.key?, k ∈ keys ∧ IsDigest k) (hkey : IsDigest key) :
    (c.after ops).Sound keys ∧ (c.after ops).Reflects ops key := by
  induction ops using List.reverseRecOn with
  | nil => exact ⟨hc, .inl (hempty key)⟩
  | append_singleton ops r ih =>
    have hold : ∀ k ∈ ops.filterMap Request.key?, k ∈ keys ∧ IsDigest k := fun k hk =>
      hops k (by rw [List.filterMap_append]; exact List.mem_append_left _ hk)
    have hr : ∀ k ∈ r.key?, k ∈ keys ∧ IsDigest k := fun k hk =>
      hops k (List.mem_filterMap.mpr ⟨r, by simp, hk⟩)
    obtain ⟨hsound, hreflects⟩ := ih hold
    rw [after_concat]
    exact ⟨hsound.act hr, hreflects.act hkey hsound hr⟩

omit [CacheCodec] in
/-- A directory that can be made has no null character in its path. -/
theorem not_nul_of_makeDirectories {t u : FileTree} {path : String}
    (h : t.makeDirectories path = .ok u) : '\x00' ∉ path.toList := by
  rw [FileTree.makeDirectories] at h
  intro hnul
  have hcontains : path.toList.contains '\x00' = true := List.contains_iff_mem.mpr hnul
  split at h
  · cases h
  · rw [if_pos hcontains] at h
    cases h

/-- A cache was opened where no results were. -/
def Opened (c : Cache σ ρ) : Prop :=
  ∃ s t, s.backend ≠ .none ∧ Cache.openWith s t = .ok c
    ∧ ∀ path content, (path, .file content) ∈ t.entries →
      path ≠ Path.clean s.path ∧ DirectoryCache.isWithin s.path path = false

/-- A cache that was asked nothing and holds nothing. -/
def IsNew : Cache σ ρ → Prop
  | .none => False
  | .memory c => (∀ key, LawfulRecencyStore.held? c.store key = Option.none) ∧ c.counts = {}
  | .directory c => '\x00' ∉ c.base.toList ∧ c.files = [] ∧ c.counts = {}
  | .database c => (∀ key, LawfulRowStore.row? c.rows key = Option.none) ∧ c.counts = {}

omit [CacheCodec] in
/-- A database that is opened where there is no file has no rows. -/
theorem openDatabase_isNew {t : FileTree} {path : String}
    (hfile : ∀ content, (Path.clean path, .file content) ∉ t.entries)
    (h : openDatabase t path = .ok c) : c.IsNew := by
  unfold openDatabase at h
  split at h
  · cases h
  · rename_i content hentry
    have hmem : (Path.clean path, .file content) ∈ t.entries := by
      rw [FileTree.standing?] at hentry
      split at hentry
      · cases hentry
      · split at hentry
        · rename_i hget
          exact Data.Table.mem_of_get? (Option.some.inj hentry ▸ hget)
        · split at hentry <;> cases hentry
    exact absurd hmem (hfile content)
  · obtain rfl := Except.ok.inj h
    exact ⟨LawfulRowStore.row?_empty, rfl⟩

omit [CacheCodec] in
/-- A cache that was just opened shows nothing and has counted nothing. -/
theorem Opened.isNew (h : c.Opened) : c.IsNew := by
  obtain ⟨s, t, hbackend, hopen, hempty⟩ := h
  rw [Cache.openWith] at hopen
  split at hopen
  · exact absurd ‹_› hbackend
  · obtain rfl := Except.ok.inj hopen
    exact ⟨LawfulRecencyStore.held?_empty _ _, rfl⟩
  · split at hopen
    · cases hopen
    · split at hopen
      · cases hopen
      · rename_i hmade
        obtain rfl := Except.ok.inj hopen
        refine ⟨not_nul_of_makeDirectories hmade, ?_, rfl⟩
        refine List.filterMap_eq_nil_iff.mpr fun p hp => ?_
        obtain ⟨path, entry⟩ := p
        cases entry with
        | directory => rfl
        | file content => simp [(hempty path content hp).2]
  · split at hopen
    · cases hopen
    · split at hopen
      · obtain rfl := Except.ok.inj hopen
        exact ⟨LawfulRowStore.row?_empty, rfl⟩
      · split at hopen
        · cases hopen
        · exact openDatabase_isNew (fun content hmem => (hempty _ content hmem).1 rfl) hopen

/-- A new cache is sound if it has room. -/
theorem IsNew.sound (h : c.IsNew) (hroom : ∀ m, c = .memory m → keys.length ≤ m.size) :
    c.Sound keys := by
  cases c with
  | none => cases h
  | memory m => exact ⟨fun k hk => absurd (h.1 k) hk, hroom m rfl⟩
  | directory d =>
    obtain ⟨hnul, hfiles, -⟩ := h
    refine ⟨hnul, ?_, ?_⟩
    · rw [hfiles]
      exact List.nodup_nil
    · rw [hfiles]
      exact nofun
  | database d => trivial

/-- It shows nothing. -/
theorem IsNew.shown? (h : c.IsNew) (key : String) : c.shown? key = Option.none := by
  cases c with
  | none => cases h
  | memory m => exact congrArg (Option.map MemoryCache.kept) (h.1 key)
  | directory d =>
    rw [Cache.shown?, DirectoryCache.shown?, h.2.1]
    rfl
  | database d => exact congrArg (Option.bind · DatabaseCache.entry?) (h.1 key)

omit [CacheCodec] in
/-- It is there. -/
theorem IsNew.ne_none (h : c.IsNew) : c ≠ .none := fun heq => by rw [heq] at h; exact h

omit [RecencyStore σ] [RowStore ρ] [CacheCodec] [LawfulRecencyStore σ] [LawfulRowStore ρ] in
/-- Up to the instant at which a result is over all backends judge alike. -/
theorem not_isOver_entryOf (hsome : c ≠ .none) {s : Standing}
    (hapart : now ≠ s.start + s.lifetime) (hnow : c.Tells now)
    (hend : c.Tells (s.start + s.lifetime))
    (hlast : ∀ m, c = .memory m → s.start + m.lifetime < now → s.start + s.lifetime < now) :
    (!c.isOver now (c.entryOf s)) = decide (now < s.start + s.lifetime) := by
  cases c with
  | none => exact absurd rfl hsome
  | memory m =>
    have hkept := hlast m rfl
    have hover : (memory m : Cache σ ρ).isOver now ((memory m : Cache σ ρ).entryOf s) = true
        ↔ min (s.start + s.lifetime) (s.start + m.lifetime) < now := decide_eq_true_iff
    rw [Bool.eq_iff_iff, Bool.not_eq_true', ← Bool.not_eq_true, hover, decide_eq_true_iff]
    omega
  | directory d =>
    have hover : (directory d : Cache σ ρ).isOver now ((directory d : Cache σ ρ).entryOf s) = true
        ↔ s.start + s.lifetime < now := decide_eq_true_iff
    rw [Bool.eq_iff_iff, Bool.not_eq_true', ← Bool.not_eq_true, hover, decide_eq_true_iff]
    omega
  | database d =>
    have hover : (database d : Cache σ ρ).isOver now ((database d : Cache σ ρ).entryOf s) = true
        ↔ s.start + s.lifetime ≤ now := by
      have hstamp : DatabaseCache.stamp (s.start + s.lifetime) = s.start + s.lifetime :=
        Text.wrapWord_of_fits (hend d rfl)
      have hstamp' : DatabaseCache.stamp now = now := Text.wrapWord_of_fits (hnow d rfl)
      simp only [isOver, DatabaseCache.isOver, entryOf, expiry, hstamp, hstamp', decide_eq_true_eq]
    rw [Bool.eq_iff_iff, Bool.not_eq_true', ← Bool.not_eq_true, hover, decide_eq_true_iff,
      Int.not_le]

section

variable (hnew : c.IsNew) (hops : Orderly ops) (hfit : c.Fits ops)

include hnew hops hfit

/-- A new cache has room for all keys of a history. -/
theorem reflects_of_orderly (hkey : IsDigest key) :
    (c.after ops).Sound (ops.filterMap Request.key?).dedup ∧ (c.after ops).Reflects ops key := by
  refine reflects_after (hnew.sound hfit.room) hnew.shown? (fun k hk => ?_) hkey
  obtain ⟨parts, rfl⟩ := hops.keys k hk
  exact ⟨List.mem_dedup.mpr hk, CacheKey.isDigest_ofParts parts⟩

/-- **What is looked up is found** if it was kept and its time is not over. -/
theorem get_after (heq : ops = earlier ++ .get now key :: later) :
    ((c.after earlier).get now key).1 = found? key now earlier := by
  subst heq
  have hsub : List.Sublist earlier (earlier ++ .get now key :: later) :=
    List.sublist_append_left _ _
  have hkey : IsDigest key := by
    obtain ⟨parts, rfl⟩ := hops.keys key (by simp [Request.key?])
    exact CacheKey.isDigest_ofParts parts
  have htells : c.Tells now := hfit.tells now (by simp [Request.times])
  have htimes : ∀ r ∈ earlier, ∀ time ∈ r.times, c.Tells time := fun r hr time ht =>
    hfit.tells time (List.mem_flatMap.mpr ⟨r, List.mem_append_left _ hr, ht⟩)
  -- Whether the entry is over now can be read off what was kept.
  have hlive : ∀ s, standing? key earlier = some s →
      (!c.isOver now (c.entryOf s)) = decide (now < s.start + s.lifetime) := by
    intro s hs
    obtain ⟨before, mid, hbefore, -⟩ := standing?_eq_some_iff.mp hs
    have hset : Request.set s.start key s.records s.lifetime ∈ earlier := by
      rw [hbefore]
      simp
    refine not_isOver_entryOf hnew.ne_none ?_ htells (htimes _ hset _ (by simp [Request.times]))
      fun m hm => ?_
    · exact (List.pairwise_append.mp hops.apart).2.2 _ hset _ List.mem_cons_self rfl
    · exact (List.pairwise_append.mp (hfit.lasting m hm)).2.2 _ hset _ List.mem_cons_self rfl
  have hlate : ∀ t ∈ earlier.filterMap Request.time?, t ≤ now := by
    have hclock := hops.clock
    rw [List.filterMap_append] at hclock
    exact fun t ht => (List.pairwise_append.mp hclock).2.2 t ht now (by simp [Request.time?])
  have hreflects := (reflects_of_orderly hnew (hops.sublist hsub) (hfit.sublist hsub) hkey).2
  rw [Reflects, isOver_after, entryOf_after] at hreflects
  rw [get_fst, isOver_after, found?]
  rcases hreflects with hshown | ⟨hnone, s, hs, t, ht, hover⟩
  · rw [hshown]
    cases hstanding : standing? key earlier with
    | none => rfl
    | some s =>
      rw [Option.map_some, Option.filter_some, Option.filter_some, hlive s hstanding]
      split <;> rfl
  -- What was over before is over now, since time does not run backwards.
  · have hdead := hlive s hs
    obtain ⟨r, hr, htime⟩ := List.mem_filterMap.mp ht
    have hmono := isOver_mono (htimes r hr t (r.mem_times htime)) htells (hlate t ht) hover
    rw [hmono] at hdead
    rw [hnone, hs, Option.filter_some, ← hdead]
    rfl

/-- What is left of a history is answered as it is to be. -/
theorem answers_after (heq : ops = earlier ++ later) :
    (c.after earlier).answers later = expected earlier later := by
  induction later generalizing earlier with
  | nil => rfl
  | cons r rest ih =>
    have hreply : (c.after earlier).reply r = due earlier r := by
      cases r with
      | get now key => exact congrArg (fun a => [a]) (get_after hnew hops hfit heq)
      | set _ _ _ _ | delete _ | clear | prune _ => rfl
    rw [answers, expected, hreply, ← after_concat, ih (by rw [heq]; simp)]

end

/-- By the requests: hits and misses are as many as lookups. -/
theorem counts_after (hnew : c.IsNew) (ops : List Request) :
    c.after ops ≠ .none
      ∧ (c.after ops).counts.hits + (c.after ops).counts.misses = ops.countP Request.isGet := by
  induction ops using List.reverseRecOn with
  | nil =>
    refine ⟨hnew.ne_none, ?_⟩
    have hzero : c.counts = {} := by
      cases c with
      | none => cases hnew
      | memory c | database c => exact hnew.2
      | directory c => exact hnew.2.2
    rw [after, List.foldl_nil, hzero]
    rfl
  | append_singleton ops r ih =>
    obtain ⟨hsome, hsum⟩ := ih
    rw [after_concat, counts_act hsome, hsum, List.countP_append, List.countP_singleton]
    exact ⟨act_ne_none hsome r, rfl⟩

/-! ## All backends -/

/-- **Backends agree.**  In a history of keys that a cache has room for, two
    caches answer alike, whatever their backends.  What is looked up is found
    just if it was the last that was kept under its key, its time is not over,
    and neither was the key deleted nor the cache cleared since.  Pruning, of a
    cache that is not in memory, takes out as many entries as it says, all
    that are over, and changes no later answer; and every request that looks
    something up was counted once. -/
theorem backends_agree (hc : c.Opened) (hd : d.Opened) (hops : Orderly ops) (hcfit : c.Fits ops)
    (hdfit : d.Fits ops) :
    c.answers ops = d.answers ops ∧
    (∀ (earlier : List Request) (now : Int) (key : String) (later : List Request),
      ops = earlier ++ .get now key :: later → ∀ records : List Record,
      ((c.after earlier).get now key).1 = some records ↔
        ∃ (before : List Request) (start lifetime : Int) (mid : List Request),
          earlier = before ++ .set start key records lifetime :: mid ∧ now < start + lifetime
            ∧ ∀ r ∈ mid, ¬r.Replaces key) ∧
    (∀ (earlier : List Request) (now : Int) (later : List Request),
      ops = earlier ++ .prune now :: later →
      ((c.after earlier).Prunes now ∨ ∃ m, c.after earlier = .memory m)
        ∧ ((c.after earlier).prune? now).2.answers later = (c.after earlier).answers later) ∧
    ∀ now, ∃ s, (c.after ops).stats? now = some s
      ∧ s.counts.hits + s.counts.misses = ops.countP Request.isGet := by
  have hcnew := hc.isNew
  have hall : ∀ {x : Cache σ ρ}, x.IsNew → x.Fits ops → x.answers ops = expected [] ops :=
    fun hnew hfit => answers_after hnew hops hfit (List.nil_append ops).symm
  refine ⟨?_, fun earlier now key later heq records => ?_, fun earlier now later heq => ⟨?_, ?_⟩,
    fun now => ?_⟩
  · rw [hall hcnew hcfit, hall hd.isNew hdfit]
  · rw [get_after hcnew hops hcfit heq]
    exact found?_eq_some_iff
  · exact prunes_or_memory _ (counts_after hcnew earlier).1 now
  · have hsub : List.Sublist (earlier ++ later) ops := by
      rw [heq]
      exact (List.sublist_cons_self _ _).append_left _
    have hpruned : (c.after (earlier ++ [Request.prune now])).answers later
        = expected (earlier ++ [Request.prune now]) later :=
      answers_after hcnew hops hcfit (by rw [heq]; simp)
    rw [after_concat] at hpruned
    refine hpruned.trans ?_
    rw [expected_prune, List.append_nil,
      ← answers_after hcnew (hops.sublist hsub) (hcfit.sublist hsub) rfl]
  · obtain ⟨hsome, hsum⟩ := counts_after hcnew ops
    obtain ⟨s, hs, hcounts⟩ := stats?_eq hsome now
    exact ⟨s, hs, by rw [hcounts, hsum]⟩

end Stores

/-- In a directory and in a database: a result that is over when it is kept,
    and one that is still there after a pruning. -/
theorem backends_agree_expired :
    let key := CacheKey.ofParts [[1]]
    let earlier : List Request := [.set 0 key [] (-1), .get 1 key, .set 2 key [] 10, .prune 3]
    let ops := earlier ++ [.get 4 key]
    let c : Cache := .database { path := Option.none, rows := RowStore.empty }
    let d : Cache := .directory { base := "cache" }
    c.answers ops = d.answers ops ∧ ((d.after earlier).get 4 key).1 = some [] := by
  intro key earlier ops c d
  have hc : c.Opened :=
    ⟨{ backend := .database, path := unkeptDatabase }, {}, by decide, by rfl, nofun⟩
  have hd : d.Opened := ⟨{ backend := .files, path := "cache" }, {}, by decide, by rfl, nofun⟩
  have hkeys : ops.filterMap Request.key? = List.replicate 4 key := rfl
  have hops : Orderly ops := by
    refine ⟨fun k hk => ⟨[[1]], ?_⟩, by decide, ?_⟩
    · rw [hkeys] at hk
      exact (List.mem_replicate.mp hk).2
    · simp only [ops, earlier, List.cons_append, List.nil_append, List.pairwise_cons,
        List.forall_mem_cons, Request.Apart]
      simp
  have htimes : ∀ time ∈ ops.flatMap Request.times, Text.fitsWord time = true := by decide
  have hcfit : c.Fits ops := ⟨nofun, nofun, fun time ht _ _ => htimes time ht⟩
  have hdfit : d.Fits ops := ⟨nofun, nofun, fun _ _ => nofun⟩
  have hagree := backends_agree hd hc hops hdfit hcfit
  refine ⟨hagree.1.symm, (hagree.2.1 earlier 4 key [] rfl []).mpr ?_⟩
  exact ⟨[.set 0 key [] (-1), .get 1 key], 2, 10, [.prune 3], rfl, by decide,
    by simp [Request.Replaces]⟩

/-- **A database forgets what is to be kept too long.**  If the time at which a
    result is over is not one that a row can hold, the result is not found, not
    even at the time at which it was kept. -/
theorem database_forgets {σ : Nat → Int → Type} [RecencyStore σ] {ρ : Type} [RowStore ρ]
    [LawfulRowStore ρ] [CacheCodec] (m : DatabaseCache ρ) (key : String) (records : List Record)
    {start lifetime : Int} (hnow : Text.fitsWord now = true)
    (hstart : Text.fitsWord start = true) (hle : start ≤ now)
    (hlife : Text.fitsWord lifetime = true) (hlong : Text.wordLimit ≤ start + lifetime) :
    (((database m : Cache σ ρ).set start key records lifetime).get now key).1 = Option.none := by
  have hstamp : DatabaseCache.stamp now = now := Text.wrapWord_of_fits hnow
  have hover : DatabaseCache.stamp (start + lifetime) ≤ now := by
    have hstart' := of_decide_eq_true hstart
    have hlife' := of_decide_eq_true hlife
    simp only [DatabaseCache.stamp, Text.wrapWord, Text.wordSize, Int.bmod_def]
    simp only [Text.wordLimit] at hstart' hlife' hlong
    omega
  have hshown := (m.shown?_set key ⟨records, start + lifetime⟩ key).trans (if_pos rfl)
  refine (DatabaseCache.get_fst _ now key).trans ?_
  rw [hshown, Option.filter_some, DatabaseCache.isOver, hstamp, decide_eq_true hover]
  rfl

/-- A result that is to be kept for as long as can be said is found in memory
    and in a directory, but not in a database. -/
theorem backends_disagree_late :
    let key := CacheKey.ofParts [[1]]
    let longest : Int := 0x7fffffffffffffff
    let ops : List Request := [.set 1 key [] longest, .get 2 key]
    let m : MemoryCache RecencyList :=
      { size := 1, lifetime := CacheSettings.usualLifetime, size_pos := by decide
        lifetime_pos := by decide, store := RecencyStore.empty _ _ }
    let c : Cache := .memory m
    let d : Cache := .directory { base := "cache" }
    let e : Cache := .database { path := Option.none, rows := RowStore.empty }
    c.answers ops = [some []] ∧ d.answers ops = [some []] ∧ e.answers ops = [Option.none] := by
  intro key longest ops m c d e
  have hkeys : ops.filterMap Request.key? = List.replicate 2 key := rfl
  have hops : Orderly ops := by
    refine ⟨fun k hk => ⟨[[1]], ?_⟩, by decide, ?_⟩
    · rw [hkeys] at hk
      exact (List.mem_replicate.mp hk).2
    · simp [ops, longest, Request.Apart]
  have hfound : expected [] ops = [some []] := by
    simp [ops, longest, expected, due, found?, standing?, Request.settle]
  have hc : c.Opened := ⟨{ backend := .memory, size := 1 }, {}, by decide, by rfl, nofun⟩
  have hcfit : c.Fits ops := by
    refine ⟨fun m hm => ?_, fun m hm => ?_, fun _ _ => nofun⟩
    · obtain rfl := Cache.memory.inj hm
      rw [hkeys, List.replicate_dedup (by decide)]
      exact Nat.le_refl 1
    · obtain rfl := Cache.memory.inj hm
      simp [ops, m, longest, Request.Outlasted, CacheSettings.usualLifetime, second]
  have hd : d.Opened := ⟨{ backend := .files, path := "cache" }, {}, by decide, by rfl, nofun⟩
  refine ⟨?_, ?_, ?_⟩
  · exact (answers_after hc.isNew hops hcfit rfl).trans hfound
  · exact (answers_after hd.isNew hops ⟨nofun, nofun, fun _ _ => nofun⟩ rfl).trans hfound
  · have hforgets : ((e.set 1 key [] longest).get 2 key).1 = Option.none :=
      database_forgets _ key [] (by decide) (by decide) (by decide) (by decide) (by decide)
    exact congrArg (fun a => [a]) hforgets

end Cache

end MarkupLint
