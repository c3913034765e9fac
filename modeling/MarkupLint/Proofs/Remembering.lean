import MarkupLint.Batch.Run

/-! # What a cache remembers

    A cache is faithful if it answers for a key with the records that were
    last kept under it, or not at all, whatever was done to it before.  When
    and for how long records are kept is its own affair. -/

namespace MarkupLint

/-- Something done to a cache. -/
inductive CacheOp where
  | get (now : Int) (key : String)
  | set (now : Int) (key : String) (records : List Record) (lifetime : Int)

namespace CacheOp

/-- The records that were last kept under a key, after those that were kept
    before. -/
def keptAfter (key : String) (before : Option (List Record)) : List CacheOp → Option (List Record)
  | [] => before
  | .get _ _ :: ops => keptAfter key before ops
  | .set _ k records _ :: ops => keptAfter key (if k = key then some records else before) ops

/-- The records that were last kept under a key. -/
def kept (key : String) (ops : List CacheOp) : Option (List Record) := keptAfter key none ops

/-- What was kept under a key was kept under it at some time. -/
theorem mem_of_kept {key : String} {records : List Record} {ops : List CacheOp}
    (h : kept key ops = some records) : ∃ now lifetime, .set now key records lifetime ∈ ops := by
  have hafter : ∀ (ops : List CacheOp) before, keptAfter key before ops = some records →
      before = some records ∨ ∃ now lifetime, .set now key records lifetime ∈ ops := by
    intro ops
    induction ops with
    | nil => exact fun before h => .inl h
    | cons op ops ih =>
      intro before h
      cases op with
      | get now k =>
        refine (ih _ h).imp_right ?_
        rintro ⟨now, lifetime, hmem⟩
        exact ⟨now, lifetime, List.mem_cons_of_mem _ hmem⟩
      | set now k records' lifetime =>
        rcases ih _ h with hkept | ⟨now, lifetime, hmem⟩
        · split at hkept
          · rename_i hk
            subst hk
            cases hkept
            exact .inr ⟨now, lifetime, List.mem_cons_self⟩
          · exact .inl hkept
        · exact .inr ⟨now, lifetime, List.mem_cons_of_mem _ hmem⟩
  exact (hafter ops none h).resolve_left nofun

end CacheOp

namespace ResultCache

variable {κ : Type} [ResultCache κ]

/-- The cache after something was done to it. -/
def act (c : κ) : CacheOp → κ
  | .get now key => (get c now key).2
  | .set now key records lifetime => set c now key records lifetime

/-- The cache after some things were done to it, one after the other. -/
def after (c : κ) (ops : List CacheOp) : κ := ops.foldl act c

@[simp] theorem after_nil (c : κ) : after c [] = c := rfl

@[simp] theorem after_append (c : κ) (ops more : List CacheOp) :
    after c (ops ++ more) = after (after c ops) more := List.foldl_append

/-- Whatever is done to the cache, a key is answered with the records that
    were last kept under it since, or not at all. -/
def Faithful (c : κ) : Prop :=
  ∀ ops now key records, (get (after c ops) now key).1 = some records →
    CacheOp.kept key ops = some records

/-- A table that keeps everything until something else is kept under its
    key. -/
instance : ResultCache (Data.Table (List Record)) where
  get t _ key := (t.get? key, t)
  set t _ key records _ := t.set key records

/-- A table without limits is faithful. -/
theorem faithful_table : Faithful ([] : Data.Table (List Record)) := by
  have hafter : ∀ (ops : List CacheOp) (t : Data.Table (List Record)) key,
      (after t ops).get? key = CacheOp.keptAfter key (t.get? key) ops := by
    intro ops
    induction ops with
    | nil => exact fun t key => rfl
    | cons op ops ih =>
      intro t key
      cases op with
      | get now k => exact ih t key
      | set now k records lifetime =>
        refine (ih (t.set k records) key).trans ?_
        rw [CacheOp.keptAfter]
        by_cases hk : k = key
        · rw [hk, Data.Table.get?_set_self, if_pos rfl]
        · rw [Data.Table.get?_set_of_ne t records (Ne.symm hk), if_neg hk]
  intro ops now key records h
  exact (hafter ops [] key).symm.trans h

end ResultCache

end MarkupLint
