/-! # Tables

    Finite maps from names to values, as lists in which the first entry of
    a name counts.  Setting a name keeps its place, a new name goes to the
    end, so a table also remembers the order its names came in. -/

namespace MarkupLint.Data

/-- A finite map from names. -/
abbrev Table (α : Type) := List (String × α)

namespace Table

variable {α : Type}

/-- The value of a name. -/
def get? : Table α → String → Option α
  | [], _ => none
  | (k, v) :: rest, key => if k = key then some v else get? rest key

/-- Whether a name has a value. -/
def has (t : Table α) (key : String) : Bool := (t.get? key).isSome

/-- Gives a name a value. -/
def set : Table α → String → α → Table α
  | [], key, value => [(key, value)]
  | (k, v) :: rest, key, value =>
    if k = key then (key, value) :: rest else (k, v) :: set rest key value

/-- Takes every entry of a name out. -/
def erase (t : Table α) (key : String) : Table α := t.filter fun p => p.1 ≠ key

/-- The names, in the order they came in. -/
def keys (t : Table α) : List String := t.map (·.1)

@[simp] theorem get?_nil (key : String) : get? ([] : Table α) key = none := rfl

theorem get?_cons (k : String) (v : α) (rest : Table α) (key : String) :
    get? ((k, v) :: rest) key = if k = key then some v else get? rest key := rfl

/-- A value that is found is in the table. -/
theorem mem_of_get? {t : Table α} {key : String} {value : α} (h : t.get? key = some value) :
    (key, value) ∈ t := by
  induction t with
  | nil => cases h
  | cons first rest ih =>
    rw [get?_cons] at h
    split at h
    · rename_i hkey
      rw [← hkey, ← Option.some.inj h]
      exact List.mem_cons_self
    · exact List.mem_cons_of_mem _ (ih h)

@[simp] theorem get?_set_self (t : Table α) (key : String) (value : α) :
    (t.set key value).get? key = some value := by
  induction t with
  | nil => simp [set, get?]
  | cons p rest ih =>
    obtain ⟨k, v⟩ := p
    by_cases h : k = key
    · simp [set, get?, h]
    · simp [set, get?, h, ih]

/-- Setting one name leaves the others. -/
theorem get?_set_of_ne (t : Table α) {key other : String} (value : α) (h : other ≠ key) :
    (t.set key value).get? other = t.get? other := by
  induction t with
  | nil => simp [set, get?, h.symm]
  | cons p rest ih =>
    obtain ⟨k, v⟩ := p
    by_cases hk : k = key
    · subst hk
      simp [set, get?, h.symm]
    · by_cases ho : k = other
      · subst ho
        simp [set, get?, hk]
      · simp [set, get?, hk, ho, ih]

@[simp] theorem get?_erase_self (t : Table α) (key : String) : (t.erase key).get? key = none := by
  induction t with
  | nil => rfl
  | cons p rest ih =>
    obtain ⟨k, v⟩ := p
    by_cases h : k = key
    · simpa [erase, h] using ih
    · simpa [erase, get?, h] using ih

/-- So does erasing one. -/
theorem get?_erase_of_ne (t : Table α) {key other : String} (h : other ≠ key) :
    (t.erase key).get? other = t.get? other := by
  induction t with
  | nil => rfl
  | cons p rest ih =>
    obtain ⟨k, v⟩ := p
    by_cases hk : k = key
    · subst hk
      simpa [erase, get?, h.symm] using ih
    · by_cases ho : k = other
      · subst ho
        simp [erase, get?, hk]
      · simpa [erase, get?, hk, ho] using ih

/-- The first of two tables comes first. -/
theorem get?_append (s t : Table α) (key : String) :
    (s ++ t).get? key = (s.get? key).or (t.get? key) := by
  induction s with
  | nil => rfl
  | cons p rest ih =>
    obtain ⟨k, v⟩ := p
    by_cases h : k = key
    · simp [get?, h]
    · simpa [get?, h] using ih

/-- A name is not found just where it is not there. -/
theorem get?_eq_none_iff (t : Table α) (key : String) : t.get? key = none ↔ key ∉ t.keys := by
  induction t with
  | nil => simp [keys]
  | cons p rest ih =>
    obtain ⟨k, v⟩ := p
    by_cases h : k = key
    · simp [get?, keys, h]
    · simpa [get?, keys, h, Ne.symm h] using ih

/-- A name that is set is there, and no other is new. -/
theorem mem_keys_set {t : Table α} {k key : String} {value : α} :
    k ∈ (t.set key value).keys ↔ k = key ∨ k ∈ t.keys := by
  have hsome : ∀ s : Table α, k ∈ s.keys ↔ (s.get? k).isSome = true := fun s => by
    rw [Option.isSome_iff_ne_none, ne_eq, get?_eq_none_iff, Classical.not_not]
  by_cases hk : k = key
  · rw [hsome, hk, get?_set_self]
    simp
  · simp [hsome, get?_set_of_ne t value hk, hk]

/-- It is there once. -/
theorem nodup_keys_set {t : Table α} {key : String} {value : α} (h : t.keys.Nodup) :
    (t.set key value).keys.Nodup := by
  induction t with
  | nil => simp [set, keys]
  | cons p rest ih =>
    obtain ⟨hp, hrest⟩ := List.nodup_cons.mp h
    obtain ⟨k, v⟩ := p
    rw [set]
    split
    · rename_i hk
      exact hk ▸ h
    · rename_i hk
      refine List.nodup_cons.mpr ⟨fun hmem => ?_, ih hrest⟩
      rcases mem_keys_set.mp hmem with heq | hmem
      · exact hk heq
      · exact hp hmem

/-- In a table without repeats every entry counts. -/
theorem get?_of_mem {t : Table α} {key : String} {value : α} (h : t.keys.Nodup)
    (hmem : (key, value) ∈ t) : t.get? key = some value := by
  induction t with
  | nil => cases hmem
  | cons p rest ih =>
    obtain ⟨hp, hrest⟩ := List.nodup_cons.mp h
    rcases List.mem_cons.mp hmem with rfl | hmem
    · simp [get?_cons]
    · have hne : p.1 ≠ key := fun heq => hp (List.mem_map.mpr ⟨_, hmem, heq.symm⟩)
      rw [get?_cons, if_neg hne]
      exact ih hrest hmem

/-- Names that are kept are there once. -/
theorem nodup_keys_filter {t : Table α} (h : t.keys.Nodup) (p : String × α → Bool) :
    Table.keys (t.filter p) |>.Nodup :=
  h.sublist (List.filter_sublist.map _)

/-- An entry may be put in front once the others of its key are taken out. -/
theorem nodup_keys_front {t : Table α} (h : t.keys.Nodup) (key : String) (value : α) :
    (keys ((key, value) :: t.erase key)).Nodup :=
  List.nodup_cons.mpr ⟨(get?_eq_none_iff _ _).mp (get?_erase_self t key), nodup_keys_filter h _⟩

end Table

end MarkupLint.Data
