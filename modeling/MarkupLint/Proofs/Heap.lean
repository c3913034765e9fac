import MarkupLint.Data.Heap

/-! # The first item of a heap

    A heap gives out the item that no other item comes before, and loses and
    repeats none.  The route:

    * `Ordered` says that no item comes before the one above it, hence
      none comes before the one at place 0 (`Ordered.not_before_first`);
    * a rising item breaks the order at one place only (`Rising`), a sinking
      one at the two places below it only (`Sinking`); a swap moves the
      broken place up or down, and where the sifting stops none is left;
    * both sifts permute the items, so `push` adds one and `pop?` takes
      one away. -/

namespace MarkupLint.Data.Heap

variable {α : Type} {before : α → α → Bool}

/-- What an order has to satisfy for a heap to work: items may be level, but
    "does not come before" is total and transitive. -/
structure Ranking (before : α → α → Bool) : Prop where
  asymm : ∀ x y, before x y = true → before y x = false
  trans : ∀ x y z, before x y = false → before y z = false → before x z = false

theorem Ranking.irrefl (hr : Ranking before) (x : α) : before x x = false := by
  cases h : before x x with
  | false => rfl
  | true => exact absurd (hr.asymm x x h) (by rw [h]; exact Bool.noConfusion)

/-- No item comes before the one above it. -/
def Ordered (before : α → α → Bool) (a : Array α) : Prop :=
  ∀ (i p : Nat) (hi : i < a.size) (hp : p < a.size), 0 < i → parent i = p →
    before a[i] a[p] = false

/-- In an ordered heap nothing comes before the item at place 0. -/
theorem Ordered.not_before_first (hr : Ranking before) {a : Array α} (ho : Ordered before a)
    (h0 : 0 < a.size) :
    ∀ (i : Nat) (hi : i < a.size), before a[i] a[0] = false := by
  intro i
  induction i using Nat.strongRecOn with
  | ind i ih =>
      intro hi
      rcases Nat.eq_zero_or_pos i with rfl | hpos
      · exact hr.irrefl _
      · have hlt : parent i < i := parent_lt hpos
        have hp : parent i < a.size := Nat.lt_trans hlt hi
        exact hr.trans _ _ _ (ho i (parent i) hi hp hpos rfl) (ih (parent i) hlt hp)

/-! ## Rising -/

/-- The order is broken at most between place `j` and the one above it. -/
structure Rising (before : α → α → Bool) (a : Array α) (j : Nat) : Prop where
  others : ∀ (i p : Nat) (hi : i < a.size) (hp : p < a.size), 0 < i → parent i = p → i ≠ j →
    before a[i] a[p] = false
  across : ∀ (i p : Nat) (hi : i < a.size) (hp : p < a.size), 0 < i → parent i = j → 0 < j →
    parent j = p → before a[i] a[p] = false

/-- Swapping with the item above moves the broken place up. -/
theorem Rising.swap (hr : Ranking before) {a : Array α} {j : Nat} (h : Rising before a j)
    (h0 : 0 < j) (hj : j < a.size) (hp : parent j < a.size)
    (hb : before a[j] a[parent j] = true) :
    Rising before (a.swap (parent j) j) (parent j) := by
  have hlt : parent j < j := parent_lt h0
  have hpj : before a[parent j] a[j] = false := hr.asymm _ _ hb
  constructor
  · intro i q hi hq hi0 hiq hne
    rw [Array.size_swap] at hi hq
    rw [Array.getElem_swap, Array.getElem_swap, if_neg hne]
    by_cases hij : i = j
    · -- the swapped pair itself
      subst hij
      rw [if_pos rfl, if_pos hiq.symm]
      exact hpj
    · rw [if_neg hij]
      by_cases hqp : q = parent j
      · -- the other place below the new one
        subst hqp
        rw [if_pos rfl]
        exact hr.trans _ _ _ (h.others i (parent j) hi hp hi0 hiq hij) hpj
      · rw [if_neg hqp]
        by_cases hqj : q = j
        · rw [if_pos hqj]
          exact h.across i (parent j) hi hp hi0 (hiq.trans hqj) h0 rfl
        · rw [if_neg hqj]
          exact h.others i q hi hq hi0 hiq hij
  · intro i q hi hq hi0 hip hp0 hpq
    rw [Array.size_swap] at hi hq
    have hqp : q < parent j := hpq ▸ parent_lt hp0
    have hpi : parent j < i := hip ▸ parent_lt hi0
    have habove : before a[parent j] a[q] = false :=
      h.others (parent j) q hp hq hp0 hpq (Nat.ne_of_lt hlt)
    rw [Array.getElem_swap, Array.getElem_swap, if_neg (Nat.ne_of_gt hpi),
      if_neg (Nat.ne_of_lt hqp), if_neg (Nat.ne_of_lt (Nat.lt_trans hqp hlt))]
    by_cases hij : i = j
    · rw [if_pos hij]
      exact habove
    · rw [if_neg hij]
      exact hr.trans _ _ _ (h.others i (parent j) hi hp hi0 hip hij) habove

/-- Where the item does not come before the one above it, the order is whole. -/
theorem Rising.ordered {a : Array α} {j : Nat} (h : Rising before a j)
    (hstop : ∀ (p : Nat) (hj : j < a.size) (hp : p < a.size), 0 < j → parent j = p →
      before a[j] a[p] = false) :
    Ordered before a := by
  intro i p hi hp hi0 hip
  by_cases hij : i = j
  · subst hij
    exact hstop p hi hp hi0 hip
  · exact h.others i p hi hp hi0 hip hij

/-- Rising ends in an ordered heap. -/
theorem ordered_siftUp (hr : Ranking before) (a : Array α) (j : Nat) (hj : j < a.size)
    (h : Rising before a j) : Ordered before (siftUp before a j hj) := by
  fun_induction siftUp before a j hj with
  | case1 a j hj h0 hp hb ih => exact ih (h.swap hr h0 hj hp hb)
  | case2 a j hj h0 hp hb =>
      refine h.ordered ?_
      intro p _ _ _ hjp
      subst hjp
      exact Bool.eq_false_iff.mpr hb
  | case3 a j hj h0 => exact h.ordered fun _ _ _ hpos => absurd hpos h0

/-- Rising permutes the items. -/
theorem siftUp_perm (before : α → α → Bool) (a : Array α) (j : Nat) (hj : j < a.size) :
    (siftUp before a j hj).Perm a := by
  fun_induction siftUp before a j hj with
  | case1 a j hj h0 hp hb ih => exact ih.trans (Array.swap_perm hp hj)
  | case2 a j hj h0 hp hb => exact Array.Perm.refl a
  | case3 a j hj h0 => exact Array.Perm.refl a

/-! ## Sinking -/

/-- The order is broken at most between place `i` and those below it. -/
structure Sinking (before : α → α → Bool) (a : Array α) (i : Nat) : Prop where
  others : ∀ (k p : Nat) (hk : k < a.size) (hp : p < a.size), 0 < k → parent k = p → p ≠ i →
    before a[k] a[p] = false
  across : ∀ (k p : Nat) (hk : k < a.size) (hp : p < a.size), 0 < k → parent k = i → 0 < i →
    parent i = p → before a[k] a[p] = false

/-- A place below another is the first or the second one there. -/
theorem eq_of_parent_eq {k i : Nat} (hk : 0 < k) (h : parent k = i) :
    k = 2 * i + 1 ∨ k = 2 * i + 2 := by
  unfold parent at h
  omega

theorem parent_child (before : α → α → Bool) (a : Array α) (i : Nat) (h : 2 * i + 1 < a.size) :
    parent (child before a i h) = i := by
  have hc := child_cases before a i h
  unfold parent
  omega

/-- Of the places below `i` the chosen one comes first. -/
theorem not_before_child (hr : Ranking before) {a : Array α} {i : Nat} (h : 2 * i + 1 < a.size)
    {k : Nat} (hk : k < a.size) (hk0 : 0 < k) (hki : parent k = i)
    (hc : child before a i h < a.size) :
    before a[k] a[child before a i h] = false := by
  have hcases := eq_of_parent_eq hk0 hki
  unfold child
  by_cases h2 : 2 * i + 2 < a.size
  · by_cases hb : before a[2 * i + 2] a[2 * i + 1] = true
    · simp only [dif_pos h2, if_pos hb]
      rcases hcases with rfl | rfl
      · exact hr.asymm _ _ hb
      · exact hr.irrefl _
    · simp only [dif_pos h2, if_neg hb]
      rcases hcases with rfl | rfl
      · exact hr.irrefl _
      · exact Bool.eq_false_iff.mpr hb
  · simp only [dif_neg h2]
    rcases hcases with rfl | rfl
    · exact hr.irrefl _
    · exact absurd hk h2

/-- Swapping with the item below that comes first moves the broken place
    down. -/
theorem Sinking.swap (hr : Ranking before) {a : Array α} {i j : Nat} (h : Sinking before a i)
    (hi : i < a.size) (hj : j < a.size) (hj0 : 0 < j) (hji : parent j = i)
    (hfirst : ∀ (k : Nat) (hk : k < a.size), 0 < k → parent k = i → before a[k] a[j] = false)
    (hb : before a[j] a[i] = true) :
    Sinking before (a.swap i j) j := by
  have hij : i < j := hji ▸ parent_lt hj0
  constructor
  · intro k q hk hq hk0 hkq hqj
    have hka : k < a.size := by rwa [Array.size_swap] at hk
    have hqa : q < a.size := by rwa [Array.size_swap] at hq
    rw [Array.getElem_swap, Array.getElem_swap]
    by_cases hqi : q = i
    · -- `k` is below the place that the item left
      subst hqi
      have hqk : q < k := hkq ▸ parent_lt hk0
      rw [if_neg (Nat.ne_of_gt hqk), if_pos rfl]
      by_cases hkj : k = j
      · rw [if_pos hkj]
        exact hr.asymm _ _ hb
      · rw [if_neg hkj]
        exact hfirst k hka hk0 hkq
    · rw [if_neg hqi, if_neg hqj]
      by_cases hki : k = i
      · subst hki
        rw [if_pos rfl]
        exact h.across j q hj hqa hj0 hji hk0 hkq
      · have hkj : k ≠ j := by
          intro hkj
          subst hkj
          exact hqi (hkq.symm.trans hji)
        rw [if_neg hki, if_neg hkj]
        exact h.others k q hka hqa hk0 hkq hqi
  · intro k q hk hq hk0 hkj _ hjq
    have hka : k < a.size := by rwa [Array.size_swap] at hk
    have hjk : j < k := hkj ▸ parent_lt hk0
    have hqi : q = i := hjq.symm.trans hji
    subst hqi
    rw [Array.getElem_swap, Array.getElem_swap, if_neg (Nat.ne_of_gt (Nat.lt_trans hij hjk)),
      if_neg (Nat.ne_of_gt hjk), if_pos rfl]
    exact h.others k j hka hj hk0 hkj (Nat.ne_of_gt hij)

/-- Where nothing below the item comes before it, the order is whole. -/
theorem Sinking.ordered {a : Array α} {i : Nat} (h : Sinking before a i)
    (hstop : ∀ (k : Nat) (hk : k < a.size) (hi : i < a.size), 0 < k → parent k = i →
      before a[k] a[i] = false) :
    Ordered before a := by
  intro k p hk hp hk0 hkp
  by_cases hpi : p = i
  · subst hpi
    exact hstop k hk hp hk0 hkp
  · exact h.others k p hk hp hk0 hkp hpi

/-- Sinking ends in an ordered heap. -/
theorem ordered_siftDown (hr : Ranking before) (a : Array α) (i : Nat)
    (h : Sinking before a i) : Ordered before (siftDown before a i) := by
  fun_induction siftDown before a i with
  | case1 a i hsize j hj hij hb ih =>
      have hj0 : 0 < j := Nat.lt_of_le_of_lt (Nat.zero_le i) hij
      refine ih (h.swap hr (Nat.lt_trans hij hj) hj hj0 (parent_child before a i hsize) ?_ hb)
      intro k hk hk0 hki
      exact not_before_child hr hsize hk hk0 hki hj
  | case2 a i hsize j hj hij hb =>
      refine h.ordered ?_
      intro k hk hi hk0 hki
      exact hr.trans _ _ _ (not_before_child hr hsize hk hk0 hki hj) (Bool.eq_false_iff.mpr hb)
  | case3 a i hsize =>
      refine h.ordered ?_
      intro k hk _ hk0 hki
      have hcases := eq_of_parent_eq hk0 hki
      omega

/-- Sinking permutes the items. -/
theorem siftDown_perm (before : α → α → Bool) (a : Array α) (i : Nat) :
    (siftDown before a i).Perm a := by
  fun_induction siftDown before a i with
  | case1 a i hsize j hj hij hb ih =>
      exact ih.trans (Array.swap_perm (Nat.lt_trans hij hj) hj)
  | case2 a i hsize j hj hij hb => exact Array.Perm.refl a
  | case3 a i hsize => exact Array.Perm.refl a

/-! ## Putting in and taking out -/

/-- A new item at the end breaks the order only between its own place and the
    one above it. -/
theorem Ordered.rising_push {a : Array α} (ho : Ordered before a) (x : α) :
    Rising before (a.push x) a.size := by
  constructor
  · intro i p hi hp hi0 hip hne
    rw [Array.size_push] at hi hp
    have hia : i < a.size := by omega
    have hpa : p < a.size := Nat.lt_trans (hip ▸ parent_lt hi0) hia
    rw [Array.getElem_push_lt hia, Array.getElem_push_lt hpa]
    exact ho i p hia hpa hi0 hip
  · intro i p hi _ hi0 hia _ _
    rw [Array.size_push] at hi
    have hlt := parent_lt hi0
    omega

/-- Putting an item in keeps the order. -/
theorem ordered_push (hr : Ranking before) (h : Heap α) (x : α)
    (ho : Ordered before h.items) : Ordered before (h.push before x).items :=
  ordered_siftUp hr _ _ _ (ho.rising_push x)

/-- Putting an item in adds that item. -/
theorem push_perm (before : α → α → Bool) (h : Heap α) (x : α) :
    (h.push before x).items.toList.Perm (h.items.toList ++ [x]) := by
  have hp := (siftUp_perm before (h.items.push x) h.items.size
    (by rw [Array.size_push]; omega)).toList
  rw [Array.toList_push] at hp
  exact hp

/-- The last item at place 0 breaks the order only at the places below. -/
theorem Ordered.sinking_pop {a : Array α} (ho : Ordered before a) (h0 : 0 < a.size) :
    Sinking before (a.swap 0 (a.size - 1)).pop 0 := by
  constructor
  · intro k p hk hp hk0 hkp hp0
    rw [Array.size_pop, Array.size_swap] at hk hp
    rw [Array.getElem_pop, Array.getElem_pop,
      Array.getElem_swap, Array.getElem_swap, if_neg (Nat.ne_of_gt hk0), if_neg hp0,
      if_neg (Nat.ne_of_lt hk), if_neg (Nat.ne_of_lt hp)]
    exact ho k p (by omega) (by omega) hk0 hkp
  · intro _ _ _ _ _ _ h00
    exact absurd h00 (Nat.lt_irrefl 0)

/-- Moving the first item to the end and dropping it takes that item away. -/
theorem perm_first_pop {a : Array α} (h0 : 0 < a.size) :
    a.toList.Perm (a[0] :: (a.swap 0 (a.size - 1)).pop.toList) := by
  have hlast : a.size - 1 < a.size := by omega
  have hswap : (a.swap 0 (a.size - 1)).toList.Perm a.toList :=
    (Array.swap_perm h0 hlast).toList
  have hsplit : (a.swap 0 (a.size - 1)).toList
      = (a.swap 0 (a.size - 1)).pop.toList ++ [a[0]] := by
    have hne : (a.swap 0 (a.size - 1)).toList ≠ [] := by
      intro hnil
      have hlen := congrArg List.length hnil
      rw [Array.length_toList, Array.size_swap] at hlen
      exact Nat.ne_of_gt h0 hlen
    have hlst : (a.swap 0 (a.size - 1)).toList.getLast hne = a[0] := by
      rw [List.getLast_eq_getElem]
      simp
    rw [Array.toList_pop, ← hlst]
    exact (List.dropLast_concat_getLast hne).symm
  rw [hsplit] at hswap
  exact hswap.symm.trans (List.perm_append_singleton a[0] _)

/-- Nothing is taken out of an empty heap only. -/
theorem pop?_eq_none_iff (before : α → α → Bool) (h : Heap α) :
    h.pop? before = none ↔ h.size = 0 := by
  unfold pop? size
  by_cases h0 : 0 < h.items.size
  · rw [dif_pos h0]
    constructor
    · intro hn
      exact nomatch hn
    · intro hz
      exact absurd hz (Nat.ne_of_gt h0)
  · rw [dif_neg h0]
    exact ⟨fun _ => Nat.eq_zero_of_not_pos h0, fun _ => rfl⟩

/-- **What is taken out**: the item taken is one that nothing in the heap comes
    before, exactly that item is gone, and the order is kept. -/
theorem pop?_spec (hr : Ranking before) {h rest : Heap α} {x : α}
    (ho : Ordered before h.items) (hpop : h.pop? before = some (x, rest)) :
    Ordered before rest.items ∧ h.items.toList.Perm (x :: rest.items.toList)
      ∧ ∀ y ∈ h.items.toList, before y x = false := by
  unfold pop? at hpop
  by_cases h0 : 0 < h.items.size
  · rw [dif_pos h0] at hpop
    have hp := Option.some.inj hpop
    have hx : h.items[0] = x := congrArg Prod.fst hp
    have hrest := congrArg Prod.snd hp
    subst hx
    subst hrest
    refine ⟨ordered_siftDown hr _ _ (ho.sinking_pop h0), ?_, ?_⟩
    · exact (perm_first_pop h0).trans
        (List.Perm.cons _ (siftDown_perm before _ 0).symm.toList)
    · intro y hy
      obtain ⟨i, hi, rfl⟩ := List.mem_iff_getElem.mp hy
      exact ho.not_before_first hr h0 i hi
  · rw [dif_neg h0] at hpop
    exact nomatch hpop

end MarkupLint.Data.Heap
