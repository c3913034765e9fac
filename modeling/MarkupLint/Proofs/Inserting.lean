import MarkupLint.Proofs.Shapes

/-! # Where inserted nodes stand

    Nodes that are put at a position among the children of a node are taken
    out of where they stand first, and the position is counted among what is
    left: every node taken out before the position moves the place behind
    one more of the others (`placedBetween`).  The place is the one that the
    position named before exactly when no such node stood before it, or
    nothing else stands behind it (`placedBetween_eq_iff`).

    Children that are given as they are stored shift while they are taken, so
    a call takes every other one of them, and then the last one again and
    again (`adopted_stretch`). -/

namespace MarkupLint

namespace Forest

variable {f : Forest} {i p q x : NodeId} {ns before after : List NodeId}

/-- What stands under a node after `ns` were put between `before` and
    `after`, some of them taken out of these first. -/
def placedBetween (before after ns : List NodeId) : List NodeId :=
  let rest := after.filter (· ∉ ns)
  let passed := before.countP (· ∈ ns)
  before.filter (· ∉ ns) ++ rest.take passed ++ ns ++ rest.drop passed

/-- The position among what is left, in parts of the children as they were. -/
theorem take_drop_filter (before after ns : List NodeId) :
    ((before ++ after).filter (· ∉ ns)).take before.length ++ ns ++
        ((before ++ after).filter (· ∉ ns)).drop before.length
      = placedBetween before after ns := by
  have hlength : before.length = (before.filter (· ∉ ns)).length + before.countP (· ∈ ns) := by
    rw [List.length_eq_countP_add_countP (l := before) (· ∈ ns), ← List.countP_eq_length_filter,
      Nat.add_comm]
    exact congrArg (· + _) (List.countP_congr fun c _ => by simp)
  rw [List.filter_append, hlength, List.take_length_add_append, List.drop_length_add_append]
  rfl

/-- The nodes stand where the position was if none of them stood before it,
    or nothing else stands behind it; otherwise they do not. -/
theorem placedBetween_eq_iff (before after ns : List NodeId) :
    placedBetween before after ns = before.filter (· ∉ ns) ++ ns ++ after.filter (· ∉ ns) ↔
      (∀ c ∈ before, c ∉ ns) ∨ ∀ c ∈ after, c ∈ ns := by
  have hnone : before.countP (· ∈ ns) = 0 ↔ ∀ c ∈ before, c ∉ ns := by
    simp [List.countP_eq_zero]
  have hempty : after.filter (· ∉ ns) = [] ↔ ∀ c ∈ after, c ∈ ns := by
    simp [List.filter_eq_nil_iff]
  rw [← hnone, ← hempty, placedBetween]
  generalize hrest : after.filter (· ∉ ns) = rest
  generalize hpassed : before.countP (· ∈ ns) = passed
  constructor
  · intro heq
    rw [List.append_assoc, List.append_assoc, List.append_assoc, List.append_cancel_left_eq] at heq
    -- The first of the others that was passed would be one of the nodes.
    rcases passed with - | passed
    · exact .inl rfl
    rcases rest with - | ⟨c, rest⟩
    · exact .inr rfl
    rcases ns with - | ⟨n, ns⟩
    · simp at hpassed
    · rw [List.take_succ_cons, List.cons_append, List.cons_append] at heq
      obtain rfl : c = n := (List.cons.inj heq).1
      have hc : c ∈ after.filter (· ∉ c :: ns) := hrest ▸ List.mem_cons_self
      exact absurd List.mem_cons_self (of_decide_eq_true (List.mem_filter.mp hc).2)
  · rintro (rfl | rfl)
    · simp
    · simp

/-- **Where inserted nodes stand.**  Nodes put at a position among the
    children of `p`, or in the place of one of them, stand together and in
    the order in which they are taken; the other children stay in theirs, and
    those before the position stay before the nodes, with as many more of
    those behind it as nodes were taken out before it.  So the nodes stand at
    the position exactly when none of them was before it or no other child is
    behind it. -/
theorem WellFormed.insert_placed (hf : f.WellFormed) (p : NodeId) :
    (∀ given, f.MayTake p (given.adopted f p) → ∀ position : Int,
      (f.insertGiven p position given).children p
        = placedBetween ((f.children p).take position.toNat) ((f.children p).drop position.toNat)
            (given.adopted f p)) ∧
    (∀ given i k, f.parent? i = some p → f.index? i = some k →
      f.MayTake p (given.substituted f p i) →
      (f.replaceWithGiven i given).children p
        = placedBetween ((f.children p).take k) ((f.children p).drop (k + 1))
            (given.substituted f p i)) ∧
    ∀ ns before after,
      placedBetween before after ns = before.filter (· ∉ ns) ++ ns ++ after.filter (· ∉ ns) ↔
        (∀ c ∈ before, c ∉ ns) ∨ ∀ c ∈ after, c ∈ ns := by
  refine ⟨fun given hmay position => ?_, fun given i k hi hk hmay => ?_,
    fun ns before after => placedBetween_eq_iff before after ns⟩
  · have hrehung := rehung_insert hf.linked hmay.inside hmay.lt_size position
    rw [insertGiven, hrehung.children, if_pos rfl, ← take_drop_filter, List.length_take,
      List.take_append_drop]
  · have hmem : i ∈ f.children p := (hf.linked.mem_iff i p).mpr hi
    obtain ⟨pre, post, hsplit⟩ := List.append_of_mem hmem
    have hnot := hf.not_mem_of_split hsplit
    obtain rfl : pre.length = k := Option.some.inj ((hf.index?_eq hsplit).symm.trans hk)
    have hkids : (f.detach i).children p = pre ++ post := by
      rw [children_detach_eq_filter (hf.linked.nodup p) (hf.linked.mem_iff i p).mp, hsplit,
        List.filter_append, List.filter_cons_of_neg (by simp), filter_ne_of_not_mem hnot.1,
        filter_ne_of_not_mem hnot.2]
    have hrehung := rehung_insert (hf.detach i).linked (by rw [size_detach]; exact hmay.inside)
      (fun c hc => by rw [size_detach]; exact hmay.lt_size c hc) pre.length
    have hlength : min (pre.length : Int).toNat (pre ++ post).length = pre.length := by
      rw [Int.toNat_natCast, List.length_append]
      omega
    have hrun : f.replaceWithGiven i given
        = (f.detach i).insert p (pre.length : Nat) (given.substituted f p i) := by
      simp only [replaceWithGiven, Forest.replaceWith, hi, hk]
    rw [hrun, hrehung.children, if_pos rfl, hkids, hlength, take_drop_filter, hsplit,
      List.take_left, List.drop_append, List.drop_eq_nil_of_le (Nat.le_succ _), Nat.add_sub_cancel_left]
    rfl

/-- Three paragraphs and a document above them. -/
def threeParagraphs : Forest :=
  [Edit.element { kind := .paragraph } (.own []), .element { kind := .paragraph } (.own []),
    .element { kind := .paragraph } (.own []),
    .element { kind := .document } (.own [0, 1, 2])].foldl Edit.run {}

/-- The document may take any of them anew. -/
theorem threeParagraphs_mayTake :
    threeParagraphs.WellFormed ∧ ∀ ns, (∀ c ∈ ns, c < 3) → threeParagraphs.MayTake 3 ns := by
  have h₁ := Edited.empty.element { kind := .paragraph } [] nofun
  have h₂ := h₁.element { kind := .paragraph } [] nofun
  have h₃ := h₂.element { kind := .paragraph } [] nofun
  have h₄ := h₃.element { kind := .document } [0, 1, 2] (by decide)
  refine ⟨h₄.wellFormed_of, fun ns hns => ⟨by decide, fun c hc => ?_, fun c hc h => ?_⟩⟩
  · exact Nat.lt_trans (hns c hc) (by decide)
  · -- The document has no parent, so nothing but itself stands above it.
    rcases h.eq_or with heq | ⟨p, hp, -⟩
    · subst heq
      exact absurd (hns _ hc) (by decide)
    · cases hp

/-- The last paragraph is put before the second one, the first one is put in
    the place of the last, and all of them are put before themselves. -/
theorem insert_placed_threeParagraphs :
    (threeParagraphs.insertGiven 3 1 (.own [2])).children 3 = [0, 2, 1] ∧
      (threeParagraphs.replaceWithGiven 2 (.own [0])).children 3 = [1, 0] ∧
      (threeParagraphs.insertGiven 3 0 (.stretch 3 0 3)).children 3 = [0, 2, 2, 1] := by
  obtain ⟨hf, hmay⟩ := threeParagraphs_mayTake
  refine ⟨?_, ?_, ?_⟩
  · exact (hf.insert_placed 3).1 (.own [2]) (hmay _ (by decide)) 1
  · exact (hf.insert_placed 3).2.1 (.own [0]) 2 2 (by decide) (by decide) (hmay _ (by decide))
  · exact (hf.insert_placed 3).1 (.stretch 3 0 3) (hmay _ (by decide)) 0

/-- The first paragraph put before the last one stands behind it. -/
theorem insert_passes_position :
    ¬∀ (f : Forest) (p : NodeId) (ns : List NodeId) (position : Int), f.WellFormed → f.MayHold p ns →
      (f.insertGiven p position (.own ns)).children p
        = ((f.children p).take position.toNat).filter (· ∉ ns) ++ ns ++
          ((f.children p).drop position.toNat).filter (· ∉ ns) := by
  intro hall
  obtain ⟨hf, hmay⟩ := threeParagraphs_mayTake
  have hplace := hall threeParagraphs 3 [0] 2 hf
    ((hmay [0] (by decide)).mayHold (List.nodup_singleton 0))
  revert hplace
  decide

/-! ## Nodes that are read while they are moved -/

/-- Every other node of a list, from the first one on. -/
def everyOther : List NodeId → List NodeId
  | [] => []
  | [i] => [i]
  | i :: _ :: rest => i :: everyOther rest

theorem length_everyOther : ∀ ns : List NodeId, (everyOther ns).length = (ns.length + 1) / 2
  | [] => by simp [everyOther]
  | [_] => by simp [everyOther]
  | _ :: _ :: rest => by
    simp only [everyOther, List.length_cons, length_everyOther rest]
    omega

/-- The children of `q` are different ones and have it as their parent. -/
structure Holds (f : Forest) (q : NodeId) : Prop where
  nodup : (f.children q).Nodup
  parent : ∀ c ∈ f.children q, f.parent? c = some q

theorem Holds.children_adopt (h : f.Holds q) (p i : NodeId) :
    (f.adopt p i).children q = (f.children q).filter (· ≠ i) := by
  rw [Forest.children_adopt, children_detach_eq_filter h.nodup (h.parent i)]

theorem Holds.adopt (h : f.Holds q) (hi : i < f.size) (p : NodeId) : (f.adopt p i).Holds q := by
  refine ⟨?_, fun c hc => ?_⟩
  · rw [h.children_adopt]
    exact h.nodup.filter _
  · rw [h.children_adopt, List.mem_filter] at hc
    rw [parent?_adopt hi, if_neg (of_decide_eq_true hc.2)]
    exact h.parent c hc.1

/-- Where nothing but one node is left over, that node is read.  Taking it out
    of the children changes nothing in what is stored. -/
theorem readStored_left_over {kept : List NodeId} (h : f.Holds q) (hx : x < f.size)
    (hkids : f.children q = kept ∨ f.children q = kept ++ [x]) (hnew : x ∉ kept) {left : Nat}
    (count k : Nat) (hk : kept.length ≤ k) (hcount : k + count ≤ kept.length + left) :
    readStored (fun f i => f.adopt p i) q count k f (kept ++ List.replicate left x)
      = List.replicate count x := by
  induction count generalizing f k with
  | zero => rfl
  | succ count ih =>
    have hread : (kept ++ List.replicate left x)[k]? = some x := by
      rw [List.getElem?_append_right hk, List.getElem?_replicate, if_pos (by omega)]
    have hafter : (f.adopt p x).children q = kept := by
      have hkept : kept.filter (· ≠ x) = kept :=
        List.filter_eq_self.mpr fun c hc => decide_eq_true fun heq => hnew (heq ▸ hc)
      rw [h.children_adopt]
      rcases hkids with hkids | hkids
      · rw [hkids, hkept]
      · rw [hkids, List.filter_append, hkept]
        simp
    have hstored : (f.adopt p x).stored q (kept ++ List.replicate left x)
        = kept ++ List.replicate left x := by
      rw [stored, hafter, List.drop_left]
    rw [readStored, hread]
    dsimp only
    rw [hstored, ih (h.adopt hx p) (by rwa [size_adopt]) (.inl hafter) (k + 1) (by omega) (by omega)]
    rfl

/-- By the nodes still to be read: the first is taken, the second moves into
    its place, and the last is stored once more. -/
theorem readStored_everyOther {kept rest : List NodeId} (h : f.Holds q)
    (hsize : ∀ c ∈ f.children q, c < f.size) (hkids : f.children q = kept ++ rest)
    (hlast : rest.getLast? = some x) {m : Nat} (count : Nat) (hcount : count ≤ rest.length + m) :
    readStored (fun f i => f.adopt p i) q count kept.length f (kept ++ rest ++ List.replicate m x)
      = (everyOther rest ++ List.replicate count x).take count := by
  induction count generalizing f kept rest m with
  | zero => rfl
  | succ count ih =>
    obtain ⟨i, rest, rfl⟩ := List.exists_cons_of_ne_nil (l := rest) (by rintro rfl; cases hlast)
    have hi : i < f.size := hsize i (by simp [hkids])
    have hnodup : (kept ++ i :: rest).Nodup := hkids ▸ h.nodup
    have hread : (kept ++ i :: rest ++ List.replicate m x)[kept.length]? = some i := by
      rw [List.append_assoc, List.getElem?_append_right (Nat.le_refl _), Nat.sub_self]
      rfl
    have hafter : (f.adopt p i).children q = kept ++ rest := by
      have hnot : i ∉ kept ∧ i ∉ rest := by
        rw [List.nodup_append] at hnodup
        exact ⟨fun hmem => hnodup.2.2 i hmem i List.mem_cons_self rfl,
          (List.nodup_cons.mp hnodup.2.1).1⟩
      rw [h.children_adopt, hkids, List.filter_append, List.filter_cons_of_neg (by simp),
        filter_ne_of_not_mem hnot.1, filter_ne_of_not_mem hnot.2]
    -- What is stored behind the children is the last of them, or the node itself.
    have hstored : (f.adopt p i).stored q (kept ++ i :: rest ++ List.replicate m x)
        = kept ++ rest ++ List.replicate (m + 1) x := by
      have hend : (i :: rest).drop rest.length = [x] := by
        have hdrop : ((i :: rest).dropLast ++ [x]).drop (i :: rest).dropLast.length = [x] :=
          List.drop_left
        rwa [List.dropLast_append_getLast? x hlast, List.length_dropLast] at hdrop
      rw [stored, hafter, List.length_append, List.append_assoc kept (i :: rest),
        List.drop_length_add_append, List.drop_append_of_le_length (by simp), hend]
      rfl
    have hx : x < f.size := hsize x (by
      rw [hkids]
      exact List.mem_append_right _ (List.mem_of_getLast? hlast))
    have hnext := h.adopt hi p
    rw [readStored, hread]
    dsimp only
    rw [hstored]
    cases rest with
    | nil =>
      obtain rfl : i = x := Option.some.inj hlast
      rw [List.append_nil, readStored_left_over hnext (by rwa [size_adopt])
        (.inl (hafter.trans (List.append_nil _))) ?_ count _ (Nat.le_succ _) (by simp at hcount; omega)]
      · simp [everyOther, List.take_replicate]
      · rw [List.nodup_append] at hnodup
        exact fun hmem => hnodup.2.2 i hmem i List.mem_cons_self rfl
    | cons j rest =>
      rw [List.append_cons] at hafter
      cases rest with
      | nil =>
        obtain rfl : j = x := by simpa using hlast
        have hcells : kept ++ [j] ++ List.replicate (m + 1) j
            = kept ++ List.replicate (m + 2) j := by
          rw [List.append_assoc]
          rfl
        rw [hcells, readStored_left_over hnext (by rwa [size_adopt])
          (.inr (hafter.trans (List.append_nil _))) ?_ count _ (Nat.le_succ _)
          (by simp at hcount; omega)]
        · simp [everyOther, List.take_replicate]
        · rw [List.nodup_append] at hnodup
          exact fun hmem => hnodup.2.2 j hmem j (by simp) rfl
      | cons l rest =>
        have hothers := ih hnext (fun c hc => by
          rw [hafter] at hc
          rw [size_adopt]
          refine hsize c ?_
          rw [hkids]
          simp only [List.mem_append, List.mem_cons, List.not_mem_nil, or_false] at hc ⊢
          tauto) hafter (by simpa using hlast) (m := m + 1) (by simp at hcount ⊢; omega)
        rw [List.length_append, List.length_singleton] at hothers
        rw [List.append_cons, hothers]
        simp only [everyOther, List.cons_append, List.take_succ_cons, List.take_append,
          List.take_replicate]
        congr 3
        omega

/-- **Of children that are given as they are stored, every other one is
    taken**, and then the last one again and again. -/
theorem WellFormed.adopted_stretch (hf : f.WellFormed) (hlast : (f.children q).getLast? = some x)
    {start count : Nat} (h : start + count ≤ (f.children q).length) (p : NodeId) :
    (Given.stretch q start count).adopted f p
      = (everyOther ((f.children q).drop start) ++ List.replicate count x).take count := by
  cases count with
  | zero => rfl
  | succ count =>
    have hholds : f.Holds q := ⟨hf.linked.nodup q, fun c hc => (hf.linked.mem_iff c q).mp hc⟩
    have hsize : ∀ c ∈ f.children q, c < f.size := fun c hc =>
      lt_size_of_parent? (hholds.parent c hc)
    have hstored : f.stored q (f.children q) = f.children q := by
      rw [stored, List.drop_length, List.append_nil]
    have hlength : ((f.children q).take start).length = start := by
      rw [List.length_take]
      omega
    have hread := readStored_everyOther (p := p) (m := 0) hholds hsize
      (List.take_append_drop start _).symm
      (by rw [List.getLast?_drop, if_neg (by omega)]; exact hlast) (count + 1)
      (by rw [List.length_drop]; omega)
    rw [hlength, List.take_append_drop, List.replicate_zero, List.append_nil] at hread
    rw [Given.adopted, Given.taken, hstored]
    exact hread

/-- All children of a node that has more than two do not stay apart when they
    are given as they are stored. -/
theorem WellFormed.not_nodup_adopted (hf : f.WellFormed) (hmany : 2 < (f.children q).length)
    (p : NodeId) : ¬((Given.stretch q 0 (f.children q).length).adopted f p).Nodup := by
  obtain ⟨x, hlast⟩ : ∃ x, (f.children q).getLast? = some x :=
    Option.isSome_iff_exists.mp (List.getLast?_isSome.mpr fun h => by simp [h] at hmany)
  rw [hf.adopted_stretch hlast (Nat.le_of_eq (Nat.zero_add _)) p, List.drop_zero]
  generalize f.children q = kids at hmany hlast
  intro hnodup
  rw [List.take_append, List.take_of_length_le (by rw [length_everyOther]; omega), length_everyOther,
    List.take_replicate, List.nodup_append] at hnodup
  obtain ⟨-, hreplicate, hdisjoint⟩ := hnodup
  match kids with
  | [a, b, c] =>
    obtain rfl : c = x := by simpa using hlast
    exact hdisjoint c (by simp [everyOther]) c (by simp) rfl
  | _ :: _ :: _ :: _ :: rest =>
    rw [List.nodup_replicate] at hreplicate
    simp only [List.length_cons] at hreplicate
    omega

/-- So they may not be given in that way: some node would be a child twice. -/
theorem WellFormed.not_insert_children (hf : f.WellFormed) (hmany : 2 < (f.children q).length)
    (hmay : f.MayTake p ((Given.stretch q 0 (f.children q).length).adopted f p)) (position : Int) :
    ¬(f.insertGiven p position (.stretch q 0 (f.children q).length)).WellFormed := fun h =>
  hf.not_nodup_adopted hmany p ((hf.insert_iff hmay position).mp h)

end Forest

end MarkupLint
