import Mathlib.Data.List.Nodup
import MarkupLint.Proofs.Message

/-! # Well-formed forests

    In a well-formed forest a node with a parent is once among the children
    of that parent, and among those of no other node, and the way up from a
    node ends.  The nodes keep it so when nodes are put elsewhere
    (`Rehung.wellFormed`): all that editing does is to hang some nodes, in
    some order, under a node that stands under none of them. -/

namespace MarkupLint

/-- What a node is, wherever it stands. -/
def Node.bare (n : Node) : Node := { n with children := [], parent := none }

namespace Forest

/-! ## The way up -/

/-- The way up from a node ends at one without a parent. -/
inductive Ends (f : Forest) : NodeId → Prop
  | top {i : NodeId} (h : f.parent? i = none) : Ends f i
  | up {i p : NodeId} (h : f.parent? i = some p) (rest : Ends f p) : Ends f i

/-- A node is `a`, or `a` is on the way up from it. -/
inductive Above (f : Forest) (a : NodeId) : NodeId → Prop
  | here : Above f a a
  | up {i p : NodeId} (h : f.parent? i = some p) (rest : Above f a p) : Above f a i

/-- Nodes and their parents agree, and there are no circles. -/
structure WellFormed (f : Forest) : Prop where
  once : ∀ i p, f.parent? i = some p → (f.children p).count i = 1
  only : ∀ i p, i ∈ f.children p → f.parent? i = some p
  ends : ∀ i, f.Ends i

/-- Nodes and their parents agree. -/
structure Linked (f : Forest) : Prop where
  nodup : ∀ p, (f.children p).Nodup
  mem_iff : ∀ i p, i ∈ f.children p ↔ f.parent? i = some p

variable {f g : Forest} {i j p q a : NodeId} {ns kids : List NodeId}

namespace Above

theorem trans (hai : f.Above a i) (hij : f.Above i j) : f.Above a j := by
  induction hij with
  | here => exact hai
  | up h _ ih => exact .up h ih

/-- What is above a node is above its parent, or is the node. -/
theorem eq_or (h : f.Above a i) : i = a ∨ ∃ p, f.parent? i = some p ∧ f.Above a p := by
  cases h with
  | here => exact .inl rfl
  | up h rest => exact .inr ⟨_, h, rest⟩

/-- Where the way up ends there is no circle. -/
theorem not_circle (h : f.Ends i) (hp : f.parent? i = some p) : ¬f.Above i p := by
  induction h generalizing p with
  | top hnone => rw [hnone] at hp; cases hp
  | @up i q hq rest ih =>
    obtain rfl : q = p := Option.some.inj (hq.symm.trans hp)
    intro hcircle
    rcases hcircle.eq_or with rfl | ⟨r, hr, habove⟩
    · exact ih hp .here
    · exact ih hr ((Above.up hq .here).trans habove)

/-- Two nodes above one node are above each other, one way or the other. -/
theorem total {b : NodeId} (ha : f.Above a i) (hb : f.Above b i) : f.Above a b ∨ f.Above b a := by
  induction ha with
  | here => exact .inr hb
  | up h rest ih =>
    rcases hb.eq_or with rfl | ⟨r, hr, hbr⟩
    · exact .inl (.up h rest)
    · obtain rfl := Option.some.inj (h.symm.trans hr)
      exact ih hbr

end Above

/-- Nothing else is above a node without a parent. -/
theorem not_above_of_orphan (hnone : f.parent? i = none) (hi : i ∉ ns) : ∀ c ∈ ns, ¬f.Above c i := by
  intro c hc habove
  rcases habove.eq_or with rfl | ⟨p, hp, -⟩
  · exact hi hc
  · cases hnone.symm.trans hp

theorem parent?_of_size_le (h : f.size ≤ i) : f.parent? i = none := by
  rw [parent?, get_of_size_le h]
  rfl

theorem children_of_size_le (h : f.size ≤ i) : f.children i = [] := by
  rw [children, get_of_size_le h]
  rfl

theorem lt_size_of_parent? (h : f.parent? i = some p) : i < f.size := by
  by_contra hlt
  rw [parent?_of_size_le (Nat.le_of_not_lt hlt)] at h
  cases h

/-- What is no document is a node of the forest. -/
theorem lt_size_of_kind {k : Kind} (hk : k ≠ .document) (h : (f.get i).kind = k) : i < f.size := by
  by_contra hlt
  rw [get_of_size_le (Nat.le_of_not_lt hlt)] at h
  exact hk h.symm

theorem lt_size_of_mem_children (h : i ∈ f.children p) : p < f.size := by
  by_contra hlt
  rw [children_of_size_le (Nat.le_of_not_lt hlt)] at h
  cases h

theorem WellFormed.linked (h : f.WellFormed) : f.Linked where
  nodup p := List.nodup_iff_count_le_one.mpr fun i => by
    by_cases hi : i ∈ f.children p
    · exact Nat.le_of_eq (h.once i p (h.only i p hi))
    · rw [List.count_eq_zero.mpr hi]
      exact Nat.zero_le 1
  mem_iff i p := ⟨h.only i p, fun hp => List.count_pos_iff.mp (by rw [h.once i p hp]; decide)⟩

theorem Linked.wellFormed (h : f.Linked) (hends : ∀ i, f.Ends i) : f.WellFormed where
  once i p hp := List.count_eq_one_of_mem (h.nodup p) ((h.mem_iff i p).mpr hp)
  only i p := (h.mem_iff i p).mp
  ends := hends

/-! ## Taking nodes out -/

theorem get_detach (f : Forest) (i j : NodeId) :
    (f.detach i).get j = { f.get j with
      children := if f.parent? i = some j then (f.children j).erase i else f.children j
      parent := if j = i then none else f.parent? j } := by
  unfold detach
  cases hi : f.parent? i with
  | none =>
    have hsame : (if j = i then none else f.parent? j) = f.parent? j := by
      split
      · rename_i hji
        rw [hji, hi]
      · rfl
    rw [hsame]
    rfl
  | some p =>
    have hlt : i < f.size := lt_size_of_parent? hi
    by_cases hj : j < f.size
    · simp only [get_modify, size_modify, hj, and_true, Option.some.injEq, eq_comm (a := j)]
      by_cases hij : i = j <;> by_cases hpj : p = j <;> simp [hij, hpj, children, parent?]
    · have hji : j ≠ i := fun h => hj (h ▸ hlt)
      have hget : f.get j = default := get_of_size_le (Nat.le_of_not_lt hj)
      simp only [get_modify, size_modify, hj, and_false, if_false, hji, children, parent?, hget]
      split <;> rfl

theorem parent?_detach (f : Forest) (i j : NodeId) :
    (f.detach i).parent? j = if j = i then none else f.parent? j := by
  rw [parent?, get_detach]

theorem children_detach (f : Forest) (i j : NodeId) :
    (f.detach i).children j
      = if f.parent? i = some j then (f.children j).erase i else f.children j := by
  rw [children, get_detach]

@[simp] theorem bare_detach (f : Forest) (i j : NodeId) :
    ((f.detach i).get j).bare = (f.get j).bare := by
  rw [get_detach]
  rfl

@[simp] theorem size_detach (f : Forest) (i : NodeId) : (f.detach i).size = f.size := by
  unfold detach
  split <;> simp

/-- A node that is at most once among the children of its parent, and among no
    others, is taken out of all children. -/
theorem children_detach_eq_filter (hnodup : (f.children j).Nodup)
    (hmem : i ∈ f.children j → f.parent? i = some j) :
    (f.detach i).children j = (f.children j).filter (· ≠ i) := by
  rw [children_detach]
  split
  · rw [hnodup.erase_eq_filter]
    exact List.filter_congr fun c _ => by rw [Bool.eq_iff_iff]; simp
  · rename_i hne
    refine (List.filter_eq_self.mpr fun c hc => ?_).symm
    simp only [ne_eq, decide_eq_true_eq]
    rintro rfl
    exact hne (hmem hc)

theorem Above.of_detach (h : (f.detach i).Above a j) : f.Above a j := by
  induction h with
  | here => exact .here
  | up hp _ ih =>
    rw [parent?_detach] at hp
    split at hp
    · cases hp
    · exact .up hp ih

theorem Linked.detach (h : f.Linked) (i : NodeId) : (f.detach i).Linked := by
  have hkids : ∀ q, (f.detach i).children q = (f.children q).filter (· ≠ i) := fun q =>
    children_detach_eq_filter (h.nodup q) (h.mem_iff i q).mp
  refine ⟨fun q => ?_, fun c q => ?_⟩
  · rw [hkids]
    exact (h.nodup q).filter _
  · rw [hkids, List.mem_filter, parent?_detach, h.mem_iff]
    by_cases hci : c = i <;> simp [hci]

theorem WellFormed.detach (h : f.WellFormed) (i : NodeId) : (f.detach i).WellFormed := by
  refine (h.linked.detach i).wellFormed fun c => ?_
  induction h.ends c with
  | @top c hnone =>
    refine .top ?_
    rw [parent?_detach]
    split
    · rfl
    · exact hnone
  | @up c q hq _ ih =>
    by_cases hci : c = i
    · exact .top (by rw [parent?_detach, if_pos hci])
    · exact .up (by rw [parent?_detach, if_neg hci]; exact hq) ih

/-! ## Hanging nodes up elsewhere -/

theorem parent?_adopt (hi : i < f.size) (j : NodeId) :
    (f.adopt p i).parent? j = if j = i then some p else f.parent? j := by
  rw [adopt, parent?, get_modify, size_detach]
  by_cases hij : i = j
  · rw [if_pos ⟨hij, hij ▸ hi⟩, if_pos hij.symm]
  · rw [if_neg (fun h => hij h.1), if_neg (Ne.symm hij)]
    exact (parent?_detach f i j).trans (if_neg (Ne.symm hij))

theorem children_adopt (f : Forest) (p i j : NodeId) :
    (f.adopt p i).children j = (f.detach i).children j :=
  children_modify _ i j fun _ => rfl

@[simp] theorem bare_adopt (f : Forest) (p i j : NodeId) :
    ((f.adopt p i).get j).bare = (f.get j).bare := by
  rw [← bare_detach f i, adopt, get_modify]
  split <;> rfl

/-- From `f` to `g`, nodes were hung under `p`, which has the children `kids`
    then; nothing else happened. -/
structure Rehung (f g : Forest) (p : NodeId) (ns kids : List NodeId) : Prop where
  size : g.size = f.size
  bare : ∀ j, (g.get j).bare = (f.get j).bare
  parent : ∀ j, g.parent? j = if j ∈ ns then some p else f.parent? j
  children : ∀ j, g.children j = if j = p then kids else (f.children j).filter (· ∉ ns)

/-- The nodes can be hung under `p`: it is none of them, and it stands under
    none of them. -/
structure MayHold (f : Forest) (p : NodeId) (ns : List NodeId) : Prop where
  inside : p < f.size
  nodup : ns.Nodup
  lt_size : ∀ c ∈ ns, c < f.size
  not_above : ∀ c ∈ ns, ¬f.Above c p

/-- The nodes may go under `p` one after the other: it is none of them, and it
    stands under none of them. -/
structure MayTake (f : Forest) (p : NodeId) (ns : List NodeId) : Prop where
  inside : p < f.size
  lt_size : ∀ c ∈ ns, c < f.size
  not_above : ∀ c ∈ ns, ¬f.Above c p

theorem MayTake.mayHold (h : f.MayTake p ns) (hnodup : ns.Nodup) : f.MayHold p ns :=
  ⟨h.inside, hnodup, h.lt_size, h.not_above⟩

namespace Rehung

/-- Above a node that stands under none of the nodes that were hung up,
    nothing is new. -/
theorem above_old (h : f.Rehung g p ns kids) (hj : ∀ c ∈ ns, ¬f.Above c j) (ha : g.Above a j) :
    f.Above a j := by
  induction ha with
  | here => exact .here
  | @up j q hq _ ih =>
    rw [h.parent, if_neg fun hmem => hj j hmem .here] at hq
    exact .up hq (ih fun c hc habove => hj c hc (.up hq habove))

theorem ends (h : f.Rehung g p ns kids) (hf : f.WellFormed) (hmay : f.MayHold p ns) (i : NodeId) :
    g.Ends i := by
  have hold : ∀ i, (∀ c ∈ ns, ¬f.Above c i) → g.Ends i := by
    intro i
    induction hf.ends i with
    | @top i hnone =>
      intro hi
      refine .top ?_
      rw [h.parent, if_neg fun hmem => hi i hmem .here, hnone]
    | @up i q hq _ ih =>
      intro hi
      refine .up ?_ (ih fun c hc habove => hi c hc (.up hq habove))
      rw [h.parent, if_neg fun hmem => hi i hmem .here, hq]
  -- So the way up from `p` ends, and every other way joins it or is an old one.
  have hp : g.Ends p := hold p hmay.not_above
  induction hf.ends i with
  | @top i hnone =>
    by_cases hmem : i ∈ ns
    · exact .up (by rw [h.parent, if_pos hmem]) hp
    · exact .top (by rw [h.parent, if_neg hmem, hnone])
  | @up i q hq _ ih =>
    by_cases hmem : i ∈ ns
    · exact .up (by rw [h.parent, if_pos hmem]) hp
    · exact .up (by rw [h.parent, if_neg hmem, hq]) ih

/-- Nodes and their parents agree on where the nodes were hung. -/
theorem linked (h : f.Rehung g p ns kids) (hf : f.Linked) (hnodup : ns.Nodup)
    (hkids : kids.Perm ((f.children p).filter (· ∉ ns) ++ ns)) : g.Linked := by
  have hmem : ∀ c, c ∈ kids ↔ f.parent? c = some p ∧ c ∉ ns ∨ c ∈ ns := fun c => by
    rw [hkids.mem_iff, List.mem_append, List.mem_filter, hf.mem_iff, decide_eq_true_iff]
  refine ⟨fun q => ?_, fun c q => ?_⟩
  · rw [h.children]
    split
    · refine hkids.nodup_iff.mpr (List.nodup_append.mpr ⟨(hf.nodup p).filter _, hnodup, ?_⟩)
      rintro c hc _ hc' rfl
      exact of_decide_eq_true (List.mem_filter.mp hc).2 hc'
    · exact (hf.nodup q).filter _
  · rw [h.children, h.parent]
    by_cases hqp : q = p
    · subst hqp
      rw [if_pos rfl, hmem]
      by_cases hc : c ∈ ns <;> simp [hc]
    · rw [if_neg hqp, List.mem_filter, hf.mem_iff]
      by_cases hc : c ∈ ns <;> simp [hc, Ne.symm hqp]

/-- Hanging nodes under one that stands under none of them keeps a forest
    well-formed. -/
theorem wellFormed (h : f.Rehung g p ns kids) (hf : f.WellFormed) (hmay : f.MayHold p ns)
    (hkids : kids.Perm ((f.children p).filter (· ∉ ns) ++ ns)) : g.WellFormed :=
  (h.linked hf.linked hmay.nodup hkids).wellFormed (h.ends hf hmay)

end Rehung

/-- Naming `p` the parent of several nodes takes them out of all children,
    also if one of them is named again. -/
theorem foldl_adopt (hsize : ∀ c ∈ ns, c < f.size) (hkids : ∀ q, (f.children q).Nodup)
    (hmem : ∀ c q, c ∈ f.children q → f.parent? c = some q) (j : NodeId) :
    (ns.foldl (fun f i => f.adopt p i) f).size = f.size ∧
      ((ns.foldl (fun f i => f.adopt p i) f).get j).bare = (f.get j).bare ∧
      (ns.foldl (fun f i => f.adopt p i) f).parent? j
        = (if j ∈ ns then some p else f.parent? j) ∧
      (ns.foldl (fun f i => f.adopt p i) f).children j = (f.children j).filter (· ∉ ns) := by
  induction ns generalizing f with
  | nil => simp
  | cons c ns ih =>
    have hc : c < f.size := hsize c List.mem_cons_self
    have hkids' : ∀ q, (f.adopt p c).children q = (f.children q).filter (· ≠ c) := fun q => by
      rw [children_adopt, children_detach_eq_filter (hkids q) (hmem c q)]
    obtain ⟨hsize', hbare, hparent, hchildren⟩ := ih (f := f.adopt p c)
      (fun i hi => by rw [size_adopt]; exact hsize i (List.mem_cons_of_mem _ hi))
      (fun q => by rw [hkids']; exact (hkids q).filter _)
      (fun i q hi => by
        rw [hkids', List.mem_filter] at hi
        rw [parent?_adopt hc, if_neg (of_decide_eq_true hi.2)]
        exact hmem i q hi.1)
    refine ⟨hsize'.trans (size_adopt f p c), hbare.trans (bare_adopt f p c j), ?_, ?_⟩
    · rw [List.foldl_cons, hparent, parent?_adopt hc]
      by_cases hjc : j = c <;> by_cases hj : j ∈ ns <;> simp [hjc, hj]
    · rw [List.foldl_cons, hchildren, hkids', List.filter_filter]
      exact List.filter_congr fun i _ => by
        rw [Bool.eq_iff_iff]
        simp [and_comm]

/-- Where nodes stand after they were put among the children of `p`. -/
theorem rehung_insert (hf : f.Linked) (hp : p < f.size) (hsize : ∀ c ∈ ns, c < f.size)
    (position : Int) :
    f.Rehung (f.insert p position ns) p ns
      (((f.children p).filter (· ∉ ns)).take (min position.toNat (f.children p).length) ++ ns ++
        ((f.children p).filter (· ∉ ns)).drop (min position.toNat (f.children p).length)) := by
  have hadopt := foldl_adopt (p := p) hsize hf.nodup fun c q => (hf.mem_iff c q).mp
  have hget : ∀ j, (f.insert p position ns).get j = _ := fun j => get_modify _ p j _
  have hp' : p < (ns.foldl (fun f i => f.adopt p i) f).size := by rwa [(hadopt p).1]
  refine ⟨?_, fun j => ?_, fun j => ?_, fun j => ?_⟩
  · rw [insert, size_modify, (hadopt p).1]
  · rw [hget, ← (hadopt j).2.1]
    split <;> rfl
  · rw [parent?, hget, ← (hadopt j).2.2.1]
    split <;> rfl
  · rw [children, hget]
    by_cases hj : j = p
    · subst hj
      rw [if_pos ⟨rfl, hp'⟩, if_pos rfl, ← (hadopt j).2.2.2]
      rfl
    · rw [if_neg fun h => hj h.1.symm, if_neg hj, ← (hadopt j).2.2.2]
      rfl

/-- Where nodes stand after one of them was put behind the children of `p`. -/
theorem rehung_push (hf : f.Linked) (hp : p < f.size) (hi : i < f.size) :
    f.Rehung (f.hang p i) p [i]
      ((f.children p).filter (· ∉ [i]) ++ [i]) := by
  have hget : ∀ j, (f.hang p i).get j = _ := fun j => get_modify _ p j _
  have hkids : ∀ q, (f.adopt p i).children q = (f.children q).filter (· ∉ [i]) := fun q => by
    rw [children_adopt, children_detach_eq_filter (hf.nodup q) (hf.mem_iff i q).mp]
    exact List.filter_congr fun c _ => by simp
  refine ⟨?_, fun j => ?_, fun j => ?_, fun j => ?_⟩
  · exact size_hang f p i
  · rw [hget, ← bare_adopt f p i]
    split <;> rfl
  · simp only [List.mem_singleton]
    rw [← parent?_adopt hi, parent?, hget]
    split <;> rfl
  · rw [children, hget]
    by_cases hj : j = p
    · subst hj
      rw [if_pos ⟨rfl, by rwa [size_adopt]⟩, if_pos rfl, ← hkids]
      rfl
    · rw [if_neg fun h => hj h.1.symm, if_neg hj, ← hkids]
      rfl

/-- Where nodes stand after they were put behind the children of `p`, one
    after the other. -/
theorem rehung_append (hf : f.Linked) (hp : p < f.size) (hnodup : ns.Nodup)
    (hsize : ∀ c ∈ ns, c < f.size) :
    f.Rehung (f.append p ns) p ns ((f.children p).filter (· ∉ ns) ++ ns) := by
  induction ns generalizing f with
  | nil =>
    refine ⟨rfl, fun _ => rfl, fun _ => rfl, fun j => ?_⟩
    by_cases hj : j = p <;> simp [append, hj]
  | cons c ns ih =>
    obtain ⟨hnew, hnodup'⟩ := List.nodup_cons.mp hnodup
    have hone := rehung_push hf hp (hsize c List.mem_cons_self)
    have hrest := ih (hone.linked hf (List.nodup_singleton c) (List.Perm.refl _))
      (by rwa [hone.size]) hnodup' fun i hi => by
        rw [hone.size]
        exact hsize i (List.mem_cons_of_mem _ hi)
    have hboth : ∀ q, ((f.children q).filter (· ∉ [c])).filter (· ∉ ns)
        = (f.children q).filter (· ∉ c :: ns) := fun q => by
      rw [List.filter_filter]
      exact List.filter_congr fun i _ => by
        rw [Bool.eq_iff_iff]
        simp [and_comm]
    refine ⟨hrest.size.trans hone.size, fun j => (hrest.bare j).trans (hone.bare j), fun j => ?_,
      fun j => ?_⟩
    · refine (hrest.parent j).trans ?_
      rw [hone.parent]
      by_cases hj : j = c <;> by_cases hjs : j ∈ ns <;> simp [hj, hjs]
    · refine (hrest.children j).trans ?_
      simp only [hone.children]
      by_cases hj : j = p
      · have hlast : [c].filter (· ∉ ns) = [c] := by simp [hnew]
        rw [if_pos hj, if_pos hj, if_true, List.filter_append, hboth, hlast, List.append_assoc]
        rfl
      · rw [if_neg hj, if_neg hj, if_neg hj, hboth]

/-- Some nodes put among others are those and the others. -/
theorem perm_take_append_drop (rest ns : List NodeId) (k : Nat) :
    (rest.take k ++ ns ++ rest.drop k).Perm (rest ++ ns) := by
  rw [List.append_assoc]
  refine (List.perm_append_comm.append_left _).trans ?_
  rw [← List.append_assoc, List.take_append_drop]

/-! ## What editing keeps -/

/-- A new node has no parent. -/
theorem parent?_alloc (f : Forest) (n : Node) (j : NodeId) :
    (f.alloc n).2.parent? j = f.parent? j := by
  rw [parent?, get_alloc]
  split
  · rename_i hj
    rw [parent?_of_size_le (Nat.le_of_eq hj.symm)]
  · rfl

/-- And no children. -/
theorem children_alloc (f : Forest) (n : Node) (j : NodeId) :
    (f.alloc n).2.children j = f.children j := by
  rw [children, get_alloc]
  split
  · rename_i hj
    rw [children_of_size_le (Nat.le_of_eq hj.symm)]
  · rfl

theorem Linked.alloc (hf : f.Linked) (n : Node) : (f.alloc n).2.Linked := by
  refine ⟨fun q => ?_, fun c q => ?_⟩
  · rw [children_alloc]
    exact hf.nodup q
  · rw [children_alloc, parent?_alloc]
    exact hf.mem_iff c q

theorem Linked.append (hf : f.Linked) (hp : p < f.size) (hnodup : ns.Nodup)
    (hsize : ∀ c ∈ ns, c < f.size) : (f.append p ns).Linked :=
  (rehung_append hf hp hnodup hsize).linked hf hnodup (List.Perm.refl _)

theorem Linked.insert (hf : f.Linked) (hp : p < f.size) (hnodup : ns.Nodup)
    (hsize : ∀ c ∈ ns, c < f.size) (position : Int) : (f.insert p position ns).Linked :=
  (rehung_insert hf hp hsize position).linked hf hnodup (perm_take_append_drop _ _ _)

namespace WellFormed

theorem append (hf : f.WellFormed) (hmay : f.MayHold p ns) : (f.append p ns).WellFormed :=
  (rehung_append hf.linked hmay.inside hmay.nodup hmay.lt_size).wellFormed hf hmay (List.Perm.refl _)

/-- Nodes that are hung up one after the other need not be different. -/
theorem append_each (hf : f.WellFormed) (hmay : f.MayTake p ns) : (f.append p ns).WellFormed := by
  induction ns generalizing f with
  | nil => exact hf
  | cons c ns ih =>
    obtain ⟨hc, hsize⟩ := List.forall_mem_cons.mp hmay.lt_size
    obtain ⟨habove, hothers⟩ := List.forall_mem_cons.mp hmay.not_above
    have hfirst : f.MayTake p [c] :=
      ⟨hmay.inside, List.forall_mem_singleton.mpr hc, List.forall_mem_singleton.mpr habove⟩
    have hone := rehung_push hf.linked hmay.inside hc
    refine ih (f := f.hang p c) (hf.append (hfirst.mayHold (List.nodup_singleton c))) ⟨?_, ?_, ?_⟩
    · rw [size_hang]
      exact hmay.inside
    · rw [size_hang]
      exact hsize
    · exact fun i hi h => hothers i hi (hone.above_old hfirst.not_above h)

theorem insert (hf : f.WellFormed) (hmay : f.MayHold p ns) (position : Int) :
    (f.insert p position ns).WellFormed :=
  (rehung_insert hf.linked hmay.inside hmay.lt_size position).wellFormed hf hmay
    (perm_take_append_drop _ _ _)

/-- Nodes that are put at one position have to be different, for all of them
    are children then. -/
theorem insert_iff (hf : f.WellFormed) (hmay : f.MayTake p ns) (position : Int) :
    (f.insert p position ns).WellFormed ↔ ns.Nodup := by
  refine ⟨fun h => ?_, fun hnodup => hf.insert (hmay.mayHold hnodup) position⟩
  have hkids := h.linked.nodup p
  rw [(rehung_insert hf.linked hmay.inside hmay.lt_size position).children, if_pos rfl] at hkids
  exact hkids.of_append_left.of_append_right

/-- Nodes may stand in the place of another one, if the parent of that one
    stands under none of them; that one may be among them. -/
theorem replaceWith (hf : f.WellFormed) (hnodup : ns.Nodup) (hsize : ∀ c ∈ ns, c < f.size)
    (habove : ∀ p, f.parent? i = some p → ∀ c ∈ ns, ¬f.Above c p) :
    (f.replaceWith i ns).WellFormed := by
  unfold Forest.replaceWith
  split
  · exact hf
  · rename_i p hp
    refine (hf.detach i).insert ⟨?_, hnodup, ?_, fun c hc h => habove p hp c hc h.of_detach⟩ _
    · rw [size_detach]
      exact lt_size_of_mem_children ((hf.linked.mem_iff i p).mpr hp)
    · rw [size_detach]
      exact hsize

/-- A new node stands nowhere. -/
theorem alloc (hf : f.WellFormed) (n : Node) : (f.alloc n).2.WellFormed := by
  refine (hf.linked.alloc n).wellFormed fun c => ?_
  induction hf.ends c with
  | top hnone => exact .top ((parent?_alloc f n _).trans hnone)
  | up hq _ ih => exact .up ((parent?_alloc f n _).trans hq) ih

end WellFormed

end Forest

end MarkupLint
