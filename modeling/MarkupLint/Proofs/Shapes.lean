import MarkupLint.Proofs.Copying

/-! # The shapes of trees

    A shape is a tree as a value: what its nodes are and how they stand to
    each other, without the places where they are kept.  In a well-formed
    forest every node has a shape (`shape_eq`), and text and walks can be
    read off node by node (`asText_eq`, `walk_eq`). -/

namespace MarkupLint

namespace Tree

mutual

/-- The plain text of a tree. -/
def text : Tree → String
  | .node n kids =>
    if n.kind = .text then n.value
    else (if n.kind.isTextual then "" else "\n\n").intercalate (texts kids)

def texts : List Tree → List String
  | [] => []
  | t :: ts => t.text :: texts ts

end

theorem texts_eq_map (ts : List Tree) : texts ts = ts.map text := by
  induction ts with
  | nil => rfl
  | cons t ts ih => rw [texts, List.map_cons, ih]

end Tree

namespace Forest

variable {f g : Forest} {i j c p q a : NodeId} {n m : Nat} {is js : List NodeId}
  {ts us : List Tree} {P : NodeId → Prop}

/-- The shape of the tree below a node, down to some level. -/
def shapeWithin (f : Forest) : Nat → NodeId → Tree
  | 0, i => .node (f.get i).bare []
  | n + 1, i => .node (f.get i).bare ((f.children i).map (f.shapeWithin n))

/-- The shape of the tree below a node. -/
def shape (f : Forest) (i : NodeId) : Tree := f.shapeWithin (f.size + 1) i

/-- Side by side, the trees below some nodes have some shapes. -/
inductive Shows (f : Forest) : List NodeId → List Tree → Prop
  | nil : Shows f [] []
  | cons {i : NodeId} {is : List NodeId} {kids rest : List Tree}
      (below : Shows f (f.children i) kids) (beside : Shows f is rest) :
      Shows f (i :: is) (.node (f.get i).bare kids :: rest)

/-! ## One level at a time -/

/-- More depth than there is shows nothing more. -/
theorem shapeWithin_congr (h : f.Within n i) (hnm : n ≤ m) :
    f.shapeWithin m i = f.shapeWithin n i := by
  induction n generalizing i m with
  | zero => exact h.elim
  | succ n ih =>
    obtain ⟨m, rfl⟩ := Nat.exists_eq_add_of_le' (Nat.lt_of_lt_of_le (Nat.succ_pos n) hnm)
    rw [shapeWithin, shapeWithin]
    congr 1
    exact List.map_congr_left fun c hc => ih (h c hc) (Nat.le_of_succ_le_succ hnm)

/-- A shape is the node and the shapes of its children. -/
theorem WellFormed.shape_eq (hf : f.WellFormed) (i : NodeId) :
    f.shape i = .node (f.get i).bare ((f.children i).map f.shape) := by
  rw [shape, shapeWithin]
  congr 1
  refine List.map_congr_left fun c hc => (shapeWithin_congr (hf.within i c hc) ?_).symm
  exact Nat.le_succ _

/-- The text of a node is that of its shape. -/
theorem textWithin_eq (h : f.Within n i) : f.textWithin n i = (f.shapeWithin n i).text := by
  induction n generalizing i with
  | zero => exact h.elim
  | succ n ih =>
    have htexts : (f.children i).map (f.textWithin n)
        = ((f.children i).map (f.shapeWithin n)).map Tree.text := by
      rw [List.map_map]
      exact List.map_congr_left fun c hc => ih (h c hc)
    rw [shapeWithin, Tree.text, Tree.texts_eq_map, ← htexts, textWithin]
    rfl

/-- The text of a node is that of its shape. -/
theorem WellFormed.asText_eq (hf : f.WellFormed) (i : NodeId) :
    f.asText i = (f.shape i).text :=
  textWithin_eq (hf.within i)

/-- More depth than there is leads nowhere else. -/
theorem walkWithin_congr {enter : Node → Bool} (h : f.Within n i) (hnm : n ≤ m) :
    f.walkWithin enter m i = f.walkWithin enter n i := by
  induction n generalizing i m with
  | zero => exact h.elim
  | succ n ih =>
    obtain ⟨m, rfl⟩ := Nat.exists_eq_add_of_le' (Nat.lt_of_lt_of_le (Nat.succ_pos n) hnm)
    have hkids : ((f.get i).children).flatMap (f.walkWithin enter m)
        = ((f.get i).children).flatMap (f.walkWithin enter n) :=
      List.flatMap_congr fun c hc => ih (h c hc) (Nat.le_of_succ_le_succ hnm)
    simp only [walkWithin, hkids]

/-- A walk enters a node and goes on below its children. -/
theorem WellFormed.walk_eq (hf : f.WellFormed) (enter : Node → Bool) (i : NodeId) :
    f.walk enter i
      = if enter (f.get i) then i :: (f.children i).flatMap (f.walk enter) else [i] := by
  have hkids : (f.children i).flatMap (f.walkWithin enter f.size)
      = (f.children i).flatMap (f.walk enter) :=
    List.flatMap_congr fun c hc => (walkWithin_congr (hf.within i c hc) (Nat.le_succ _)).symm
  rw [walk, walkWithin, ← hkids]
  rfl

/-- What is met on a walk from a node stands under it. -/
theorem Linked.above_of_mem_walkWithin (hf : f.Linked) {enter : Node → Bool} {n : Nat}
    (h : j ∈ f.walkWithin enter n i) : f.Above i j := by
  induction n generalizing i with
  | zero => cases h
  | succ n ih =>
    rw [walkWithin] at h
    split at h
    · rcases List.mem_cons.mp h with rfl | h
      · exact .here
      · obtain ⟨c, hc, hj⟩ := List.mem_flatMap.mp h
        exact (Above.up ((hf.mem_iff c i).mp hc) .here).trans (ih hj)
    · rw [List.mem_singleton.mp h]
      exact .here

/-- A walk goes down. -/
theorem WellFormed.above_of_mem_walk (hf : f.WellFormed) {enter : Node → Bool}
    (h : j ∈ f.walk enter i) : f.Above i j :=
  hf.linked.above_of_mem_walkWithin h

/-- Above what is met on a walk from a node, all is entered but what stands
    above that node. -/
theorem WellFormed.enter_of_mem_walk (hf : f.WellFormed) {enter : Node → Bool}
    (h : j ∈ f.walk enter i) (ha : f.Above a j) :
    a = j ∨ enter (f.get a) = true ∨ ∃ p, f.parent? i = some p ∧ f.Above a p := by
  have hwithin := hf.within i
  generalize f.size + 1 = n at hwithin
  induction n generalizing i with
  | zero => exact hwithin.elim
  | succ n ih =>
    rw [hf.walk_eq] at h
    split at h
    · rename_i henter
      rcases List.mem_cons.mp h with rfl | h
      · exact ha.eq_or.imp Eq.symm .inr
      · obtain ⟨c, hc, hj⟩ := List.mem_flatMap.mp h
        rcases ih hj (hwithin c hc) with heq | hin | ⟨p, hp, hap⟩
        · exact .inl heq
        · exact .inr (.inl hin)
        · obtain rfl : i = p := Option.some.inj ((hf.only c i hc).symm.trans hp)
          rcases hap.eq_or with rfl | hup
          · exact .inr (.inl henter)
          · exact .inr (.inr hup)
    · obtain rfl := List.mem_singleton.mp h
      exact ha.eq_or.imp Eq.symm .inr

/-! ## Shapes side by side -/

namespace Shows

/-- Nodes and trees side by side. -/
theorem append (h : f.Shows is ts) (h' : f.Shows js us) : f.Shows (is ++ js) (ts ++ us) := by
  induction h with
  | nil => exact h'
  | cons below _ _ ih => exact .cons below ih

/-- Trees side by side are shown by nodes side by side. -/
theorem of_append (h : f.Shows is (ts ++ us)) :
    ∃ is₁ is₂, is = is₁ ++ is₂ ∧ f.Shows is₁ ts ∧ f.Shows is₂ us := by
  induction ts generalizing is with
  | nil => exact ⟨[], is, rfl, .nil, h⟩
  | cons t ts ih =>
    cases h with
    | cons below beside =>
      obtain ⟨is₁, is₂, rfl, h₁, h₂⟩ := ih beside
      exact ⟨_ :: is₁, is₂, rfl, .cons below h₁, h₂⟩

/-- Shapes are kept wherever the nodes are: they are among those at some
    places that hold the children of each node there. -/
theorem keep (h : f.Shows is ts) (hclosed : ∀ j, P j → ∀ c ∈ f.children j, P c)
    (hagree : f.AgreeOn P g) (his : ∀ i ∈ is, P i) : g.Shows is ts := by
  induction h with
  | nil => exact .nil
  | @cons i is kids rest _ _ ih₁ ih₂ =>
    obtain ⟨hi, his⟩ := List.forall_mem_cons.mp his
    obtain ⟨hbare, hkids⟩ := hagree i hi
    rw [← hbare]
    exact .cons (hkids ▸ ih₁ (hclosed i hi)) (ih₂ his)

/-- Trees that are the same have the same shape. -/
theorem of_sameTree (h : f.Shows is ts) (hsame : List.Forall₂ (f.SameTree g n) is js) :
    g.Shows js ts := by
  induction h generalizing js n with
  | nil =>
    cases hsame
    exact .nil
  | cons _ _ ih₁ ih₂ =>
    cases hsame with
    | cons hfirst hrest =>
      cases n with
      | zero => exact hfirst.elim
      | succ n =>
        rw [← hfirst.1]
        exact .cons (ih₁ hfirst.2) (ih₂ hrest)

/-- The trees shown are the shapes. -/
theorem eq_map_shape (h : f.Shows is ts) (hf : f.WellFormed) : ts = is.map f.shape := by
  induction h with
  | nil => rfl
  | cons _ _ ih₁ ih₂ => rw [List.map_cons, hf.shape_eq, ← ih₁, ← ih₂]

end Shows

/-- The children of a node show their shapes. -/
theorem WellFormed.shows_children (hf : f.WellFormed) (h : f.Within n i) :
    f.Shows (f.children i) ((f.children i).map f.shape) := by
  induction n generalizing i with
  | zero => exact h.elim
  | succ n ih =>
    have hside : ∀ js : List NodeId, js ⊆ f.children i → f.Shows js (js.map f.shape) := by
      intro js hjs
      induction js with
      | nil => exact .nil
      | cons j js ihjs =>
        obtain ⟨hj, hjs⟩ := List.cons_subset.mp hjs
        rw [List.map_cons, hf.shape_eq]
        exact .cons (ih (h j hj)) (ihjs hjs)
    exact hside _ (List.Subset.refl _)

/-- So do all nodes. -/
theorem WellFormed.shows (hf : f.WellFormed) (is : List NodeId) : f.Shows is (is.map f.shape) := by
  induction is with
  | nil => exact .nil
  | cons i is ih =>
    rw [List.map_cons, hf.shape_eq]
    exact .cons (hf.shows_children (hf.within i)) ih

/-! ## Editing -/

/-- A forest with the links of a well-formed one is well-formed. -/
theorem WellFormed.congr (hf : f.WellFormed) (hparent : ∀ j, g.parent? j = f.parent? j)
    (hkids : ∀ j, g.children j = f.children j) : g.WellFormed where
  once i p hp := by
    rw [hkids]
    exact hf.once i p (hparent i ▸ hp)
  only i p hi := by
    rw [hparent]
    exact hf.only i p (hkids p ▸ hi)
  ends i := by
    induction hf.ends i with
    | top hnone => exact .top ((hparent _).trans hnone)
    | up hp _ ih => exact .up ((hparent _).trans hp) ih

/-- What is above a node of the forest is one, too. -/
theorem WellFormed.lt_size_of_above (hf : f.WellFormed) (hj : j < f.size) (h : f.Above a j) :
    a < f.size := by
  induction h with
  | here => exact hj
  | up hp _ ih => exact ih (lt_size_of_mem_children ((hf.linked.mem_iff _ _).mpr hp))

/-- Two children of one node have nothing below them in common. -/
theorem WellFormed.apart_of_siblings (hf : f.WellFormed) {b : NodeId} (hc : f.parent? c = some p)
    (hb : f.parent? b = some p) (hne : c ≠ b) (hcj : f.Above c j) : ¬f.Above b j := by
  intro hbj
  rcases hcj.total hbj with h | h
  · rcases h.eq_or with rfl | ⟨q, hq, hcq⟩
    · exact hne rfl
    · obtain rfl := Option.some.inj (hb.symm.trans hq)
      exact hcq.not_circle (hf.ends c) hc
  · rcases h.eq_or with rfl | ⟨q, hq, hbq⟩
    · exact hne rfl
    · obtain rfl := Option.some.inj (hc.symm.trans hq)
      exact hbq.not_circle (hf.ends b) hb

/-- Where nodes stand after they were put in the place of another one. -/
structure InPlace (f g : Forest) (p i : NodeId) (ns : List NodeId) : Prop where
  size : g.size = f.size
  bare : ∀ j, (g.get j).bare = (f.get j).bare
  parent : ∀ j, g.parent? j = if j ∈ ns then some p else if j = i then none else f.parent? j
  children : ∀ j, j ≠ p → g.children j = f.children j
  place : ∀ pre post, f.children p = pre ++ i :: post → g.children p = pre ++ ns ++ post

theorem idxOf?_append_cons {pre post : List NodeId} (h : i ∉ pre) :
    (pre ++ i :: post).idxOf? i = some pre.length := by
  induction pre with
  | nil => simp [List.idxOf?_cons]
  | cons c pre ih =>
    obtain ⟨hne, hpre⟩ := List.ne_and_not_mem_of_not_mem_cons h
    simp [List.idxOf?_cons, ih hpre, Ne.symm hne]

theorem filter_ne_of_not_mem {l : List NodeId} (h : i ∉ l) : l.filter (· ≠ i) = l :=
  List.filter_eq_self.mpr fun _ hc => decide_eq_true fun heq => h (heq ▸ hc)

/-- A child stands once among its siblings. -/
theorem WellFormed.not_mem_of_split (hf : f.WellFormed) {pre post : List NodeId}
    (hsplit : f.children p = pre ++ i :: post) : i ∉ pre ∧ i ∉ post := by
  have hnodup := hf.linked.nodup p
  rw [hsplit, List.nodup_middle] at hnodup
  simpa using (List.nodup_cons.mp hnodup).1

/-- The position of a child is the number of those before it. -/
theorem WellFormed.index?_eq (hf : f.WellFormed) {pre post : List NodeId}
    (hsplit : f.children p = pre ++ i :: post) : f.index? i = some pre.length := by
  have hp : f.parent? i = some p := hf.only i p (by simp [hsplit])
  rw [index?, hp]
  simp only
  rw [hsplit, idxOf?_append_cons (hf.not_mem_of_split hsplit).1]

/-- Nodes that stand nowhere are put in the place of a node. -/
theorem WellFormed.replaceWith_inPlace (hf : f.WellFormed) (hp : f.parent? i = some p)
    (hjs : ∀ c ∈ js, c < f.size ∧ f.parent? c = none) :
    f.InPlace (f.replaceWith i js) p i js := by
  have hmem : i ∈ f.children p := (hf.linked.mem_iff i p).mpr hp
  have hpsize : p < (f.detach i).size := by
    rw [size_detach]
    exact lt_size_of_mem_children hmem
  have hkids : ∀ j, (f.detach i).children j = (f.children j).filter (· ≠ i) := fun j =>
    children_detach_eq_filter (hf.linked.nodup j) (hf.linked.mem_iff i j).mp
  -- The nodes are among the children of none.
  have hnone : ∀ j, ((f.detach i).children j).filter (· ∉ js) = (f.detach i).children j := by
    refine fun j => List.filter_eq_self.mpr fun c hc => ?_
    rw [hkids] at hc
    refine decide_eq_true fun hcjs => ?_
    have hparent := hf.only c j (List.mem_of_mem_filter hc)
    rw [(hjs c hcjs).2] at hparent
    cases hparent
  have hrehung := rehung_insert (hf.detach i).linked hpsize (fun c hc => by
    rw [size_detach]
    exact (hjs c hc).1)
  have hplace : ∀ pre post, f.children p = pre ++ i :: post → f.index? i = some pre.length ∧
      (f.detach i).children p = pre ++ post := by
    intro pre post hsplit
    have hnot := hf.not_mem_of_split hsplit
    refine ⟨hf.index?_eq hsplit, ?_⟩
    rw [hkids, hsplit, List.filter_append, List.filter_cons_of_neg (by simp),
      filter_ne_of_not_mem hnot.1, filter_ne_of_not_mem hnot.2]
  obtain ⟨pre, post, hsplit⟩ := List.append_of_mem hmem
  obtain ⟨hindex, -⟩ := hplace pre post hsplit
  have hrun : f.replaceWith i js = (f.detach i).insert p (pre.length : Nat) js := by
    rw [Forest.replaceWith, hp]
    simp only [hindex]
  rw [hrun]
  exact {
    size := by rw [(hrehung _).size, size_detach]
    bare := fun j => by rw [(hrehung _).bare, bare_detach]
    parent := fun j => by rw [(hrehung _).parent, parent?_detach]
    children := fun j hj => by
      rw [(hrehung _).children, if_neg hj, hnone, hkids]
      refine List.filter_eq_self.mpr fun c hc => decide_eq_true fun heq => hj ?_
      exact Option.some.inj ((hf.only c j hc).symm.trans (heq ▸ hp))
    place := fun pre' post' hsplit' => by
      obtain ⟨hindex', hkids'⟩ := hplace pre' post' hsplit'
      have hlength : pre.length = pre'.length := Option.some.inj (hindex.symm.trans hindex')
      rw [(hrehung _).children, if_pos rfl, hnone, hkids', Int.toNat_natCast, hlength,
        Nat.min_eq_left (by simp), List.take_left, List.drop_left] }

end Forest

end MarkupLint
