import MarkupLint.Proofs.Wellformed

/-! # Copies

    A copy of a tree stands behind all nodes of the forest: its parents come
    before their children, and between it and the old nodes there is no tie.
    It has the same shape as the tree that was copied, node by node.

    With that, whatever trees are edited and copied, in any order, the forest
    stays well-formed (`edited_wellFormed`). -/

namespace MarkupLint

namespace Forest

variable {f g h : Forest} {i j c q : NodeId} {n depth : Nat}

/-! ## How deep trees are -/

/-- The children of all nodes are nodes of the forest. -/
def Inside (f : Forest) : Prop := ∀ q, ∀ i ∈ f.children q, i < f.size

/-- The tree below a node has at most `n` levels. -/
def Within (f : Forest) : Nat → NodeId → Prop
  | 0, _ => False
  | n + 1, i => ∀ c ∈ f.children i, f.Within n c

/-- Below two nodes of two forests there are the same trees, of at most `n`
    levels. -/
def SameTree (f g : Forest) : Nat → NodeId → NodeId → Prop
  | 0, _, _ => False
  | n + 1, i, c =>
    (g.get c).bare = (f.get i).bare ∧ List.Forall₂ (SameTree f g n) (f.children i) (g.children c)

theorem WellFormed.inside (hf : f.WellFormed) : f.Inside := fun q i hi =>
  lt_size_of_parent? (hf.only i q hi)

/-- By induction on the levels: the nodes on the way down are different, so
    there are no more of them than there are nodes. -/
theorem WellFormed.within_of_way (hf : f.WellFormed) {way : List NodeId} (hnodup : way.Nodup)
    (hi : i ∈ way) (hway : ∀ a ∈ way, a < f.size ∧ f.Above a i) (hn : f.size < way.length + n) :
    f.Within n i := by
  induction n generalizing i way with
  | zero =>
    have hsub : way ⊆ List.range f.size := fun a ha => List.mem_range.mpr (hway a ha).1
    have hlength := hnodup.length_le_of_subset hsub
    rw [List.length_range] at hlength
    omega
  | succ n ih =>
    intro c hc
    have hparent : f.parent? c = some i := hf.only c i hc
    have hnew : c ∉ way := fun hmem => (hway c hmem).2.not_circle (hf.ends c) hparent
    refine ih (List.nodup_cons.mpr ⟨hnew, hnodup⟩) List.mem_cons_self (fun a ha => ?_) ?_
    · rcases List.mem_cons.mp ha with rfl | ha
      · exact ⟨lt_size_of_parent? hparent, .here⟩
      · exact ⟨(hway a ha).1, .up hparent (hway a ha).2⟩
    · rw [List.length_cons]
      omega

/-- No tree has more levels than there are nodes. -/
theorem WellFormed.within (hf : f.WellFormed) (i : NodeId) : f.Within (f.size + 1) i := by
  by_cases hi : i < f.size
  · exact hf.within_of_way (List.nodup_singleton i) (List.mem_singleton_self i)
      (List.forall_mem_singleton.mpr ⟨hi, .here⟩) (by simp; omega)
  · intro c hc
    rw [children_of_size_le (Nat.le_of_not_lt hi)] at hc
    cases hc

/-! ## Trees that are the same -/

/-- At some places, two forests have the same nodes with the same children. -/
def AgreeOn (P : NodeId → Prop) (f g : Forest) : Prop :=
  ∀ j, P j → (g.get j).bare = (f.get j).bare ∧ g.children j = f.children j

theorem agreeOn_of_get {P : NodeId → Prop} (h : ∀ j, P j → g.get j = f.get j) : f.AgreeOn P g :=
  fun j hj => by
    rw [children, children, h j hj]
    exact ⟨rfl, rfl⟩

section Lists

variable {α β γ : Type} {R : α → β → Prop} {as : List α} {bs : List β}

theorem forall₂_imp_mem {S : α → β → Prop} (h : List.Forall₂ R as bs)
    (himp : ∀ a ∈ as, ∀ b ∈ bs, R a b → S a b) : List.Forall₂ S as bs := by
  induction h with
  | nil => exact .nil
  | cons hab _ ih =>
    exact .cons (himp _ List.mem_cons_self _ List.mem_cons_self hab)
      (ih fun a ha b hb => himp a (List.mem_cons_of_mem _ ha) b (List.mem_cons_of_mem _ hb))

theorem forall₂_trans {S : β → γ → Prop} {T : α → γ → Prop} {cs : List γ}
    (h : List.Forall₂ R as bs) (h' : List.Forall₂ S bs cs)
    (himp : ∀ a b c, R a b → S b c → T a c) : List.Forall₂ T as cs := by
  induction h generalizing cs with
  | nil =>
    cases h'
    exact .nil
  | cons hab _ ih =>
    cases h' with
    | cons hbc hrest => exact .cons (himp _ _ _ hab hbc) (ih hrest)

theorem map_eq_of_forall₂ {f : α → γ} {g : β → γ} (h : List.Forall₂ R as bs)
    (himp : ∀ a b, R a b → g b = f a) : bs.map g = as.map f := by
  induction h with
  | nil => rfl
  | cons hab _ ih => rw [List.map_cons, List.map_cons, himp _ _ hab, ih]

theorem exists_of_forall₂ (h : List.Forall₂ R as bs) {b : β} (hb : b ∈ bs) : ∃ a ∈ as, R a b := by
  induction h with
  | nil => cases hb
  | cons hab _ ih =>
    rcases List.mem_cons.mp hb with rfl | hb
    · exact ⟨_, List.mem_cons_self, hab⟩
    · obtain ⟨a, ha, hr⟩ := ih hb
      exact ⟨a, List.mem_cons_of_mem _ ha, hr⟩

end Lists

namespace SameTree

theorem refl (h : f.Within n i) : f.SameTree f n i i := by
  induction n generalizing i with
  | zero => exact h.elim
  | succ n ih => exact ⟨rfl, List.forall₂_same.mpr fun c hc => ih (h c hc)⟩

theorem trans (hfg : f.SameTree g n i j) (hgh : g.SameTree h n j c) : f.SameTree h n i c := by
  induction n generalizing i j c with
  | zero => exact hfg.elim
  | succ n ih => exact ⟨hgh.1.trans hfg.1, forall₂_trans hfg.2 hgh.2 fun _ _ _ => ih⟩

/-- A tree is there wherever its nodes are: they are among those at some
    places that hold the children of each node there. -/
theorem keep {P : NodeId → Prop} (hsame : f.SameTree g n i c)
    (hclosed : ∀ j, P j → ∀ d ∈ g.children j, P d) (hagree : g.AgreeOn P h) (hc : P c) :
    f.SameTree h n i c := by
  induction n generalizing i c with
  | zero => exact hsame.elim
  | succ n ih =>
    obtain ⟨hbare, hkids⟩ := hagree c hc
    refine ⟨hbare.trans hsame.1, ?_⟩
    rw [hkids]
    exact forall₂_imp_mem hsame.2 fun a _ b hb hab => ih hab (hclosed c hc b hb)

theorem within (h : f.SameTree g n i c) : g.Within n c := by
  induction n generalizing i c with
  | zero => exact h.elim
  | succ n ih =>
    intro d hd
    obtain ⟨e, -, he⟩ := exists_of_forall₂ h.2 hd
    exact ih he

/-- Trees that are the same have the same text, however deep it is looked
    for. -/
theorem textWithin (h : f.SameTree g n i c) {depth depth' : Nat} (hn : n ≤ depth)
    (hn' : n ≤ depth') : g.textWithin depth' c = f.textWithin depth i := by
  induction n generalizing i c depth depth' with
  | zero => exact h.elim
  | succ n ih =>
    obtain ⟨depth, rfl⟩ := Nat.exists_eq_add_of_le' (Nat.lt_of_lt_of_le (Nat.succ_pos n) hn)
    obtain ⟨depth', rfl⟩ := Nat.exists_eq_add_of_le' (Nat.lt_of_lt_of_le (Nat.succ_pos n) hn')
    obtain ⟨hbare, hkids⟩ := h
    have hkind : (g.get c).bare.kind = (f.get i).bare.kind := by rw [hbare]
    have hvalue : (g.get c).bare.value = (f.get i).bare.value := by rw [hbare]
    have htexts : (g.children c).map (g.textWithin depth')
        = (f.children i).map (f.textWithin depth) :=
      map_eq_of_forall₂ hkids fun a b hab =>
        ih hab (Nat.le_of_succ_le_succ hn) (Nat.le_of_succ_le_succ hn')
    simp only [Node.bare, children] at hkind hvalue htexts
    simp only [Forest.textWithin, hkind, hvalue, htexts]

end SameTree

/-! ## A tree behind the others -/

/-- The forest `g` is `f` with one more tree behind it: its root is the first
    new node, and all other new nodes have new parents before them. -/
structure Sprouted (f g : Forest) : Prop where
  size : f.size < g.size
  old : ∀ j < f.size, g.get j = f.get j
  root : g.parent? f.size = none
  parent : ∀ j, f.size < j → j < g.size → ∃ q, f.size ≤ q ∧ q < j ∧ g.parent? j = some q
  nodup : ∀ q, f.size ≤ q → (g.children q).Nodup
  mem_iff : ∀ q, f.size ≤ q → ∀ i, i ∈ g.children q ↔ f.size < i ∧ g.parent? i = some q

/-- The forest `g` is `f` with a new node and trees behind it, whose roots
    `kids` take that node for their parent. -/
structure Sprouting (f g : Forest) (n : Node) (kids : List NodeId) : Prop where
  size : f.size < g.size
  old : ∀ j < f.size, g.get j = f.get j
  root : g.get f.size = n.bare
  parent : ∀ j, f.size < j → j < g.size → ∃ q, f.size ≤ q ∧ q < j ∧ g.parent? j = some q
  nodup : ∀ q, f.size < q → (g.children q).Nodup
  mem_iff : ∀ q, f.size < q → ∀ i, i ∈ g.children q ↔ f.size < i ∧ g.parent? i = some q
  nodup_kids : kids.Nodup
  mem_kids : ∀ i, i ∈ kids ↔ f.size < i ∧ g.parent? i = some f.size

/-- What has its parent among the old nodes is one of them. -/
theorem Sprouted.old_of_parent? (h : f.Sprouted g) {q i : NodeId} (hq : q < f.size)
    (hi : g.parent? i = some q) : i < f.size := by
  by_contra hlt
  rcases Nat.lt_or_eq_of_le (Nat.le_of_not_lt hlt) with hgt | rfl
  · obtain ⟨r, hr, -, hr'⟩ := h.parent i hgt (lt_size_of_parent? hi)
    rw [hi] at hr'
    obtain rfl := Option.some.inj hr'
    exact Nat.not_lt.mpr hr hq
  · rw [h.root] at hi
    cases hi

namespace Sprouted

theorem parent_old (hs : f.Sprouted g) (hi : i < f.size) : g.parent? i = f.parent? i := by
  rw [parent?, hs.old i hi, parent?]

theorem children_old (hs : f.Sprouted g) (hi : i < f.size) : g.children i = f.children i := by
  rw [children, hs.old i hi, children]

/-- The parents when the tree is hung under `p`. -/
theorem parent?_hung (hs : f.Sprouted g) (p i : NodeId) :
    (g.modify f.size fun n => { n with parent := some p }).parent? i =
      if i < f.size then f.parent? i else if i = f.size then some p else g.parent? i := by
  by_cases hi : i = f.size
  · rw [if_neg (hi ▸ Nat.lt_irrefl _), if_pos hi, parent?, hi, get_modify_self hs.size]
  · rw [parent?, get_modify_of_ne g hi, if_neg hi]
    split
    · exact hs.parent_old ‹_›
    · rfl

/-- The children when the tree is hung under `p`, before `p` is told. -/
theorem children_hung (hs : f.Sprouted g) (p q : NodeId) :
    (g.modify f.size fun n => { n with parent := some p }).children q =
      if q < f.size then f.children q else g.children q := by
  have hsame : (g.modify f.size fun n => { n with parent := some p }).children q = g.children q :=
    children_modify g f.size q fun _ => rfl
  rw [hsame]
  split
  · exact hs.children_old ‹_›
  · rfl

end Sprouted

namespace Sprouting

variable {m : Node} {kids : List NodeId}

/-- At first there is the new node alone. -/
theorem start (f : Forest) (m : Node) : f.Sprouting (f.alloc m).2 m [] := by
  have hnone : ∀ j, f.size < j → (f.alloc m).2.size ≤ j := fun j hj => by
    rw [size_alloc]
    omega
  have hparent : ∀ {i q : NodeId}, ¬(f.size < i ∧ (f.alloc m).2.parent? i = some q) := by
    rintro i q ⟨hi, h⟩
    rw [parent?_of_size_le (hnone i hi)] at h
    cases h
  exact {
    size := by simp
    old := fun j hj => by rw [get_alloc, if_neg (Nat.ne_of_lt hj)]
    root := by rw [get_alloc, if_pos rfl]; rfl
    parent := fun j hj hlt => absurd hlt (Nat.not_lt.mpr (hnone j hj))
    nodup := fun q hq => by
      rw [children_of_size_le (hnone q hq)]
      exact List.nodup_nil
    mem_iff := fun q hq i => by
      rw [children_of_size_le (hnone q hq)]
      exact iff_of_false List.not_mem_nil hparent
    nodup_kids := List.nodup_nil
    mem_kids := fun i => iff_of_false List.not_mem_nil hparent }

/-- The parent of a node behind the new one stands before the node. -/
theorem parent_lt (hs : f.Sprouting g m kids) {j q : NodeId} (hj : f.size < j)
    (h : g.parent? j = some q) : q < j := by
  obtain ⟨r, -, hr, hr'⟩ := hs.parent j hj (lt_size_of_parent? h)
  rw [h] at hr'
  exact Option.some.inj hr' ▸ hr

/-- Another tree behind the others, with the new node for its parent. -/
theorem step (hs : f.Sprouting g m kids) (hnext : g.Sprouted h) :
    f.Sprouting (h.modify g.size fun n => { n with parent := some f.size }) m
      (kids ++ [g.size]) := by
  have hfg := hs.size
  have hold : ∀ j < g.size, (h.modify g.size fun n => { n with parent := some f.size }).get j
      = g.get j :=
    fun j hj => (get_modify_of_ne h (Nat.ne_of_lt hj) _).trans (hnext.old j hj)
  -- Under a node of `g` there are nodes of `g` only, and the root of the tree under the new node.
  have hmem : ∀ q < g.size, ∀ i, f.size < i →
      ((h.modify g.size fun n => { n with parent := some f.size }).parent? i = some q ↔
        g.parent? i = some q ∨ i = g.size ∧ q = f.size) := by
    intro q hq i hi
    rw [hnext.parent?_hung]
    split_ifs with hlt heq
    · exact (or_iff_left fun h => absurd h.1 (Nat.ne_of_lt hlt)).symm
    · rw [heq, parent?_of_size_le (Nat.le_refl _)]
      simp [eq_comm]
    · refine iff_of_false (fun h => hlt (hnext.old_of_parent? hq h)) ?_
      rintro (h | h)
      · exact hlt (lt_size_of_parent? h)
      · exact heq h.1
  exact {
    size := by
      rw [size_modify]
      exact Nat.lt_trans hfg hnext.size
    old := fun j hj => (hold j (Nat.lt_trans hj hfg)).trans (hs.old j hj)
    root := (hold _ hfg).trans hs.root
    parent := fun j hj hlt => by
      rw [size_modify] at hlt
      rw [hnext.parent?_hung]
      split_ifs with hjg heq
      · exact hs.parent j hj hjg
      · exact ⟨f.size, Nat.le_refl _, hj, rfl⟩
      · have hgj : g.size < j := Nat.lt_of_le_of_ne (Nat.le_of_not_lt hjg) (Ne.symm heq)
        obtain ⟨q, hq, hqj, hparent⟩ := hnext.parent j hgj hlt
        exact ⟨q, Nat.le_trans (Nat.le_of_lt hfg) hq, hqj, hparent⟩
    nodup := fun q hq => by
      rw [hnext.children_hung]
      split_ifs with hqg
      · exact hs.nodup q hq
      · exact hnext.nodup q (Nat.le_of_not_lt hqg)
    mem_iff := fun q hq i => by
      rw [hnext.children_hung]
      split_ifs with hqg
      · refine (hs.mem_iff q hq i).trans (and_congr_right fun hi => ?_)
        rw [hmem q hqg i hi, or_iff_left fun h => absurd h.2 (Nat.ne_of_gt hq)]
      · have hgq := Nat.le_of_not_lt hqg
        refine (hnext.mem_iff q hgq i).trans ⟨fun hi => ?_, fun hi => ?_⟩
        · refine ⟨Nat.lt_trans hfg hi.1, ?_⟩
          rw [hnext.parent?_hung, if_neg (Nat.lt_asymm hi.1), if_neg (Nat.ne_of_gt hi.1), hi.2]
        · have hparent := hi.2
          rw [hnext.parent?_hung] at hparent
          split_ifs at hparent with hlt heq
          · exact absurd (Nat.lt_trans (hs.parent_lt hi.1 hparent) hlt) hqg
          · exact absurd (Option.some.inj hparent) (Nat.ne_of_lt hq)
          · exact ⟨Nat.lt_of_le_of_ne (Nat.le_of_not_lt hlt) (Ne.symm heq), hparent⟩
    nodup_kids := by
      refine List.nodup_append.mpr ⟨hs.nodup_kids, List.nodup_singleton _, ?_⟩
      rintro i hi _ hi' rfl
      have hparent := ((hs.mem_kids i).mp hi).2
      exact absurd (lt_size_of_parent? hparent) (List.mem_singleton.mp hi' ▸ Nat.lt_irrefl _)
    mem_kids := fun i => by
      rw [List.mem_append, List.mem_singleton, hs.mem_kids]
      constructor
      · rintro (⟨hi, h⟩ | rfl)
        · exact ⟨hi, (hmem _ hfg i hi).mpr (.inl h)⟩
        · exact ⟨hfg, (hmem _ hfg _ hfg).mpr (.inr ⟨rfl, rfl⟩)⟩
      · rintro ⟨hi, h⟩
        exact ((hmem _ hfg i hi).mp h).imp (fun h => ⟨hi, h⟩) And.left }

/-- With the trees for its children the new node is the root of one tree. -/
theorem finish (hs : f.Sprouting g m kids) :
    f.Sprouted (g.modify f.size fun n => { n with children := kids }) := by
  have hroot : (g.modify f.size fun n => { n with children := kids }).get f.size
      = { m.bare with children := kids } := by
    rw [get_modify_self hs.size, hs.root]
  have hparent : ∀ j, (g.modify f.size fun n => { n with children := kids }).parent? j
      = g.parent? j :=
    fun j => parent?_modify g f.size j fun _ => rfl
  exact {
    size := by
      rw [size_modify]
      exact hs.size
    old := fun j hj => by rw [get_modify_of_ne g (Nat.ne_of_lt hj), hs.old j hj]
    root := by
      rw [parent?, hroot]
      rfl
    parent := fun j hj hlt => by
      rw [size_modify] at hlt
      rw [hparent]
      exact hs.parent j hj hlt
    nodup := fun q hq => by
      by_cases hqf : q = f.size
      · rw [hqf, children, hroot]
        exact hs.nodup_kids
      · rw [children, get_modify_of_ne g hqf]
        exact hs.nodup q (Nat.lt_of_le_of_ne hq (Ne.symm hqf))
    mem_iff := fun q hq i => by
      rw [hparent]
      by_cases hqf : q = f.size
      · rw [hqf, children, hroot]
        exact hs.mem_kids i
      · rw [children, get_modify_of_ne g hqf]
        exact hs.mem_iff q (Nat.lt_of_le_of_ne hq (Ne.symm hqf)) i }

theorem inside (hs : f.Sprouting g m kids) (hf : f.Inside) : g.Inside := by
  intro q i hi
  rcases Nat.lt_trichotomy q f.size with hq | rfl | hq
  · rw [children, hs.old q hq] at hi
    exact Nat.lt_trans (hf q i hi) hs.size
  · rw [children, hs.root] at hi
    cases hi
  · exact lt_size_of_parent? ((hs.mem_iff q hq i).mp hi).2

end Sprouting

/-! ## Copies -/

/-- A copy stands right behind the nodes of the forest. -/
@[simp] theorem copyWithin_place (n : Nat) (f : Forest) (i : NodeId) :
    (copyWithin n f i).1 = f.size := by
  cases n <;> rfl

theorem copyUnder_eq (n : Nat) (p : NodeId) (acc : List NodeId × Forest) (c : NodeId) :
    copyUnder n p acc c = (acc.1 ++ [acc.2.size],
      (copyWithin n acc.2 c).2.modify acc.2.size fun k => { k with parent := some p }) := by
  rw [copyUnder, copyWithin_place]

/-- A new node alone is a tree behind the others. -/
theorem sprouted_alloc (f : Forest) (m : Node) : f.Sprouted (f.alloc m).2 :=
  have hs := Sprouting.start f m
  have hchildren : ∀ q, f.size ≤ q → (f.alloc m).2.children q = [] := fun q hq => by
    rw [children_alloc, children_of_size_le hq]
  { hs with
    root := (parent?_alloc f m f.size).trans (parent?_of_size_le (Nat.le_refl _))
    nodup := fun q hq => by
      rw [hchildren q hq]
      exact List.nodup_nil
    mem_iff := fun q hq i => by
      rw [hchildren q hq, parent?_alloc]
      refine iff_of_false List.not_mem_nil fun h => ?_
      rw [parent?_of_size_le (Nat.le_of_lt h.1)] at h
      cases h.2 }

/-- By induction on the levels: a copy is a tree behind the others. -/
theorem sprouted_copyWithin (n : Nat) (f : Forest) (i : NodeId) :
    f.Sprouted (copyWithin n f i).2 := by
  induction n generalizing f i with
  | zero => exact sprouted_alloc f (f.get i)
  | succ n ih =>
    rw [copyWithin_succ]
    refine Sprouting.finish (m := f.get i) ?_
    refine List.foldlRecOn (motive := fun acc : List NodeId × Forest =>
      f.Sprouting acc.2 (f.get i) acc.1) _ _ (.start f (f.get i)) fun acc hacc c _ => ?_
    rw [copyUnder_eq]
    exact hacc.step (ih acc.2 c)

theorem Sprouting.copyUnder {m : Node} {acc : List NodeId × Forest}
    (hs : f.Sprouting acc.2 m acc.1) (n : Nat) (c : NodeId) :
    f.Sprouting (copyUnder n f.size acc c).2 m (copyUnder n f.size acc c).1 := by
  rw [copyUnder_eq]
  exact hs.step (sprouted_copyWithin n acc.2 c)

/-- The copies of some trees, one after the other, behind a new node. -/
theorem Sprouting.copies {m : Node} {kids : List NodeId} (hs : f.Sprouting g m kids) (n : Nat)
    (cs : List NodeId) :
    f.Sprouting (cs.foldl (Forest.copyUnder n f.size) (kids, g)).2 m
      (cs.foldl (Forest.copyUnder n f.size) (kids, g)).1 :=
  List.foldlRecOn (motive := fun acc : List NodeId × Forest => f.Sprouting acc.2 m acc.1) cs _ hs
    fun _ h c _ => h.copyUnder n c

/-- Copied one after the other, trees are the same as they were, if each one
    that is copied is. -/
theorem sameTree_copies {m : Node}
    (hcopy : ∀ (f : Forest) (c : NodeId), f.Inside → c < f.size → f.Within n c →
      f.SameTree (copyWithin n f c).2 n c f.size)
    (hf : f.Inside) {done : List NodeId} (cs : List NodeId)
    (hcs : ∀ c ∈ cs, c < f.size ∧ f.Within n c) (acc : List NodeId × Forest)
    (hacc : f.Sprouting acc.2 m acc.1) (hdone : List.Forall₂ (f.SameTree acc.2 n) done acc.1) :
    List.Forall₂ (f.SameTree (cs.foldl (copyUnder n f.size) acc).2 n) (done ++ cs)
      (cs.foldl (copyUnder n f.size) acc).1 := by
  induction cs generalizing done acc with
  | nil => rwa [List.append_nil]
  | cons c cs ih =>
    obtain ⟨kids, g⟩ := acc
    have hginside : g.Inside := hacc.inside hf
    have hsprouted : g.Sprouted (copyWithin n g c).2 := sprouted_copyWithin n g c
    obtain ⟨hc, hwithin⟩ := hcs c List.mem_cons_self
    have hsame : f.SameTree g n c c := (SameTree.refl hwithin).keep (P := (· < f.size))
      (fun j _ => hf j) (agreeOn_of_get hacc.old) hc
    have htree := hcopy g c hginside (Nat.lt_trans hc hacc.size) hsame.within
    -- The parent of the copy is all that is changed then.
    have hkeep : ∀ {i k}, f.SameTree (copyWithin n g c).2 n i k → f.SameTree
        ((copyWithin n g c).2.modify g.size fun k => { k with parent := some f.size }) n i k :=
      fun h => h.keep (P := fun _ => True) (fun _ _ _ _ => trivial)
        (fun j _ => by rw [children, get_modify]; split <;> exact ⟨rfl, rfl⟩) trivial
    have hearlier : ∀ {i k}, k < g.size → f.SameTree g n i k →
        f.SameTree (copyWithin n g c).2 n i k :=
      fun hk h => h.keep (P := (· < g.size)) (fun j _ => hginside j) (agreeOn_of_get hsprouted.old)
        hk
    have hnext : List.Forall₂ (f.SameTree (copyUnder n f.size (kids, g) c).2 n) (done ++ [c])
        (copyUnder n f.size (kids, g) c).1 := by
      rw [copyUnder_eq]
      refine List.rel_append (forall₂_imp_mem hdone fun i _ k hk h => ?_) (.cons ?_ .nil)
      · exact hkeep (hearlier (lt_size_of_parent? ((hacc.mem_kids k).mp hk).2) h)
      · exact hkeep (hsame.trans htree)
    have hrest := ih (fun d hd => hcs d (List.mem_cons_of_mem _ hd)) _ (hacc.copyUnder n c) hnext
    rwa [List.append_assoc] at hrest

/-- By induction on the levels: below a copy is the same as below the
    original. -/
theorem sameTree_copyWithin (hf : f.Inside) (hi : i < f.size) (hwithin : f.Within n i) :
    f.SameTree (copyWithin n f i).2 n i f.size := by
  induction n generalizing f i with
  | zero => exact hwithin.elim
  | succ n ih =>
    have hs := (Sprouting.start f (f.get i)).copies n (f.children i)
    have hkids := sameTree_copies (fun f c hf hc h => ih hf hc h) hf (f.children i)
      (fun c hc => ⟨hf i c hc, hwithin c hc⟩) ([], _) (.start f (f.get i)) .nil
    rw [copyWithin_succ]
    generalize (f.children i).foldl (copyUnder n f.size) ([], (f.alloc (f.get i)).2) = done
      at hs hkids
    have hget : (done.2.modify f.size fun k => { k with children := done.1 }).get f.size
        = { (f.get i).bare with children := done.1 } := by
      rw [get_modify_self hs.size, hs.root]
    refine ⟨by dsimp only; rw [hget]; rfl, ?_⟩
    rw [children, children, hget]
    -- The root is told its children; below them nothing is changed.
    refine forall₂_imp_mem hkids fun c _ k hk h => h.keep (P := (f.size < ·)) (fun j hj d hd => ?_)
      (agreeOn_of_get fun j hj => ?_) ((hs.mem_kids k).mp hk).1
    · exact ((hs.mem_iff j hj d).mp hd).1
    · exact get_modify_of_ne done.2 (Nat.ne_of_gt hj) _

section Kinds

variable {K : Kind → Prop}

/-- The kinds that satisfy `K` hold no others. -/
def KindsClosed (K : Kind → Prop) (f : Forest) : Prop :=
  ∀ j, K (f.get j).kind → ∀ c ∈ f.children j, K (f.get c).kind

/-- From `f` to `g`, all new nodes have kinds that satisfy `K`. -/
def NewKinds (K : Kind → Prop) (f g : Forest) : Prop :=
  ∀ j, f.size ≤ j → j < g.size → K (g.get j).kind

theorem Sprouting.kindsClosed {m : Node} {kids : List NodeId} (hs : f.Sprouting g m kids)
    (hf : f.Inside) (hclosed : KindsClosed K f) (hnew : NewKinds K f g) : KindsClosed K g := by
  intro j hj c hc
  rcases Nat.lt_trichotomy j f.size with hlt | rfl | hgt
  · rw [hs.old j hlt] at hj
    rw [children, hs.old j hlt] at hc
    rw [hs.old c (hf j c hc)]
    exact hclosed j hj c hc
  · rw [children, hs.root] at hc
    cases hc
  · obtain ⟨hgt', hparent⟩ := (hs.mem_iff j hgt c).mp hc
    exact hnew c (Nat.le_of_lt hgt') (lt_size_of_parent? hparent)

theorem newKinds_alloc {m : Node} (hm : K m.kind) : NewKinds K f (f.alloc m).2 := fun j hj hlt => by
  rw [size_alloc] at hlt
  obtain rfl : j = f.size := by omega
  rw [get_alloc, if_pos rfl]
  exact hm

theorem NewKinds.trans (hfg : NewKinds K f g) (hgh : NewKinds K g h)
    (hold : ∀ j < g.size, h.get j = g.get j) : NewKinds K f h := fun j hj hlt => by
  rcases Nat.lt_or_ge j g.size with hjg | hjg
  · rw [hold j hjg]
    exact hfg j hj hjg
  · exact hgh j hjg hlt

theorem NewKinds.modify (h : NewKinds K f g) (i : NodeId) {u : Node → Node}
    (hu : ∀ n, (u n).kind = n.kind) : NewKinds K f (g.modify i u) := fun j hj hlt => by
  rw [size_modify] at hlt
  rw [kind_modify g i j hu]
  exact h j hj hlt

/-- By induction on the levels: a copy of a tree of such nodes is a tree of
    such nodes, however deep the copying goes. -/
theorem newKinds_copyWithin (hf : f.Inside) (hclosed : KindsClosed K f) (hk : K (f.get i).kind) :
    NewKinds K f (copyWithin n f i).2 := by
  induction n generalizing f i with
  | zero => exact newKinds_alloc hk
  | succ n ih =>
    obtain ⟨-, hnew⟩ := List.foldlRecOn (motive := fun acc : List NodeId × Forest =>
        f.Sprouting acc.2 (f.get i) acc.1 ∧ NewKinds K f acc.2) (f.children i) (copyUnder n f.size)
      (b := ([], (f.alloc (f.get i)).2)) ⟨.start f (f.get i), newKinds_alloc hk⟩
      fun acc ⟨hs, hnew⟩ c hc => by
        have hkc : K (acc.2.get c).kind := by
          rw [hs.old c (hf i c hc)]
          exact hclosed i hk c hc
        refine ⟨hs.copyUnder n c, ?_⟩
        rw [copyUnder_eq]
        exact (hnew.trans (ih (hs.inside hf) (hs.kindsClosed hf hclosed hnew) hkc)
          (sprouted_copyWithin n acc.2 c).old).modify _ fun _ => rfl
    exact hnew.modify _ fun _ => rfl

end Kinds

namespace Sprouted

/-- All nodes of the tree are new. -/
theorem new_of_above (hs : f.Sprouted g) (hf : f.WellFormed) (h : g.Above f.size j) :
    f.size ≤ j := by
  induction h with
  | here => exact Nat.le_refl _
  | @up j p hp _ ih =>
    by_contra hj
    have hj' : j < f.size := Nat.lt_of_not_le hj
    rw [hs.parent_old hj'] at hp
    exact absurd (lt_size_of_mem_children ((hf.linked.mem_iff j p).mpr hp)) (Nat.not_lt.mpr ih)

/-- The parent of a new node is a new node. -/
theorem new_of_parent? (hs : f.Sprouted g) {i p : NodeId} (hi : f.size ≤ i)
    (h : g.parent? i = some p) : f.size ≤ p := by
  rcases Nat.lt_or_eq_of_le hi with hlt | rfl
  · obtain ⟨q, hq, -, hparent⟩ := hs.parent i hlt (lt_size_of_parent? h)
    rw [h] at hparent
    exact Option.some.inj hparent ▸ hq
  · rw [hs.root] at h
    cases h

theorem linked (hs : f.Sprouted g) (hf : f.Linked) : g.Linked := by
  refine ⟨fun q => ?_, fun i q => ?_⟩
  · by_cases hq : q < f.size
    · rw [hs.children_old hq]
      exact hf.nodup q
    · exact hs.nodup q (Nat.le_of_not_lt hq)
  · by_cases hq : q < f.size
    · rw [hs.children_old hq, hf.mem_iff]
      by_cases hi : i < f.size
      · rw [hs.parent_old hi]
      · exact iff_of_false (fun h => hi (lt_size_of_parent? h)) fun h =>
          Nat.not_lt.mpr (hs.new_of_parent? (Nat.le_of_not_lt hi) h) hq
    · rw [hs.mem_iff q (Nat.le_of_not_lt hq)]
      refine ⟨And.right, fun h => ⟨?_, h⟩⟩
      by_contra hi
      rcases Nat.lt_or_eq_of_le (Nat.le_of_not_lt hi) with hlt | rfl
      · rw [hs.parent_old hlt] at h
        exact hq (lt_size_of_mem_children ((hf.mem_iff i q).mpr h))
      · rw [hs.root] at h
        cases h

theorem wellFormed (hs : f.Sprouted g) (hf : f.WellFormed) : g.WellFormed := by
  refine (hs.linked hf.linked).wellFormed fun i => ?_
  by_cases hi : i < f.size
  · induction hf.ends i with
    | @top i hnone => exact .top (by rw [hs.parent_old hi, hnone])
    | @up i p hp _ ih =>
      exact .up (by rw [hs.parent_old hi, hp])
        (ih (lt_size_of_mem_children ((hf.linked.mem_iff i p).mpr hp)))
  · -- The parent of a new node is a new node before it.
    induction i using Nat.strong_induction_on with
    | _ i ih =>
      rcases Nat.lt_or_eq_of_le (Nat.le_of_not_lt hi) with hlt | rfl
      · by_cases hig : i < g.size
        · obtain ⟨q, hq, hqi, hparent⟩ := hs.parent i hlt hig
          exact .up hparent (ih q hqi (Nat.not_lt.mpr hq))
        · exact .top (parent?_of_size_le (Nat.le_of_not_lt hig))
      · exact .top hs.root

end Sprouted

/-- What copying makes in a well-formed forest. -/
theorem WellFormed.deepCopy_spec (hf : f.WellFormed) (hi : i < f.size) :
    (f.deepCopy i).1 = f.size ∧ f.Sprouted (f.deepCopy i).2 ∧
      f.SameTree (f.deepCopy i).2 (f.size + 1) i f.size :=
  ⟨copyWithin_place _ f i, sprouted_copyWithin _ f i, sameTree_copyWithin hf.inside hi (hf.within i)⟩

theorem WellFormed.deepCopy (hf : f.WellFormed) (hi : i < f.size) :
    (f.deepCopy i).2.WellFormed :=
  (hf.deepCopy_spec hi).2.1.wellFormed hf

/-! ## Editing in any order -/

/-- Something done to trees. -/
inductive Edit where
  | element (n : Node) (children : Given)
  | append (p : NodeId) (children : Given)
  | insert (p : NodeId) (position : Int) (children : Given)
  | remove (i : NodeId)
  | replace (i : NodeId) (nodes : Given)
  | copy (i : NodeId)

namespace Edit

/-- The forest after an edit. -/
def run (f : Forest) : Edit → Forest
  | .element n children => ((f.alloc n).2).appendGiven f.size children
  | .append p children => f.appendGiven p children
  | .insert p position children => f.insertGiven p position children
  | .remove i => f.detach i
  | .replace i nodes => f.replaceWithGiven i nodes
  | .copy i => (f.deepCopy i).2

/-- An edit of nodes that are there: none of those that it takes is the node
    that they are put under or stands above it; and those put at one position
    are different ones. -/
def Allowed (f : Forest) : Edit → Prop
  | .element n children => ∀ c ∈ children.hung (f.alloc n).2 f.size, c < f.size
  | .append p children => f.MayTake p (children.hung f p)
  | .insert p _ children => f.MayHold p (children.adopted f p)
  | .remove i | .copy i => i < f.size
  | .replace i nodes => ∀ p, f.parent? i = some p → f.MayHold p (nodes.substituted f p i)

end Edit

/-- What becomes of no nodes at all by edits that are allowed. -/
inductive Edited : Forest → Prop
  | empty : Edited {}
  | step {f : Forest} (before : Edited f) (e : Edit) (allowed : e.Allowed f) : Edited (e.run f)

/-- A node may be made with children of the caller's own. -/
theorem Edited.element (h : Edited f) (n : Node) (ns : List NodeId) (hns : ∀ c ∈ ns, c < f.size) :
    Edited ((Edit.element n (.own ns)).run f) :=
  h.step (.element n (.own ns)) hns

/-- A new node stands above none but itself. -/
theorem alloc_mayTake (f : Forest) (m : Node) {ns : List NodeId} (hns : ∀ c ∈ ns, c < f.size) :
    (f.alloc m).2.MayTake f.size ns := by
  refine ⟨by simp, fun c hc => ?_, fun c hc habove => ?_⟩
  · rw [size_alloc]
    exact Nat.lt_succ_of_lt (hns c hc)
  · rcases habove.eq_or with heq | ⟨p, hp, -⟩
    · exact Nat.ne_of_lt (hns c hc) heq.symm
    · rw [parent?, get_alloc, if_pos rfl] at hp
      cases hp

theorem WellFormed.edit (hf : f.WellFormed) {e : Edit} (he : e.Allowed f) : (e.run f).WellFormed := by
  cases e with
  | element m children => exact (hf.alloc m).append_each (f.alloc_mayTake m he)
  | append p children => exact hf.append_each he
  | insert p position children => exact hf.insert he position
  | remove i => exact hf.detach i
  | replace i nodes =>
    show (f.replaceWithGiven i nodes).WellFormed
    unfold replaceWithGiven
    split
    · exact hf
    · rename_i p hp
      have hmay : f.MayHold p (nodes.substituted f p i) := he p hp
      refine hf.replaceWith hmay.nodup hmay.lt_size fun q hq => ?_
      cases hp.symm.trans hq
      exact hmay.not_above
  | copy i => exact hf.deepCopy he

theorem Edited.wellFormed_of (h : Edited f) : f.WellFormed := by
  induction h with
  | empty =>
    have hnone : ∀ i, ({} : Forest).parent? i = none := fun i => parent?_of_size_le (Nat.zero_le i)
    have hempty : ∀ i, ({} : Forest).children i = [] := fun i =>
      children_of_size_le (Nat.zero_le i)
    refine Linked.wellFormed ⟨fun p => ?_, fun i p => ?_⟩ fun i => .top (hnone i)
    · rw [hempty]
      exact List.nodup_nil
    · rw [hempty, hnone]
      exact iff_of_false List.not_mem_nil nofun
  | step _ e allowed ih => exact ih.edit allowed

end Forest

end MarkupLint
