import MarkupLint.Proofs.Likeness

/-! # How forests grow

    A step that builds part of a tree makes new nodes and hangs them up.  The
    nodes from a place `n` on are the new ones.  A step that only prepares
    nodes, such as those of a line of text or of a message, `Spares` the old
    nodes altogether; a step that also hangs new nodes under old ones
    `Grows` the forest: the old nodes keep their kinds, their parents and,
    among themselves, their children. -/

namespace MarkupLint

namespace Forest

/-- New nodes have none but new children. -/
def Closed (n : Nat) (f : Forest) : Prop := ∀ i, n ≤ i → ∀ c ∈ f.children i, n ≤ c

/-- New nodes have nothing to do with old ones. -/
def Apart (n : Nat) (f : Forest) : Prop :=
  f.Closed n ∧ ∀ i, n ≤ i → ∀ p, f.parent? i = some p → n ≤ p

/-- The forest after a step that leaves the old nodes as they are. -/
structure Spares (n : Nat) (f g : Forest) : Prop where
  size : f.size ≤ g.size
  old : ∀ i < n, g.get i = f.get i
  apart : f.Apart n → g.Apart n

/-- The forest after a step that may hang new nodes under old ones. -/
structure Grows (n : Nat) (f g : Forest) : Prop where
  size : f.size ≤ g.size
  kind : ∀ i < n, (g.get i).kind = (f.get i).kind
  parent : ∀ i < n, g.parent? i = f.parent? i
  children : ∀ i < n, (g.children i).filter (· < n) = (f.children i).filter (· < n)
  closed : f.Closed n → g.Closed n

/-- There are no nodes at or above the size, and none below them. -/
theorem closed_of_size_le {n : Nat} {f : Forest} (h : f.size ≤ n) : f.Closed n := by
  intro i hi c hc
  rw [Forest.children, get_of_size_le (Nat.le_trans h hi)] at hc
  cases hc

/-- Before anything is new, nothing new is near the old. -/
theorem apart_of_size_le {n : Nat} {f : Forest} (h : f.size ≤ n) : f.Apart n := by
  refine ⟨closed_of_size_le h, fun i hi p hp => ?_⟩
  rw [Forest.parent?, get_of_size_le (Nat.le_trans h hi)] at hp
  cases hp

/-! ## Preparing nodes -/

namespace Spares

variable {n : Nat} {f g h : Forest}

/-- A forest spares what it has. -/
theorem refl (n : Nat) (f : Forest) : f.Spares n f := ⟨Nat.le_refl _, fun _ _ => rfl, id⟩

/-- What is spared twice is spared. -/
theorem trans (hfg : f.Spares n g) (hgh : g.Spares n h) : f.Spares n h where
  size := Nat.le_trans hfg.size hgh.size
  old i hi := (hgh.old i hi).trans (hfg.old i hi)
  apart hf := hgh.apart (hfg.apart hf)

/-- A new node is none of the old ones. -/
theorem alloc (hn : n ≤ f.size) (m : Node) : f.Spares n (f.alloc m).2 where
  size := by simp
  old i hi := by
    have hne : i ≠ f.size := Nat.ne_of_lt (Nat.lt_of_lt_of_le hi hn)
    rw [get_alloc, if_neg hne]
  apart := by
    rintro ⟨hkids, hparents⟩
    refine ⟨fun i hi c hc => ?_, fun i hi p hp => ?_⟩
    · rw [Forest.children, get_alloc] at hc
      split at hc
      · cases hc
      · exact hkids i hi c hc
    · rw [Forest.parent?, get_alloc] at hp
      split at hp
      · cases hp
      · exact hparents i hi p hp

/-- A change of a new node that ties it to new nodes only. -/
theorem modify {i : NodeId} (hi : n ≤ i) {a : Node → Node}
    (hkids : f.Apart n → ∀ c ∈ (a (f.get i)).children, n ≤ c)
    (hparent : f.Apart n → ∀ p, (a (f.get i)).parent = some p → n ≤ p) :
    f.Spares n (f.modify i a) where
  size := by simp
  old j hj := by
    rw [get_modify, if_neg]
    rintro ⟨rfl, -⟩
    omega
  apart hf := by
    refine ⟨fun j hj c hc => ?_, fun j hj p hp => ?_⟩
    · rw [Forest.children, get_modify] at hc
      split at hc
      · rename_i hij
        rw [← hij.1] at hc
        exact hkids hf c hc
      · exact hf.1 j hj c hc
    · rw [Forest.parent?, get_modify] at hp
      split at hp
      · rename_i hij
        rw [← hij.1] at hp
        exact hparent hf p hp
      · exact hf.2 j hj p hp

/-- A new node that stands apart is taken from new nodes only. -/
theorem detach (hf : f.Apart n) {i : NodeId} (hi : n ≤ i) : f.Spares n (f.detach i) := by
  unfold Forest.detach
  split
  · exact refl n f
  · rename_i p hp
    have hpn : n ≤ p := hf.2 i hi p hp
    refine trans (modify hpn ?_ ?_) (modify hi ?_ ?_)
    · exact fun _ c hc => hf.1 p hpn c (List.mem_of_mem_erase hc)
    · exact fun _ q hq => hf.2 p hpn q hq
    · exact fun hg c hc => hg.1 i hi c hc
    · exact fun _ q hq => by cases hq

/-- A new node is put below a new one. -/
theorem adopt (hf : f.Apart n) {p i : NodeId} (hp : n ≤ p) (hi : n ≤ i) :
    f.Spares n (f.adopt p i) := by
  refine (detach hf hi).trans (modify hi ?_ ?_)
  · exact fun hg c hc => hg.1 i hi c hc
  · exact fun _ q hq => by
      obtain rfl : p = q := by simpa using hq
      exact hp

/-- New nodes are put below a new one. -/
theorem append (hf : f.Apart n) {p : NodeId} (hp : n ≤ p) {ns : List NodeId}
    (hns : ∀ i ∈ ns, n ≤ i) : f.Spares n (f.append p ns) := by
  unfold Forest.append
  induction ns generalizing f with
  | nil => exact refl n f
  | cons i ns ih =>
    have hi : n ≤ i := hns i List.mem_cons_self
    have hone : f.Spares n ((f.adopt p i).modify p
        fun m => { m with children := m.children ++ [i] }) := by
      refine (adopt hf hp hi).trans (modify hp ?_ ?_)
      · intro hg c hc
        rcases List.mem_append.mp hc with hc | hc
        · exact hg.1 p hp c hc
        · obtain rfl := List.mem_singleton.mp hc
          exact hi
      · exact fun hg q hq => hg.2 p hp q hq
    exact hone.trans (ih (hone.apart hf) fun j hj => hns j (List.mem_cons_of_mem _ hj))

end Spares

/-! ## Hanging nodes up -/

namespace Grows

variable {n : Nat} {f g h : Forest}

/-- A forest grows by nothing. -/
theorem refl (n : Nat) (f : Forest) : f.Grows n f :=
  ⟨Nat.le_refl _, fun _ _ => rfl, fun _ _ => rfl, fun _ _ => rfl, id⟩

/-- A forest that grows twice has grown. -/
theorem trans (hfg : f.Grows n g) (hgh : g.Grows n h) : f.Grows n h where
  size := Nat.le_trans hfg.size hgh.size
  kind i hi := (hgh.kind i hi).trans (hfg.kind i hi)
  parent i hi := (hgh.parent i hi).trans (hfg.parent i hi)
  children i hi := (hgh.children i hi).trans (hfg.children i hi)
  closed hf := hgh.closed (hfg.closed hf)

/-- Nodes that were prepared apart from all others are new to any old. -/
theorem of_spares {m : Nat} (hnm : n ≤ m) (hm : f.size ≤ m) (hfg : f.Spares m g) :
    f.Grows n g where
  size := hfg.size
  kind i hi := by rw [hfg.old i (by omega)]
  parent i hi := by rw [Forest.parent?, hfg.old i (by omega), Forest.parent?]
  children i hi := by rw [Forest.children, hfg.old i (by omega), Forest.children]
  closed hf i hi c hc := by
    by_cases him : i < m
    · rw [Forest.children, hfg.old i him] at hc
      exact hf i hi c hc
    · exact Nat.le_trans hnm ((hfg.apart (apart_of_size_le hm)).1 i (by omega) c hc)

/-- A new node is put nowhere yet. -/
theorem alloc (hn : n ≤ f.size) (m : Node) : f.Grows n (f.alloc m).2 :=
  of_spares hn (Nat.le_refl _) (.alloc (Nat.le_refl _) m)

/-- An old node keeps its old children, and a new one may have new children
    only. -/
theorem modify {i : NodeId} {a : Node → Node} (hkind : ∀ m, (a m).kind = m.kind)
    (hparent : i < n → (a (f.get i)).parent = (f.get i).parent)
    (hold : i < n → (a (f.get i)).children.filter (· < n) = (f.get i).children.filter (· < n))
    (hnew : f.Closed n → n ≤ i → ∀ c ∈ (a (f.get i)).children, n ≤ c) :
    f.Grows n (f.modify i a) where
  size := by simp
  kind j _ := kind_modify f i j hkind
  parent j hj := by
    rw [Forest.parent?, get_modify]
    split
    · rename_i hij
      rw [← hij.1]
      exact hparent (hij.1 ▸ hj)
    · rfl
  children j hj := by
    rw [Forest.children, get_modify]
    split
    · rename_i hij
      rw [← hij.1]
      exact hold (hij.1 ▸ hj)
    · rfl
  closed hf j hj c hc := by
    rw [Forest.children, get_modify] at hc
    split at hc
    · rename_i hij
      rw [← hij.1] at hc
      exact hnew hf (hij.1 ▸ hj) c hc
    · exact hf j hj c hc

/-- A change that leaves kind, parent and children alone. -/
theorem modify_plain (i : NodeId) {a : Node → Node} (hkind : ∀ m, (a m).kind = m.kind)
    (hparent : ∀ m, (a m).parent = m.parent) (hkids : ∀ m, (a m).children = m.children) :
    f.Grows n (f.modify i a) :=
  modify hkind (fun _ => hparent _) (fun _ => by rw [hkids])
    fun hf hi c hc => hf i hi c (by rwa [hkids] at hc)

/-- A new node that is erased was not among the old children. -/
theorem filter_erase {i : NodeId} (hi : n ≤ i) (kids : List NodeId) :
    (kids.erase i).filter (· < n) = kids.filter (· < n) := by
  rw [← List.erase_filter, List.erase_of_not_mem]
  intro hmem
  have := List.of_mem_filter hmem
  simp only [decide_eq_true_eq] at this
  omega

/-- None of some new nodes is old. -/
theorem filter_new {ns : List NodeId} (hns : ∀ i ∈ ns, n ≤ i) : ns.filter (· < n) = [] := by
  rw [List.filter_eq_nil_iff]
  intro i hi
  have := hns i hi
  simp only [decide_eq_true_eq]
  omega

/-- A new node that is detached leaves the old children of each node alone. -/
theorem detach {i : NodeId} (hi : n ≤ i) : f.Grows n (f.detach i) := by
  unfold Forest.detach
  split
  · exact refl n f
  · rename_i p hp
    refine trans (modify ?_ ?_ ?_ ?_) (modify ?_ ?_ ?_ ?_)
    · exact fun _ => rfl
    · exact fun _ => rfl
    · exact fun _ => filter_erase hi _
    · exact fun hf hpn c hc => hf p hpn c (List.mem_of_mem_erase hc)
    · exact fun _ => rfl
    · exact fun hlt => absurd hlt (Nat.not_lt.mpr hi)
    · exact fun _ => rfl
    · exact fun hf _ c hc => hf i hi c hc

/-- A new node may be adopted by an old one. -/
theorem adopt (p : NodeId) {i : NodeId} (hi : n ≤ i) : f.Grows n (f.adopt p i) := by
  refine (detach hi).trans (modify ?_ ?_ ?_ ?_)
  · exact fun _ => rfl
  · exact fun hlt => absurd hlt (Nat.not_lt.mpr hi)
  · exact fun _ => rfl
  · exact fun hf _ c hc => hf i hi c hc

/-- By the nodes: each is adopted at the end. -/
theorem append (p : NodeId) {ns : List NodeId} (hns : ∀ i ∈ ns, n ≤ i) :
    f.Grows n (f.append p ns) := by
  unfold Forest.append
  induction ns generalizing f with
  | nil => exact refl n f
  | cons i ns ih =>
    have hi : n ≤ i := hns i List.mem_cons_self
    refine trans ((adopt p hi).trans (modify ?_ ?_ ?_ ?_))
      (ih fun j hj => hns j (List.mem_cons_of_mem _ hj))
    · exact fun _ => rfl
    · exact fun _ => rfl
    · intro _
      have hone : [i].filter (· < n) = [] := filter_new (List.forall_mem_singleton.mpr hi)
      rw [List.filter_append, hone, List.append_nil]
    · intro hf hpn c hc
      rcases List.mem_append.mp hc with hc | hc
      · exact hf p hpn c hc
      · obtain rfl := List.mem_singleton.mp hc
        exact hi

/-- The old children keep their order around what is inserted. -/
theorem insert (p : NodeId) (position : Int) {ns : List NodeId} (hns : ∀ i ∈ ns, n ≤ i) :
    f.Grows n (f.insert p position ns) := by
  have hadopt : ∀ f : Forest, f.Grows n (ns.foldl (fun f i => f.adopt p i) f) := by
    induction ns with
    | nil => exact refl n
    | cons i ns ih =>
      intro f
      exact (adopt p (hns i List.mem_cons_self)).trans
        (ih (fun j hj => hns j (List.mem_cons_of_mem _ hj)) _)
  unfold Forest.insert
  refine (hadopt f).trans (modify ?_ ?_ ?_ ?_)
  · exact fun _ => rfl
  · exact fun _ => rfl
  · intro _
    rw [List.filter_append, List.filter_append, filter_new hns, List.append_nil,
      ← List.filter_append, List.take_append_drop]
  · intro hf hpn c hc
    rcases List.mem_append.mp hc with hc | hc
    · rcases List.mem_append.mp hc with hc | hc
      · exact hf p hpn c (List.mem_of_mem_take hc)
      · exact hns c hc
    · exact hf p hpn c (List.mem_of_mem_drop hc)

end Grows

end Forest

end MarkupLint
