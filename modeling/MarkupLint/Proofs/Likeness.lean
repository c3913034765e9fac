import Mathlib.Data.List.Basic
import Mathlib.Data.List.TakeWhile
import MarkupLint.Calendar.Shown
import MarkupLint.Document.Message

/-! # Trees that look alike

    The date that a text asks for is the one thing in a tree that does not
    come from texts.  It becomes a leaf, so two readings of a text may differ
    in what their leaves hold, though not in whether a leaf holds anything,
    or anything but white space: the shade of the leaf.  Nodes are `Alike`
    if they differ at most in the texts of leaves of the same shade and in
    the two attributes that hold the text of other nodes.  Readings at the
    same time do not differ: nodes that are alike may be said to be the same.

    Looking around in forests that are alike, one finds the same; editing
    them in the same way keeps them alike. -/

namespace MarkupLint

/-! ## Shades -/

/-- How much of a text can be seen. -/
inductive Shade where
  | empty | blank | visible
  deriving DecidableEq

namespace Shade

/-- The shade of two texts one after the other. -/
def join : Shade → Shade → Shade
  | .visible, _ => .visible
  | _, .visible => .visible
  | .blank, _ => .blank
  | _, .blank => .blank
  | .empty, .empty => .empty

/-- The shade of a text. -/
def of (s : String) : Shade :=
  if s = "" then .empty else if Text.isBlank s.toList then .blank else .visible

/-- The empty text is the only one of its shade. -/
theorem of_eq_empty_iff {s : String} : of s = .empty ↔ s = "" := by
  unfold of
  split
  · simp_all
  · split <;> simp_all

/-- A text is visible if it is not blank. -/
theorem of_eq_visible_iff {s : String} : of s = .visible ↔ Text.isBlank s.toList = false := by
  unfold of
  split
  · rename_i h
    simp [h, Text.isBlank]
  · split <;> simp_all

/-- Texts that look alike have the same shade. -/
theorem of_lookAlike {s t : List Char} (h : Text.LookAlike s t) :
    of (String.ofList s) = of (String.ofList t) := by
  have hempty : String.ofList s = "" ↔ String.ofList t = "" := by
    rw [← String.toList_eq_nil_iff, ← String.toList_eq_nil_iff, String.toList_ofList,
      String.toList_ofList, ← List.isEmpty_iff, ← List.isEmpty_iff, h.isEmpty]
  simp only [of, hempty, String.toList_ofList, h.isBlank]

/-- The shade of two texts together is told by their shades. -/
theorem of_append (a b : String) : of (a ++ b) = (of a).join (of b) := by
  have hblank : Text.isBlank (a ++ b).toList
      = (Text.isBlank a.toList && Text.isBlank b.toList) := by
    simp [Text.isBlank]
  by_cases ha : a = ""
  · subst ha
    cases h : of b <;> simp [join, h, show of "" = .empty from rfl]
  by_cases hb : b = ""
  · subst hb
    cases h : of a <;> simp [join, h, show of "" = .empty from rfl]
  have hab : a ++ b ≠ "" := by
    intro h
    have hlist := congrArg String.toList h
    simp only [String.toList_append, String.toList_empty, List.append_eq_nil_iff] at hlist
    exact ha (by simpa using hlist.1)
  unfold of
  rw [if_neg ha, if_neg hb, if_neg hab, hblank]
  cases Text.isBlank a.toList <;> cases Text.isBlank b.toList <;> rfl

/-- Joined texts have the same shade if their parts have. -/
theorem of_intercalate (sep : String) {as bs : List String} (h : as.map of = bs.map of) :
    of (sep.intercalate as) = of (sep.intercalate bs) := by
  induction as generalizing bs with
  | nil =>
    obtain rfl : bs = [] := by simpa using h.symm
    rfl
  | cons a as ih =>
    cases bs with
    | nil => simp at h
    | cons b bs =>
      simp only [List.map_cons, List.cons.injEq] at h
      cases as with
      | nil =>
        obtain rfl : bs = [] := by simpa using h.2.symm
        rw [String.intercalate_singleton, String.intercalate_singleton, h.1]
      | cons x as =>
        cases bs with
        | nil => simp at h
        | cons y bs =>
          rw [String.intercalate_cons_cons, String.intercalate_cons_cons, of_append, of_append,
            of_append, of_append, h.1, ih h.2]

/-- Nothing is left of a text without its white space just if there is
    nothing to see. -/
theorem trim_eq_empty_iff (s : String) :
    String.ofList (Text.trim s.toList) = "" ↔ of s ≠ .visible := by
  have hempty : ∀ l : List Char, String.ofList l = "" ↔ l = [] := by
    intro l
    rw [← String.toList_eq_nil_iff, String.toList_ofList]
  rw [hempty, ne_eq, of_eq_visible_iff, Bool.not_eq_false]
  generalize s.toList = l
  simp only [Text.trim, Text.dropRightWhile, List.reverse_eq_nil_iff, List.dropWhile_eq_nil_iff,
    List.mem_reverse, Text.isBlank, List.all_eq_true]
  constructor
  · intro h c hc
    rw [← List.takeWhile_append_dropWhile (p := Text.isBlankChar) (l := l)] at hc
    rcases List.mem_append.mp hc with hc | hc
    · exact List.mem_takeWhile_imp hc
    · exact h c hc
  · intro h c hc
    exact h c ((List.dropWhile_sublist _).subset hc)

end Shade

/-! ## Nodes -/

namespace Node

/-- An attribute that holds the text of other nodes, with that text left
    out. -/
def dim (p : String × String) : String × String :=
  if p.1 = "title" ∨ p.1 = "content" then (p.1, "") else p

/-- The nodes differ at most in the text of a leaf, not in its shade, and in
    the texts of other nodes they repeat; and if they are to be the `same`,
    in nothing. -/
inductive Alike (same : Prop) (n : Node) : Node → Prop
  | intro (value : String) (attrs : Data.Table String)
      (shade : n.kind = .text → Shade.of n.value = Shade.of value)
      (exact : n.kind ≠ .text → n.value = value)
      (dimmed : n.attrs.map dim = attrs.map dim)
      (equal : same → value = n.value ∧ attrs = n.attrs) :
      Alike same n { n with value := value, attrs := attrs }

/-- A change of a node that neither looks at nor touches what nodes that are
    alike may differ in. -/
def Plain (g : Node → Node) : Prop :=
  ∀ (n : Node) (value : String) (attrs : Data.Table String),
    g { n with value := value, attrs := attrs } = { g n with value := value, attrs := attrs } ∧
      (g n).kind = n.kind ∧ (g n).value = n.value ∧ (g n).attrs = n.attrs

/-! ## Attributes -/

/-- What an attribute is called is not dimmed. -/
theorem dim_name (p : String × String) : (dim p).1 = p.1 := by
  unfold dim
  split <;> rfl

/-- A dimmed attribute is found under its name. -/
theorem get?_map_dim (t : Data.Table String) (key : String) :
    Data.Table.get? (t.map dim) key = (t.get? key).map fun v => (dim (key, v)).2 := by
  induction t with
  | nil => rfl
  | cons p rest ih =>
    obtain ⟨k, v⟩ := p
    simp only [List.map_cons, Data.Table.get?, dim_name]
    split
    · rename_i h
      subst h
      rfl
    · exact ih

/-- It does not matter whether an attribute is dimmed before or after it is
    set. -/
theorem set_map_dim (t : Data.Table String) (key value : String) :
    (t.set key value).map dim = Data.Table.set (t.map dim) key (dim (key, value)).2 := by
  have hpair : ∀ v, dim (key, v) = (key, (dim (key, v)).2) := fun v =>
    Prod.ext (dim_name _) rfl
  induction t with
  | nil => simp only [Data.Table.set, List.map_cons, List.map_nil, ← hpair]
  | cons p rest ih =>
    obtain ⟨k, v⟩ := p
    simp only [Data.Table.set, List.map_cons, dim_name]
    split
    · rw [List.map_cons, ← hpair]
    · rw [List.map_cons, ih]
      exact congrArg (· :: _) (Prod.ext (dim_name _) rfl)

namespace Alike

variable {same : Prop} {m n : Node}

/-- A node is like itself. -/
theorem refl (n : Node) : n.Alike same n :=
  .intro n.value n.attrs (fun _ => rfl) (fun _ => rfl) rfl fun _ => ⟨rfl, rfl⟩

/-- Nodes that have to be the same are. -/
theorem eq (h : m.Alike same n) (hsame : same) : n = m := by
  cases h with
  | intro value attrs shade exact dimmed equal =>
    obtain ⟨rfl, rfl⟩ := equal hsame
    rfl

theorem kind (h : m.Alike same n) : n.kind = m.kind := by cases h; rfl

theorem source (h : m.Alike same n) : n.source = m.source := by cases h; rfl

theorem line (h : m.Alike same n) : n.line = m.line := by cases h; rfl

theorem anonymous (h : m.Alike same n) : n.anonymous = m.anonymous := by cases h; rfl

theorem refuri (h : m.Alike same n) : n.refuri = m.refuri := by cases h; rfl

theorem names (h : m.Alike same n) : n.names = m.names := by cases h; rfl

theorem refname (h : m.Alike same n) : n.refname = m.refname := by cases h; rfl

theorem referenced (h : m.Alike same n) : n.referenced = m.referenced := by cases h; rfl

theorem level (h : m.Alike same n) : n.level = m.level := by cases h; rfl

theorem children (h : m.Alike same n) : n.children = m.children := by cases h; rfl

theorem parent (h : m.Alike same n) : n.parent = m.parent := by cases h; rfl

/-- Only the text of a leaf may differ. -/
theorem value (h : m.Alike same n) (hkind : m.kind ≠ .text) : n.value = m.value := by
  cases h with
  | intro value attrs shade exact => exact (exact hkind).symm

/-- A plain change keeps nodes alike. -/
theorem map {g : Node → Node} (h : m.Alike same n) (hg : Plain g) : (g m).Alike same (g n) := by
  cases h with
  | intro value attrs shade exact dimmed equal =>
    obtain ⟨hrest, hkind, hvalue, hattrs⟩ := hg m value attrs
    rw [hrest]
    refine .intro value attrs ?_ ?_ ?_ ?_
    · rw [hkind, hvalue]
      exact shade
    · rw [hkind, hvalue]
      exact exact
    · rw [hattrs]
      exact dimmed
    · rw [hvalue, hattrs]
      exact equal

/-- Setting an attribute keeps nodes alike, if the values differ in nothing
    but the texts of other nodes. -/
theorem setAttr (h : m.Alike same n) {key v w : String} (hvw : dim (key, v) = dim (key, w))
    (hsame : same → w = v) : (m.setAttr key v).Alike same (n.setAttr key w) := by
  cases h with
  | intro value attrs shade exact dimmed equal =>
    refine .intro value (attrs.set key w) shade exact ?_ fun h => ?_
    · simp only [Node.setAttr, set_map_dim, dimmed, hvw]
    · obtain ⟨rfl, rfl⟩ := equal h
      rw [hsame h]
      exact ⟨rfl, rfl⟩

/-- The other attributes are the same. -/
theorem attr? (h : m.Alike same n) {key : String} (htitle : key ≠ "title") (hcontent : key ≠ "content") :
    n.attr? key = m.attr? key := by
  cases h with
  | intro value attrs shade exact dimmed =>
    have hget := congrArg (Data.Table.get? · key) dimmed
    have hdim : ∀ v, (dim (key, v)).2 = v := by
      intro v
      simp [dim, htitle, hcontent]
    simp only [get?_map_dim, hdim, Option.map_id'] at hget
    exact hget.symm

/-- The same attributes are there. -/
theorem attr?_isNone (h : m.Alike same n) (key : String) :
    (n.attr? key).isNone = (m.attr? key).isNone := by
  cases h with
  | intro value attrs shade exact dimmed =>
    have hget := congrArg (fun t => (Data.Table.get? t key).isNone) dimmed
    simp only [get?_map_dim, Option.isNone_map] at hget
    exact hget.symm

end Alike

end Node

/-! ## Forests -/

namespace Forest

/-- Behind the last node there are empty ones only. -/
theorem get_of_size_le {f : Forest} {i : NodeId} (h : f.size ≤ i) : f.get i = default := by
  simp only [get, size] at h ⊢
  rw [Array.getElem?_eq_none h]
  rfl

@[simp] theorem size_modify (f : Forest) (i : NodeId) (g : Node → Node) :
    (f.modify i g).size = f.size := by
  simp [modify, size]

/-- A change of one node is seen at this node only, if there is one. -/
theorem get_modify (f : Forest) (i j : NodeId) (g : Node → Node) :
    (f.modify i g).get j = if i = j ∧ j < f.size then g (f.get j) else f.get j := by
  simp only [modify, get, size, Array.getElem?_modify]
  by_cases hij : i = j
  · by_cases hj : j < f.nodes.size
    · simp [hij, hj]
    · simp [hij, hj]
  · simp [hij]

/-- The node that is changed. -/
theorem get_modify_self {f : Forest} {i : NodeId} (hi : i < f.size) (g : Node → Node) :
    (f.modify i g).get i = g (f.get i) := by
  rw [get_modify, if_pos ⟨rfl, hi⟩]

/-- The other nodes. -/
theorem get_modify_of_ne (f : Forest) {i j : NodeId} (hj : j ≠ i) (g : Node → Node) :
    (f.modify i g).get j = f.get j := by
  rw [get_modify, if_neg fun h => hj h.1.symm]

/-- What a change keeps of the node that is changed, it keeps of every node. -/
theorem view_modify {α : Type} {view : Node → α} (f : Forest) (i j : NodeId) {g : Node → Node}
    (hview : ∀ n, view (g n) = view n) : view ((f.modify i g).get j) = view (f.get j) := by
  rw [get_modify]
  split
  · exact hview _
  · rfl

/-- A change that keeps the kind keeps it everywhere. -/
theorem kind_modify (f : Forest) (i j : NodeId) {g : Node → Node}
    (hkind : ∀ n, (g n).kind = n.kind) : ((f.modify i g).get j).kind = (f.get j).kind :=
  view_modify f i j hkind

/-- A change that keeps the parent moves nothing. -/
theorem parent?_modify (f : Forest) (i j : NodeId) {g : Node → Node}
    (hparent : ∀ n, (g n).parent = n.parent) : (f.modify i g).parent? j = f.parent? j :=
  view_modify f i j hparent

/-- A change that keeps the children keeps them everywhere. -/
theorem children_modify (f : Forest) (i j : NodeId) {g : Node → Node}
    (hchildren : ∀ n, (g n).children = n.children) : (f.modify i g).children j = f.children j :=
  view_modify f i j hchildren

@[simp] theorem size_alloc (f : Forest) (n : Node) : (f.alloc n).2.size = f.size + 1 := by
  simp [alloc, size]

@[simp] theorem alloc_place (f : Forest) (n : Node) : (f.alloc n).1 = f.size := rfl

/-- A new node has no children and no parent yet. -/
theorem get_alloc (f : Forest) (n : Node) (j : NodeId) :
    (f.alloc n).2.get j =
      if j = f.size then { n with children := [], parent := none } else f.get j := by
  by_cases h : j = f.size
  · rw [if_pos h]
    have hj : j = f.nodes.size := h
    simp only [alloc, get, Array.getElem?_push, if_pos hj]
    rfl
  · rw [if_neg h]
    have hj : ¬j = f.nodes.size := h
    simp only [alloc, get, Array.getElem?_push, if_neg hj]

/-- One more copy of a tree behind the others, hung under `p`; the places of
    the copies are kept. -/
def copyUnder (depth : Nat) (p : NodeId) (acc : List NodeId × Forest) (c : NodeId) :
    List NodeId × Forest :=
  (acc.1 ++ [(copyWithin depth acc.2 c).1],
    (copyWithin depth acc.2 c).2.modify (copyWithin depth acc.2 c).1
      fun m => { m with parent := some p })

/-- A tree is copied by copying its children, one after the other. -/
theorem copyWithin_succ (depth : Nat) (f : Forest) (i : NodeId) :
    copyWithin (depth + 1) f i =
      let done := (f.children i).foldl (copyUnder depth f.size) ([], (f.alloc (f.get i)).2)
      (f.size, done.2.modify f.size fun m => { m with children := done.1 }) := rfl

@[simp] theorem kind_detach (f : Forest) (i j : NodeId) : ((f.detach i).get j).kind = (f.get j).kind := by
  simp only [detach]
  split
  · rfl
  · simp only [get_modify]
    split <;> split <;> rfl

/-- Node by node, the forests are alike. -/
structure Alike (same : Prop) (f g : Forest) : Prop where
  size : g.size = f.size
  node : ∀ i, (f.get i).Alike same (g.get i)

namespace Alike

variable {same : Prop} {f g : Forest}

/-- A forest is like itself. -/
theorem refl (f : Forest) : f.Alike same f := ⟨rfl, fun _ => .refl _⟩

/-- Forests that have to be the same are. -/
theorem eq (h : f.Alike same g) (hsame : same) : g = f := by
  obtain ⟨nodes⟩ := f
  obtain ⟨others⟩ := g
  have hsize : others.size = nodes.size := h.size
  congr
  refine Array.ext hsize fun i hi hi' => ?_
  have hnode := (h.node i).eq hsame
  simp only [Forest.get, Array.getElem?_eq_getElem hi, Array.getElem?_eq_getElem hi',
    Option.getD_some] at hnode
  exact hnode

/-! ### Looking around -/

theorem kind (h : f.Alike same g) (i : NodeId) : (g.get i).kind = (f.get i).kind := (h.node i).kind

theorem children (h : f.Alike same g) (i : NodeId) : g.children i = f.children i := (h.node i).children

theorem parent? (h : f.Alike same g) (i : NodeId) : g.parent? i = f.parent? i := (h.node i).parent

/-- A node has the same place among its siblings. -/
theorem index? (h : f.Alike same g) (i : NodeId) : g.index? i = f.index? i := by
  unfold Forest.index?
  rw [h.parent?]
  split
  · rfl
  · rw [h.children]

/-- By the parents: the way up is the same. -/
theorem lineage (h : f.Alike same g) (i : NodeId) : g.lineage i = f.lineage i := by
  have hgo : ∀ steps i, Forest.lineage.go g steps i = Forest.lineage.go f steps i := by
    intro steps
    induction steps with
    | zero => intro i; rfl
    | succ steps ih =>
      intro i
      simp only [Forest.lineage.go, h.parent?, ih]
  unfold Forest.lineage
  rw [h.size, hgo]

/-- So is the place of a node in the order of the document. -/
theorem position (h : f.Alike same g) (i : NodeId) : g.position i = f.position i := by
  have hsource : ∀ j, (g.get j).source = (f.get j).source := fun j => (h.node j).source
  have hline : ∀ j, (g.get j).line = (f.get j).line := fun j => (h.node j).line
  simp only [Forest.position, h.lineage, hsource, hline]

/-- By the nodes: a walk that enters the same nodes visits the same nodes. -/
theorem walk (h : f.Alike same g) (enter : Node → Bool) (henter : ∀ i, enter (g.get i) = enter (f.get i))
    (i : NodeId) : g.walk enter i = f.walk enter i := by
  have hwithin : ∀ depth i, g.walkWithin enter depth i = f.walkWithin enter depth i := by
    intro depth
    induction depth with
    | zero => intro i; rfl
    | succ depth ih =>
      intro i
      have hkids : (g.get i).children = (f.get i).children := (h.node i).children
      simp only [Forest.walkWithin, henter, hkids]
      split
      · congr 2
        funext c
        exact ih c
      · rfl
  unfold Forest.walk
  rw [h.size, hwithin]

/-- The nodes of a kind are the same. -/
theorem findAll (h : f.Alike same g) (k : Kind) (i : NodeId) : g.findAll k i = f.findAll k i := by
  simp only [Forest.findAll, h.walk (fun _ => true) (fun _ => rfl), h.kind]

/-- So are those outside definitions. -/
theorem findOutsideDefinitions (h : f.Alike same g) (k : Kind) (i : NodeId) :
    g.findOutsideDefinitions k i = f.findOutsideDefinitions k i := by
  have hwalk := h.walk (fun n => n.kind ≠ .substitutionDefinition) (fun j => by rw [h.kind]) i
  simp only [Forest.findOutsideDefinitions, hwalk, h.kind]

/-- The texts of the nodes have the same shade. -/
theorem shade_asText (h : f.Alike same g) (i : NodeId) :
    Shade.of (g.asText i) = Shade.of (f.asText i) := by
  have hwithin : ∀ depth i, Shade.of (g.textWithin depth i) = Shade.of (f.textWithin depth i) := by
    intro depth
    induction depth with
    | zero => intro i; rfl
    | succ depth ih =>
      intro i
      simp only [Forest.textWithin]
      have hnode := h.node i
      generalize f.get i = n at hnode
      generalize g.get i = m at hnode
      cases hnode with
      | intro value attrs shade =>
        dsimp only
        split
        · exact (shade ‹_›).symm
        · refine Shade.of_intercalate _ ?_
          simp only [List.map_map]
          exact List.map_congr_left fun c _ => ih c
  unfold Forest.asText
  rw [h.size, hwithin]

/-! ### Editing -/

/-- A change that keeps one node alike keeps the forests alike. -/
theorem modify (h : f.Alike same g) {i : NodeId} {a b : Node → Node}
    (hab : ∀ {m n : Node}, m.Alike same n → m = f.get i → (a m).Alike same (b n)) :
    (f.modify i a).Alike same (g.modify i b) where
  size := by simp [h.size]
  node j := by
    rw [get_modify, get_modify, h.size]
    split
    · rename_i hij
      exact hab (h.node j) (by rw [hij.1])
    · exact h.node j

/-- A plain change of one node. -/
theorem modify_plain (h : f.Alike same g) (i : NodeId) {a : Node → Node} (ha : Node.Plain a) :
    (f.modify i a).Alike same (g.modify i a) :=
  h.modify fun hmn _ => hmn.map ha

/-- Nodes that are alike are given the same place. -/
theorem alloc (h : f.Alike same g) {m n : Node} (hmn : m.Alike same n) :
    (f.alloc m).2.Alike same (g.alloc n).2 where
  size := by simp [h.size]
  node j := by
    rw [get_alloc, get_alloc, h.size]
    split
    · exact hmn.map (g := fun k => { k with children := [], parent := none })
        fun _ _ _ => ⟨rfl, rfl, rfl, rfl⟩
    · exact h.node j

/-- A node is detached on both sides. -/
theorem detach (h : f.Alike same g) (i : NodeId) : (f.detach i).Alike same (g.detach i) := by
  unfold Forest.detach
  rw [h.parent?]
  split
  · exact h
  · refine modify_plain (modify_plain h _ ?_) _ ?_
    · exact fun _ _ _ => ⟨rfl, rfl, rfl, rfl⟩
    · exact fun _ _ _ => ⟨rfl, rfl, rfl, rfl⟩

/-- It is adopted on both sides. -/
theorem adopt (h : f.Alike same g) (p i : NodeId) : (f.adopt p i).Alike same (g.adopt p i) :=
  (h.detach i).modify_plain _ fun _ _ _ => ⟨rfl, rfl, rfl, rfl⟩

/-- By the nodes: all of them are adopted. -/
theorem append (h : f.Alike same g) (p : NodeId) (ns : List NodeId) :
    (f.append p ns).Alike same (g.append p ns) := by
  unfold Forest.append
  induction ns generalizing f g with
  | nil => exact h
  | cons i ns ih =>
    exact ih ((h.adopt p i).modify_plain _ fun _ _ _ => ⟨rfl, rfl, rfl, rfl⟩)

/-- By the nodes: each is detached first, and put in before the next. -/
theorem insert (h : f.Alike same g) (p : NodeId) (position : Int) (ns : List NodeId) :
    (f.insert p position ns).Alike same (g.insert p position ns) := by
  have hadopt : ∀ {f g : Forest}, f.Alike same g →
      (ns.foldl (fun f i => f.adopt p i) f).Alike same (ns.foldl (fun f i => f.adopt p i) g) := by
    induction ns with
    | nil => exact fun h => h
    | cons i ns ih => exact fun h => ih (h.adopt p i)
  unfold Forest.insert
  rw [h.children]
  exact (hadopt h).modify_plain _ fun _ _ _ => ⟨rfl, rfl, rfl, rfl⟩

/-- A node without a parent stays on both sides. -/
theorem replaceWith (h : f.Alike same g) (i : NodeId) (ns : List NodeId) :
    (f.replaceWith i ns).Alike same (g.replaceWith i ns) := by
  unfold Forest.replaceWith
  rw [h.parent?]
  split
  · exact h
  · rw [h.index?]
    exact (h.detach i).insert _ _ ns

/-- Copies are put in the same places and are alike. -/
theorem copyWithin (depth : Nat) (h : f.Alike same g) (i : NodeId) :
    (g.copyWithin depth i).1 = (f.copyWithin depth i).1 ∧
      (f.copyWithin depth i).2.Alike same (g.copyWithin depth i).2 := by
  induction depth generalizing f g i with
  | zero => exact ⟨h.size, h.alloc (h.node i)⟩
  | succ depth ih =>
    -- The copies of the children so far are the same, in forests that are alike.
    have hkids : ∀ (p : NodeId) (kids : List NodeId) (a b : List NodeId × Forest),
        b.1 = a.1 → a.2.Alike same b.2 →
        (kids.foldl (copyUnder depth p) b).1 = (kids.foldl (copyUnder depth p) a).1 ∧
          (kids.foldl (copyUnder depth p) a).2.Alike same (kids.foldl (copyUnder depth p) b).2 := by
      intro p kids
      induction kids with
      | nil => exact fun a b hids hab => ⟨hids, hab⟩
      | cons c kids ihkids =>
        intro a b hids hab
        obtain ⟨hplace, hcopy⟩ := ih hab c
        refine ihkids _ _ ?_ ?_
        · rw [copyUnder, copyUnder, hids, hplace]
        · rw [copyUnder, copyUnder, hplace]
          exact hcopy.modify_plain _ fun _ _ _ => ⟨rfl, rfl, rfl, rfl⟩
    obtain ⟨hids, hforest⟩ := hkids f.size (f.children i) ([], (f.alloc (f.get i)).2)
      ([], (g.alloc (g.get i)).2) rfl (h.alloc (h.node i))
    rw [copyWithin_succ, copyWithin_succ, h.size, h.children]
    refine ⟨rfl, ?_⟩
    dsimp only
    rw [hids]
    exact hforest.modify_plain _ fun _ _ _ => ⟨rfl, rfl, rfl, rfl⟩

/-- A copy is given the same place, and is alike. -/
theorem deepCopy (h : f.Alike same g) (i : NodeId) :
    (g.deepCopy i).1 = (f.deepCopy i).1 ∧ (f.deepCopy i).2.Alike same (g.deepCopy i).2 := by
  unfold Forest.deepCopy
  rw [h.size]
  exact copyWithin _ h i

end Alike

end Forest

end MarkupLint
