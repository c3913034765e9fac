import MarkupLint.Proofs.Accounting
import MarkupLint.Proofs.Dimensions
import MarkupLint.Proofs.Titles

/-! # The shape of tables

    A table of values or of a list comes out rectangular.  The cells of a
    row are new nodes, and none of them is in two rows, so a row has as many
    of them as were made for it. -/

namespace MarkupLint

open Discipline

/-! ## Hanging up rows -/

namespace Forest

variable {f : Forest} {p q : NodeId} {ns : List NodeId}

/-- Nodes that stood elsewhere are put after the children of a node, and
    taken from nobody who did not have them. -/
theorem children_append_of_notMem (hp : p < f.size) (hnodup : ns.Nodup)
    (hnew : ∀ c ∈ ns, c ∉ f.children q) :
    (f.append p ns).children q = f.children q ++ if q = p then ns else [] := by
  induction ns generalizing f with
  | nil => simp [append]
  | cons c ns ih =>
    obtain ⟨hc, hnew⟩ := List.forall_mem_cons.mp hnew
    obtain ⟨hcns, hnodup⟩ := List.nodup_cons.mp hnodup
    have hadopt : (f.adopt p c).children q = f.children q := by
      rw [children_adopt, children_detach, List.erase_of_not_mem hc, ite_self]
    have hsize : (f.adopt p c).size = f.size := size_adopt f p c
    have hone : (f.hang p c).children q = f.children q ++ if q = p then [c] else [] := by
      by_cases hq : q = p
      · subst hq
        rw [if_pos rfl, ← hadopt, children, hang, get_modify_self (by rwa [hsize])]
        rfl
      · rw [if_neg hq, List.append_nil, ← hadopt, children, hang, get_modify_of_ne _ hq]
        rfl
    have hrest : ((f.hang p c).append p ns).children q
        = (f.hang p c).children q ++ if q = p then ns else [] := by
      refine ih (by rwa [size_hang]) hnodup fun x hx hmem => ?_
      rw [hone] at hmem
      rcases List.mem_append.mp hmem with hmem | hmem
      · exact hnew x hx hmem
      · split at hmem
        · exact hcns (List.mem_singleton.mp hmem ▸ hx)
        · cases hmem
    rw [append, List.foldl_cons]
    refine hrest.trans ?_
    rw [hone, List.append_assoc]
    split <;> simp

/-- The nodes that are there keep their kinds. -/
structure KeepsKinds (f g : Forest) : Prop where
  size : f.size ≤ g.size
  kind : ∀ i < f.size, (g.get i).kind = (f.get i).kind

namespace KeepsKinds

variable {g h : Forest}

theorem refl (f : Forest) : f.KeepsKinds f := ⟨Nat.le_refl _, fun _ _ => rfl⟩

theorem trans (hfg : f.KeepsKinds g) (hgh : g.KeepsKinds h) : f.KeepsKinds h :=
  ⟨Nat.le_trans hfg.size hgh.size, fun i hi =>
    (hgh.kind i (Nat.lt_of_lt_of_le hi hfg.size)).trans (hfg.kind i hi)⟩

theorem of_grows (h : f.Grows f.size g) : f.KeepsKinds g := ⟨h.size, h.kind⟩

end KeepsKinds

/-- A node whose children are there, and are none of some cells. -/
structure Clear (f : Forest) (cells : List NodeId) (i : NodeId) : Prop where
  inside : i < f.size
  below : ∀ c ∈ f.children i, c < f.size
  apart : ∀ c ∈ cells, c ∉ f.children i

end Forest

namespace Call

/-- The node of a row, which is marked if it is one of the headers. -/
def rowNode (x : Dimensions) (k : Nat) : Node :=
  let blank : Node := { kind := .row }
  if (k : Int) < x.headerRows then blank.setAttr "header" "true" else blank

theorem kind_rowNode (x : Dimensions) (k : Nat) : (rowNode x k).kind = .row := by
  unfold rowNode
  split <;> rfl

theorem attr?_rowNode (x : Dimensions) (k : Nat) :
    (rowNode x k).attr? "header" = if (k : Int) < x.headerRows then some "true" else none := by
  unfold rowNode
  split <;> rfl

/-- Puts rows of cells, each with its number, into a table. -/
def addRows (table : NodeId) (x : Dimensions) (rows : List (List NodeId × Nat)) : Build Unit :=
  rows.forM fun (cells, k) => do
    let row ← Build.element (rowNode x k) cells
    Build.append table [row]

/-- The node is a row over some cells. -/
structure IsRow (g : Forest) (x : Dimensions) (row : NodeId) (cells : List NodeId × Nat) : Prop where
  children : g.children row = cells.1
  bare : (g.get row).bare = (rowNode x cells.2).bare

namespace IsRow

variable {g : Forest} {x : Dimensions} {row : NodeId} {cells : List NodeId × Nat}

theorem kind (h : IsRow g x row cells) : (g.get row).kind = .row := by
  have hkind := congrArg Node.kind h.bare
  exact hkind.trans (kind_rowNode _ _)

/-- It is marked if it is one of the headers. -/
theorem header (h : IsRow g x row cells) : (g.get row).attr? "header" =
    if (cells.2 : Int) < x.headerRows then some "true" else none := by
  have hattr := congrArg (fun n : Node => n.attr? "header") h.bare
  exact hattr.trans (attr?_rowNode _ _)

end IsRow

variable {table : NodeId} {x : Dimensions} {d : Document}

/-- One row is put into a table: a new node over its cells, which leaves the
    children of others to them. -/
theorem addRow_run {cells : List NodeId} (k : Nat) (htable : table < d.forest.size)
    (hnodup : cells.Nodup) (hin : ∀ c ∈ cells, c < d.forest.size) :
    ∃ g, addRows table x [(cells, k)] d = .ok ⟨⟩ { d with forest := g } ∧
      g.size = d.forest.size + 1 ∧ IsRow g x d.forest.size (cells, k) ∧
      (∀ i < d.forest.size, (g.get i).bare = (d.forest.get i).bare) ∧
      ∀ i, d.forest.Clear cells i →
        g.children i = d.forest.children i ++ if i = table then [d.forest.size] else [] := by
  let r := d.forest.size
  let f := (d.forest.alloc (rowNode x k)).2
  let g := f.append r cells
  have hget : ∀ i < r, f.get i = d.forest.get i := fun i hi => by
    rw [Forest.get_alloc, if_neg (Nat.ne_of_lt hi)]
  have hrow : f.children r = [] := by
    rw [Forest.children, Forest.get_alloc, if_pos rfl]
  have hfsize : f.size = r + 1 := Forest.size_alloc _ _
  have hgsize : g.size = r + 1 := (Forest.size_append _ _ _).trans hfsize
  have hg : ∀ i, (∀ c ∈ cells, c ∉ f.children i) →
      g.children i = f.children i ++ if i = r then cells else [] := fun i hi =>
    Forest.children_append_of_notMem (hfsize ▸ Nat.lt_succ_self r) hnodup hi
  have hend : ∀ i, r ∉ g.children i →
      (g.append table [r]).children i = g.children i ++ if i = table then [r] else [] := fun i hi =>
    Forest.children_append_of_notMem (hgsize ▸ Nat.lt_succ_of_lt htable) (List.nodup_singleton r)
      (List.forall_mem_singleton.mpr hi)
  refine ⟨g.append table [r], rfl, ?_, ⟨?_, ?_⟩, fun i hi => ?_, fun i hi => ?_⟩
  · rw [Forest.size_append, hgsize]
  · have hcells : g.children r = cells := by
      rw [hg r (by simp [hrow]), hrow, if_pos rfl, List.nil_append]
    have hself : r ∉ cells := fun hmem => Nat.lt_irrefl r (hin r hmem)
    rw [hend r (by rwa [hcells]), hcells, if_neg (Nat.ne_of_gt htable), List.append_nil]
  · rw [Forest.bare_append, Forest.bare_append, Forest.get_alloc, if_pos rfl]
    rfl
  · rw [Forest.bare_append, Forest.bare_append, hget i hi]
  · have hold : f.children i = d.forest.children i := by
      rw [Forest.children, hget i hi.inside]
      rfl
    have hkept : g.children i = d.forest.children i := by
      rw [hg i (by rw [hold]; exact hi.apart), hold, if_neg (Nat.ne_of_lt hi.inside),
        List.append_nil]
    rw [hend i, hkept]
    rw [hkept]
    exact fun hmem => Nat.lt_irrefl r (hi.below r hmem)

theorem addRows_cons (row : List NodeId × Nat) (rows : List (List NodeId × Nat)) :
    addRows table x (row :: rows) = (do addRows table x [row]; addRows table x rows) := by
  simp only [addRows, List.forM_eq_forM, List.forM_cons, List.forM_nil, bind_assoc, pure_bind]

/-- Rows were put into a table, and no more was changed. -/
structure Added (f g : Forest) (table : NodeId) (x : Dimensions) (ids : List NodeId)
    (rows : List (List NodeId × Nat)) : Prop where
  size : f.size ≤ g.size
  made : List.Forall₂ (IsRow g x) ids rows
  bare : ∀ i < f.size, (g.get i).bare = (f.get i).bare
  children : ∀ i, f.Clear (rows.flatMap Prod.fst) i →
    g.children i = f.children i ++ if i = table then ids else []

/-- Rows of cells are put into a table one after the other: by induction on
    them, as none takes a cell from the ones before. -/
theorem addRows_run {rows : List (List NodeId × Nat)}
    (htable : d.forest.Clear (rows.flatMap Prod.fst) table)
    (hnodup : (rows.flatMap Prod.fst).Nodup) (hin : ∀ c ∈ rows.flatMap Prod.fst, c < d.forest.size) :
    ∃ g ids, addRows table x rows d = .ok ⟨⟩ { d with forest := g } ∧
      Added d.forest g table x ids rows := by
  induction rows generalizing d with
  | nil => exact ⟨d.forest, [], rfl, Nat.le_refl _, .nil, fun _ _ => rfl, fun i _ => by simp⟩
  | cons row rows ih =>
    obtain ⟨cells, k⟩ := row
    let r := d.forest.size
    rw [List.flatMap_cons] at htable hnodup hin
    obtain ⟨hcells, hrest, hdisjoint⟩ := List.nodup_append.mp hnodup
    obtain ⟨hcellsin, hrestin⟩ := List.forall_mem_append.mp hin
    obtain ⟨f, hrun, hsize, hrow, hbare, hchildren⟩ :=
      addRow_run (x := x) k htable.inside hcells hcellsin
    have hold : ∀ c < r, c < f.size := fun c hc =>
      Nat.lt_of_lt_of_eq (Nat.lt_succ_of_lt hc) hsize.symm
    have hr : r < f.size := Nat.lt_of_lt_of_eq (Nat.lt_succ_self r) hsize.symm
    have hne : r ≠ table := Nat.ne_of_gt htable.inside
    have hkids : ∀ i, d.forest.Clear (cells ++ rows.flatMap Prod.fst) i →
        f.children i = d.forest.children i ++ if i = table then [r] else [] := fun i hi =>
      hchildren i ⟨hi.inside, hi.below, (List.forall_mem_append.mp hi.apart).1⟩
    -- What was clear of the other rows is so still, and the new row is.
    have hstill : ∀ i, d.forest.Clear (cells ++ rows.flatMap Prod.fst) i →
        f.Clear (rows.flatMap Prod.fst) i := by
      intro i hi
      refine ⟨hold i hi.inside, fun c hc => ?_, fun c hc hmem => ?_⟩
      · rw [hkids i hi] at hc
        rcases List.mem_append.mp hc with hc | hc
        · exact hold c (hi.below c hc)
        · split at hc
          · exact List.mem_singleton.mp hc ▸ hr
          · cases hc
      · rw [hkids i hi] at hmem
        rcases List.mem_append.mp hmem with hmem | hmem
        · exact (List.forall_mem_append.mp hi.apart).2 c hc hmem
        · split at hmem
          · exact Nat.ne_of_lt (hrestin c hc) (List.mem_singleton.mp hmem)
          · cases hmem
    have hclear : f.Clear (rows.flatMap Prod.fst) r := by
      refine ⟨hr, fun c hc => ?_, fun c hc hmem => ?_⟩
      · rw [hrow.children] at hc
        exact hold c (hcellsin c hc)
      · rw [hrow.children] at hmem
        exact hdisjoint c hmem c hc rfl
    obtain ⟨g, ids, hruns, hadded⟩ := ih (d := { d with forest := f }) (hstill table htable) hrest
      fun c hc => hold c (hrestin c hc)
    refine ⟨g, r :: ids, ?_, Nat.le_trans (Nat.le_of_lt hr) hadded.size, .cons ⟨?_, ?_⟩ hadded.made,
      fun i hi => (hadded.bare i (hold i hi)).trans (hbare i hi), fun i hi => ?_⟩
    · rw [addRows_cons, Contract.bind_run, hrun]
      exact hruns
    · rw [hadded.children r hclear, if_neg hne, List.append_nil]
      exact hrow.children
    · exact (hadded.bare r hr).trans hrow.bare
    · rw [hadded.children i (hstill i hi)]
      show f.children i ++ _ = _
      rw [hkids i hi, List.append_assoc]
      split <;> rfl

end Call

/-! ## Tables -/

/-- The rows of a table. -/
def Forest.rows (f : Forest) (table : NodeId) : List NodeId :=
  (f.children table).filter fun i => (f.get i).kind = .row

/-- Names are noted aside: the nodes that are there stay as they are. -/
theorem Build.noteTarget_extends {d : Document} {i : NodeId} {explicit : Bool} {complaints : List NodeId}
    {e : Document} (h : Build.noteTarget i explicit d = .ok complaints e) : d.forest.Extends e.forest := by
  have hcontract : Contract (aside ⟨{}, 0⟩ ⟨{}, 0⟩ .any d.forest.size) (AllNew d.forest.size)
      (Build.noteTarget i explicit) (Build.noteTarget i explicit) := Build.aside_noteTarget i explicit
  obtain ⟨hgrown, -, -⟩ := hcontract d d (.refl _)
    ⟨Nat.le_refl _, Forest.apart_of_size_le (Nat.le_refl _)⟩
  rw [stateAfter_of_ok h] at hgrown
  exact ⟨hgrown.1.size, hgrown.1.old⟩

namespace Call

variable {table : NodeId} {x : Dimensions} {d : Document}

/-- A directive's node without children is a new one, and the nodes that are
    there stay as they are. -/
theorem element_ok {c : Call} {n : Node} {i : NodeId} {complaints : List NodeId} {e : Document}
    (h : c.element n [] d = .ok (i, complaints) e) :
    i = d.forest.size ∧ i < e.forest.size ∧ (e.node i).kind = n.kind ∧ e.forest.children i = [] ∧
      d.forest.Extends e.forest := by
  -- Names are noted, if at all, when the node is made.
  obtain ⟨n', hkind, rfl, hextends⟩ : ∃ n' : Node, n'.kind = n.kind ∧ i = d.forest.size ∧
      (d.forest.alloc n').2.Extends e.forest := by
    rw [element] at h
    generalize hn' : (if c.option "class" = "" then _ else _ : Node) = n' at h
    have hkind : n'.kind = n.kind := by
      rw [← hn']
      split <;> rfl
    cases hname : c.option? "name" with
    | none =>
      rw [hname] at h
      cases h
      exact ⟨n', hkind, rfl, Nat.le_refl _, fun _ _ => rfl⟩
    | some name =>
      rw [hname] at h
      obtain ⟨_, _, hmade, h⟩ := bind_eq_ok.mp h
      cases hmade
      obtain ⟨_, _, hnoted, h⟩ := bind_eq_ok.mp h
      cases h
      exact ⟨{ n' with names := [normalizeName name] }, hkind, rfl, Build.noteTarget_extends hnoted⟩
  have hin : d.forest.size < (d.forest.alloc n').2.size :=
    Nat.lt_of_lt_of_eq (Nat.lt_succ_self _) (Forest.size_alloc _ _).symm
  have hnew : e.node d.forest.size = { n' with children := [], parent := none } := by
    rw [Document.node, hextends.old _ hin, Forest.get_alloc, if_pos rfl]
  refine ⟨rfl, Nat.lt_of_lt_of_le hin hextends.size, ?_, ?_,
    Nat.le_trans (Nat.le_of_lt hin) hextends.size, fun j hj => ?_⟩
  · rw [hnew]
    exact hkind
  · show (e.node d.forest.size).children = []
    rw [hnew]
  · rw [hextends.old j (Nat.lt_trans hj hin), Forest.get_alloc, if_neg (Nat.ne_of_lt hj)]

/-- A table has its title and then a row over each list of cells. -/
structure IsTable (g : Forest) (x : Dimensions) (title : List NodeId) (rows : List (List NodeId))
    (table : NodeId) : Prop where
  kind : (g.get table).kind = .table
  children : ∃ ids, g.children table = title ++ ids ∧ List.Forall₂ (IsRow g x) ids rows.zipIdx

/-- The rows of a table are those it was made of, in their order. -/
theorem IsTable.rows {g : Forest} {title : List NodeId} {rows : List (List NodeId)}
    (h : IsTable g x title rows table) (htitle : ∀ i ∈ title, (g.get i).kind ≠ .row) :
    List.Forall₂ (IsRow g x) (g.rows table) rows.zipIdx := by
  obtain ⟨ids, hkids, hrows⟩ := h.children
  have hids : g.rows table = ids := by
    rw [Forest.rows, hkids, List.filter_append, List.filter_eq_nil_iff.mpr (by simpa using htitle),
      List.nil_append, List.filter_eq_self]
    intro i hi
    obtain ⟨k, hk, rfl⟩ := List.mem_iff_getElem.mp hi
    exact decide_eq_true (hrows.get hk (hrows.length_eq ▸ hk)).kind
  rwa [hids]

/-- A table is made of a title and of cells that are there. -/
theorem buildTable_ok {c : Call} {title : List NodeId} {rows : List (List NodeId)} {e : Document}
    (hnodup : (title ++ rows.flatten).Nodup) (hin : ∀ i ∈ title ++ rows.flatten, i < d.forest.size)
    (h : c.buildTable title x rows d = .ok table e) :
    IsTable e.forest x title rows table ∧ d.forest.KeepsKinds e.forest := by
  obtain ⟨⟨_, complaints⟩, d₁, hmade, h⟩ := bind_eq_ok.mp h
  obtain ⟨_, d₂, happended, h⟩ := bind_eq_ok.mp h
  cases happended
  obtain ⟨_, d₃, hadded, h⟩ := bind_eq_ok.mp h
  cases h
  obtain ⟨rfl, htable, hkind, hbare, hold⟩ := element_ok hmade
  obtain ⟨htitle, hrows, hdisjoint⟩ := List.nodup_append.mp hnodup
  obtain ⟨htitlein, hrowsin⟩ := List.forall_mem_append.mp hin
  have hcells : rows.zipIdx.flatMap Prod.fst = rows.flatten := by
    rw [List.flatMap_def, List.zipIdx_map_fst]
  -- The title is put into the table, and the rows after it.
  let f := d₁.forest.append d.forest.size title
  have hsize : f.size = d₁.forest.size := Forest.size_append _ _ _
  have hlt : ∀ i < d.forest.size, i < f.size := fun i hi =>
    Nat.lt_of_lt_of_eq (Nat.lt_of_lt_of_le hi hold.size) hsize.symm
  have hkids : f.children d.forest.size = title := by
    refine (Forest.children_append_of_notMem htable htitle fun c _ => ?_).trans ?_
    · rw [hbare]
      exact List.not_mem_nil
    · rw [hbare, if_pos rfl, List.nil_append]
  have hclear : f.Clear rows.flatten d.forest.size := by
    refine ⟨hsize ▸ htable, fun c hc => ?_, fun c hc hmem => ?_⟩
    · rw [hkids] at hc
      exact hlt c (htitlein c hc)
    · rw [hkids] at hmem
      exact hdisjoint c hmem c hc rfl
  rw [← hcells] at hclear hrows hrowsin
  obtain ⟨g, ids, hrun, hg⟩ := addRows_run (d := { d₁ with forest := f }) (x := x) hclear hrows
    fun c hc => hlt c (hrowsin c hc)
  change addRows d.forest.size x rows.zipIdx { d₁ with forest := f } = _ at hadded
  rw [hrun] at hadded
  cases hadded
  have hkinds : ∀ i < d₁.forest.size, (g.get i).kind = (d₁.node i).kind := fun i hi =>
    (Forest.kind_of_bare (hg.bare i (hsize ▸ hi))).trans
      (Forest.kind_of_bare (Forest.bare_append _ _ _ _))
  refine ⟨⟨(hkinds _ htable).trans hkind, ids, ?_, hg.made⟩,
    Nat.le_trans hold.size (hsize ▸ hg.size), fun i hi => ?_⟩
  · rw [hg.children _ hclear, if_pos rfl]
    exact congrArg (· ++ ids) hkids
  · rw [hkinds i (Nat.lt_of_lt_of_le hi hold.size), Document.node, hold.old i hi]

end Call

/-! ## Cells -/

namespace Forest

/-- A node is made over some others, and all nodes keep their kinds. -/
theorem kind_element (f : Forest) (n : Node) (nodes : List NodeId) :
    let g := (f.alloc n).2.append f.size nodes
    f.size < g.size ∧ (g.get f.size).kind = n.kind ∧ f.KeepsKinds g := by
  intro g
  have hsize : f.size < g.size :=
    Nat.lt_of_lt_of_eq (Nat.lt_succ_self _) ((size_append _ _ _).trans (size_alloc f n)).symm
  refine ⟨hsize, ?_, Nat.le_of_lt hsize, fun i hi => ?_⟩
  · rw [kind_of_bare (bare_append _ _ _ _), get_alloc, if_pos rfl]
  · rw [kind_of_bare (bare_append _ _ _ _), get_alloc, if_neg (Nat.ne_of_lt hi)]

/-- Cells were made: new nodes, each one once. -/
structure Entered (f g : Forest) (cells : List NodeId) : Prop where
  kept : f.KeepsKinds g
  nodup : cells.Nodup
  new : ∀ i ∈ cells, f.size ≤ i
  inside : ∀ i ∈ cells, i < g.size
  kind : ∀ i ∈ cells, (g.get i).kind = .entry

namespace Entered

variable {f g h : Forest} {cells more : List NodeId}

theorem refl (f : Forest) : f.Entered f [] :=
  ⟨.refl f, List.nodup_nil, List.forall_mem_nil _, List.forall_mem_nil _, List.forall_mem_nil _⟩

/-- Cells that are made later are others. -/
theorem trans (hfg : f.Entered g cells) (hgh : g.Entered h more) : f.Entered h (cells ++ more) where
  kept := hfg.kept.trans hgh.kept
  nodup := List.nodup_append.mpr ⟨hfg.nodup, hgh.nodup, fun i hi j hj heq =>
    Nat.not_lt_of_le (hgh.new j hj) (heq ▸ hfg.inside i hi)⟩
  new := List.forall_mem_append.mpr
    ⟨hfg.new, fun i hi => Nat.le_trans hfg.kept.size (hgh.new i hi)⟩
  inside := List.forall_mem_append.mpr
    ⟨fun i hi => Nat.lt_of_lt_of_le (hfg.inside i hi) hgh.kept.size, hgh.inside⟩
  kind := List.forall_mem_append.mpr
    ⟨fun i hi => (hgh.kept.kind i (hfg.inside i hi)).trans (hfg.kind i hi), hgh.kind⟩

/-- Whatever is done before and after. -/
theorem between {f' g' : Forest} (hf : f'.KeepsKinds f) (hfg : f.Entered g cells)
    (hg : g.KeepsKinds g') : f'.Entered g' cells where
  kept := (hf.trans hfg.kept).trans hg
  nodup := hfg.nodup
  new i hi := Nat.le_trans hf.size (hfg.new i hi)
  inside i hi := Nat.lt_of_lt_of_le (hfg.inside i hi) hg.size
  kind i hi := (hg.kind i (hfg.inside i hi)).trans (hfg.kind i hi)

/-- A cell is made over some nodes. -/
theorem element (f : Forest) {n : Node} (hn : n.kind = .entry) (nodes : List NodeId) :
    f.Entered ((f.alloc n).2.append f.size nodes) [f.size] := by
  obtain ⟨hsize, hkind, hkept⟩ := kind_element f n nodes
  exact ⟨hkept, List.nodup_singleton _, List.forall_mem_singleton.mpr (Nat.le_refl _),
    List.forall_mem_singleton.mpr hsize, List.forall_mem_singleton.mpr (hkind.trans hn)⟩

end Entered

end Forest

namespace Parse

variable {α β : Type}

/-- The nodes that are there keep their kinds, whatever a step does. -/
def KeepsKinds (x : Parse α) : Prop :=
  ∀ s t a, x s = .ok a t → s.doc.forest.KeepsKinds t.doc.forest

/-- A step makes the cells of what it gives, which satisfies `P`. -/
def Enters (x : Parse α) (cells : α → List NodeId) (P : α → Prop) : Prop :=
  ∀ s t a, x s = .ok a t → s.doc.forest.Entered t.doc.forest (cells a) ∧ P a

/-- So do the steps for a list, one after the other: by induction on the
    list. -/
theorem Enters.mapM {f : β → Parse α} {cells : α → List NodeId} {P : β → α → Prop} {xs : List β}
    (h : ∀ x ∈ xs, Enters (f x) cells (P x)) :
    Enters (xs.mapM f) (·.flatMap cells) (List.Forall₂ P xs) := by
  induction xs with
  | nil =>
    intro s t as hrun
    cases hrun
    exact ⟨.refl _, .nil⟩
  | cons x xs ih =>
    obtain ⟨hx, hxs⟩ := List.forall_mem_cons.mp h
    intro s t as hrun
    rw [List.mapM_cons] at hrun
    obtain ⟨a, u, ha, hrun⟩ := bind_eq_ok.mp hrun
    obtain ⟨as, _, has, hrun⟩ := bind_eq_ok.mp hrun
    cases hrun
    obtain ⟨hsu, hP⟩ := hx s u a ha
    obtain ⟨hut, hPs⟩ := ih hxs u t as has
    exact ⟨hsu.trans hut, .cons hP hPs⟩

end Parse

namespace Call

variable {c : Call} {read : Site → Body → Parse Unit}

/-- A cell is one, whatever is read into it. -/
theorem enters_readCell (hread : ∀ site b, (read site b).KeepsKinds) (text : List Char) :
    (c.readCell read text).Enters ([·]) fun _ => True := by
  intro s t i hrun
  obtain ⟨_, _, hmade, hrun⟩ := bind_eq_ok.mp hrun
  cases hmade
  have hentered := Forest.Entered.element s.doc.forest (n := { kind := .entry }) rfl []
  refine ⟨?_, trivial⟩
  dsimp only at hrun
  split at hrun
  · obtain ⟨_, _, hcell, hrun⟩ := bind_eq_ok.mp hrun
    cases hrun
    exact .between (.refl _) hentered (hread _ _ _ _ _ hcell)
  · cases hrun
    exact hentered

/-- A row has as many cells as there are columns, if no text is left over. -/
theorem enters_readRow (hread : ∀ site b, (read site b).KeepsKinds) {columns : Nat}
    {row : List (List Char)} (hrow : row.length ≤ columns) :
    (c.readRow read columns row).Enters id (·.length = columns) := by
  intro s t cells hrun
  obtain ⟨hentered, hcells⟩ := Parse.Enters.mapM (fun text _ => enters_readCell hread text) s t cells hrun
  refine ⟨by simpa using hentered, ?_⟩
  show cells.length = columns
  rw [← hcells.length_eq, List.length_append, List.length_replicate]
  exact Nat.add_sub_cancel' hrow

/-- A row over lists of nodes has a cell over each of them. -/
theorem enters_listed (row : List (List NodeId)) :
    Parse.Enters (row.mapM fun nodes => Parse.build (Build.element { kind := .entry } nodes)) id
      (·.length = row.length) := by
  intro s t cells hrun
  have hcell : ∀ nodes ∈ row, Parse.Enters (Parse.build (Build.element { kind := .entry } nodes))
      ([·]) fun _ => True := by
    intro nodes _ s t i hrun
    cases hrun
    exact ⟨.element _ rfl nodes, trivial⟩
  obtain ⟨hentered, hcells⟩ := Parse.Enters.mapM hcell s t cells hrun
  exact ⟨by simpa using hentered, hcells.length_eq.symm⟩

end Call

end MarkupLint
