import Mathlib.Data.List.Fold
import Mathlib.Data.List.MinMax
import Mathlib.Order.Nat
import MarkupLint.Proofs.Tables

/-! # Tables from data

    A table of comma-separated values and a table written as a list come out
    as their options say (`Call.Tabulates`): a row for each row of the data,
    all of them as wide as the widest one. -/

namespace MarkupLint

open Discipline

/-! ## Steps of directives -/

section Steps

variable {α β : Type} {s t : ParseState} {a : α}

/-- A step on the document is run on it. -/
theorem Parse.build_eq_ok {x : Build α} (h : build x s = .ok a t) : x s.doc = .ok a t.doc := by
  unfold build at h
  split at h
  · rename_i hx
    cases h
    exact hx
  · cases h

/-- A step of parsing is run as it is. -/
theorem Run.lift_eq_ok {x : Parse α} (h : (liftM x : Run α).run s = .ok (.ok a) t) :
    x s = .ok a t := by
  obtain ⟨_, _, hx, h⟩ := MarkupLint.bind_eq_ok.mp h
  cases h
  exact hx

/-- Steps of parsing are run one after the other. -/
theorem Run.mapM_lift (f : β → Parse α) (xs : List β) :
    (xs.mapM fun x => (liftM (f x) : Run α)) = liftM (xs.mapM f) := by
  induction xs with
  | nil => simp
  | cons x xs ih => simp [ih, liftM_bind]

/-- A step goes on with a value, unless there is none. -/
theorem Call.valueOr_bind {x : Option β} {e : Complaint} {k : β → Run α}
    (h : (valueOr x e >>= k).run s = .ok (.ok a) t) :
    ∃ b, x = some b ∧ (k b).run s = .ok (.ok a) t := by
  cases x with
  | none => cases h
  | some b => exact ⟨b, rfl, h⟩

/-- What a run gave, and the state that it led to. -/
theorem Run.eq_ok_of_outcome {r : EStateM.Result Stop ParseState (Except Complaint α)}
    (h : (outcome r).1.toOption.bind Except.toOption = some a) : r = .ok (.ok a) (outcome r).2 := by
  cases r with
  | error e t => cases h
  | ok result t =>
    cases result with
    | error e => cases h
    | ok b =>
      cases h
      rfl

end Steps

/-! ## What a table has -/

/-- The nodes of a title are there, and none of them is a row. -/
structure Forest.IsTitle (f : Forest) (title : List NodeId) : Prop where
  nodup : title.Nodup
  inside : ∀ i ∈ title, i < f.size
  kind : ∀ i ∈ title, (f.get i).kind ≠ .row

theorem Forest.IsTitle.kept {f g : Forest} {title : List NodeId} (h : f.IsTitle title)
    (hfg : f.KeepsKinds g) : g.IsTitle title where
  nodup := h.nodup
  inside i hi := Nat.lt_of_lt_of_le (h.inside i hi) hfg.size
  kind i hi := by
    rw [hfg.kind i (h.inside i hi)]
    exact h.kind i hi

namespace Call

/-- A table stands for rows of data of some widths as the options of a call
    say.  It has a row for each, and all of them have as many cells as the
    widest; its first rows are marked as headers. -/
structure Tabulates (c : Call) (header : Bool) (widths : List Nat) (f : Forest) (table : NodeId) :
    Prop where
  kind : (f.get table).kind = .table
  length : (f.rows table).length = widths.length
  rectangular : ∀ row ∈ f.rows table, (f.children row).length = widths.foldl max 0
  entries : ∀ row ∈ f.rows table, ∀ i ∈ f.children row, (f.get i).kind = .entry
  marked : ∀ (k : Nat) row, (f.rows table)[k]? = some row → (f.get row).attr? "header" =
    if (k : Int) < c.headersCounted header then some "true" else none

variable {c : Call} {header : Bool} {widths : List Nat} {title : List NodeId}
  {rows : List (List NodeId)} {table : NodeId} {x : Dimensions}

/-- A table that is made of a title and of new cells, as many in each row as
    the widest row of data has, is as the options say. -/
theorem tabulates_of_buildTable {s u t : Document} (hcounts : c.Counts)
    (htitle : s.forest.IsTitle title) (hcells : s.forest.Entered u.forest rows.flatten)
    (hrows : rows.length = widths.length)
    (hwidths : ∀ cells ∈ rows, cells.length = widths.foldl max 0)
    (hbuild : c.buildTable title (c.dimensions header) rows u = .ok table t) :
    c.Tabulates header widths t.forest table := by
  have hnodup : (title ++ rows.flatten).Nodup :=
    List.nodup_append.mpr ⟨htitle.nodup, hcells.nodup, fun i hi j hj heq =>
      Nat.not_lt_of_le (hcells.new j hj) (heq ▸ htitle.inside i hi)⟩
  have hin : ∀ i ∈ title ++ rows.flatten, i < u.forest.size :=
    List.forall_mem_append.mpr ⟨(htitle.kept hcells.kept).inside, hcells.inside⟩
  obtain ⟨htable, hkept⟩ := buildTable_ok hnodup hin hbuild
  have hmade := htable.rows (htitle.kept (hcells.kept.trans hkept)).kind
  -- The rows that were made carry their numbers, and nothing else tells which are headers.
  have hrow : ∀ (k : Nat) row, (t.forest.rows table)[k]? = some row →
      ∃ cells ∈ rows, IsRow t.forest (c.dimensions header) row (cells, k) := by
    intro k row hk
    obtain ⟨hlt, rfl⟩ := List.getElem?_eq_some_iff.mp hk
    have hlt' : k < rows.zipIdx.length := hmade.length_eq ▸ hlt
    have hget := hmade.get hlt hlt'
    rw [List.get_eq_getElem, List.get_eq_getElem, List.getElem_zipIdx, Nat.zero_add] at hget
    exact ⟨_, List.getElem_mem _, hget⟩
  refine ⟨htable.kind, ?_, fun row hmem => ?_, fun row hmem i hi => ?_, fun k row hk => ?_⟩
  · rw [hmade.length_eq, List.length_zipIdx, hrows]
  · obtain ⟨k, hk⟩ := List.mem_iff_getElem?.mp hmem
    obtain ⟨cells, hcells, hrow⟩ := hrow k row hk
    rw [hrow.children]
    exact hwidths cells hcells
  · obtain ⟨k, hk⟩ := List.mem_iff_getElem?.mp hmem
    obtain ⟨cells, hmem', hrow⟩ := hrow k row hk
    rw [hrow.children] at hi
    have hcell : i ∈ rows.flatten := List.mem_flatten.mpr ⟨cells, hmem', hi⟩
    rw [hkept.kind i (hcells.inside i hcell)]
    exact hcells.kind i hcell
  · obtain ⟨cells, -, hrow⟩ := hrow k row hk
    rw [hrow.header]
    exact if_congr (hcounts.headerRows_dimensions k) rfl rfl

/-! ## Comma-separated values -/

variable {α : Type} {a : α} {s t : ParseState}

/-- The title of a table is a new node. -/
theorem tableTitle_ok {messages : List NodeId} (h : c.tableTitle s = .ok (title, messages) t) :
    t.doc.forest.IsTitle title := by
  unfold tableTitle at h
  cases hargument : c.argument? with
  | none =>
    rw [hargument] at h
    cases h
    exact ⟨List.nodup_nil, List.forall_mem_nil _, List.forall_mem_nil _⟩
  | some text =>
    rw [hargument] at h
    obtain ⟨⟨i, complaints⟩, u, hmade, h⟩ := bind_eq_ok.mp h
    cases h
    obtain ⟨inlined, v, -, hmade⟩ := bind_eq_ok.mp hmade
    obtain ⟨_, _, helement, hmade⟩ := bind_eq_ok.mp hmade
    cases helement
    cases hmade
    obtain ⟨hsize, hkind, -⟩ :=
      Forest.kind_element v.doc.forest { kind := .title, line := c.line } inlined.nodes
    exact ⟨List.nodup_singleton _, List.forall_mem_singleton.mpr hsize,
      List.forall_mem_singleton.mpr (ne_of_eq_of_ne hkind nofun)⟩

/-- A step goes on with data that fits. -/
theorem requireShape_bind {columns : Nat} {k : Unit → Run α}
    (h : (c.requireShape x widths columns >>= k).run s = .ok (.ok a) t) :
    c.dimensionProblem x widths = none ∧ (k ⟨⟩).run s = .ok (.ok a) t := by
  unfold requireShape at h
  cases hproblem : c.dimensionProblem x widths with
  | some text =>
    rw [hproblem] at h
    cases h
  | none =>
    refine ⟨rfl, ?_⟩
    rw [hproblem] at h
    cases hwidth : c.widthProblem columns with
    | some text =>
      rw [hwidth] at h
      cases h
    | none =>
      rw [hwidth] at h
      exact h

/-- The values of the header that an option gives. -/
def headerValues? (c : Call) : Option (List (List (List Char))) :=
  match c.option? "header" with
  | some h => c.values? h.toList
  | none => some []

theorem headerValues_bind {k : List (List (List Char)) → Run α}
    (h : (c.headerValues >>= k).run s = .ok (.ok a) t) :
    ∃ header, c.headerValues? = some header ∧ (k header).run s = .ok (.ok a) t := by
  unfold headerValues at h
  unfold headerValues?
  cases hoption : c.option? "header" with
  | some text =>
    rw [hoption] at h
    exact valueOr_bind h
  | none =>
    rw [hoption] at h
    exact ⟨[], rfl, h⟩

/-- A row of the header has a value. -/
theorem headerValues?_ne_nil {header : List (List (List Char))} (h : c.headerValues? = some header) :
    ∀ row ∈ header, row ≠ [] := by
  unfold headerValues? at h
  split at h
  · exact values?_ne_nil h
  · cases h
    exact List.forall_mem_nil _

/-- No row is wider than the widest. -/
theorem length_le_widest {β : Type} (data : List (List β)) :
    ∀ row ∈ data, row.length ≤ data.foldl (fun n row => max n row.length) 0 := by
  intro row hrow
  rw [← List.foldl_map (f := List.length) (g := max), List.foldl_eq_foldr]
  exact List.le_max_of_le' 0 (List.mem_map_of_mem hrow) (Nat.le_refl _)

/-- The rows of a table are made one after the other, all with as many cells. -/
theorem readRows_ok {read : Site → Body → Parse Unit} {columns : Nat}
    {data : List (List (List Char))} {cells : List (List NodeId)}
    (hread : ∀ site b, (read site b).KeepsKinds) (hdata : ∀ row ∈ data, row.length ≤ columns)
    (h : (data.mapM fun row => (liftM (c.readRow read columns row) : Run _)).run s =
      .ok (.ok cells) t) :
    s.doc.forest.Entered t.doc.forest cells.flatten ∧ cells.length = data.length ∧
      ∀ row ∈ cells, row.length = columns := by
  rw [Run.mapM_lift] at h
  obtain ⟨hentered, hcells⟩ :=
    Parse.Enters.mapM (fun row hrow => enters_readRow hread (hdata row hrow)) _ _ _ (Run.lift_eq_ok h)
  refine ⟨by simpa using hentered, hcells.length_eq.symm, fun row hrow => ?_⟩
  obtain ⟨k, hk, rfl⟩ := List.mem_iff_getElem.mp hrow
  exact hcells.get (hcells.length_eq.symm ▸ hk) hk

/-- **A table of comma-separated values is as its options say.** -/
theorem csvTable_tabulates {read : ReadBody} {nodes : List NodeId}
    (hcounts : c.Counts) (hwithin : ∀ site b, (read.within site b).KeepsKinds)
    (hfile : ∀ site b, (read.file site b).KeepsKinds)
    (hrun : (c.csvTable read).run s = .ok (.ok nodes) t) :
    ∃ table messages text u header values, nodes = table :: messages ∧
      c.valueText.run s = .ok (.ok text) u ∧ c.headerValues? = some header ∧
      c.values? text = some values ∧
      c.Tabulates (c.has "header") ((header ++ values).map (·.length)) t.doc.forest table ∧
      c.HasRoom (c.has "header") ((header ++ values).map (·.length)) := by
  obtain ⟨text, u, htext, hrun⟩ := Run.bind_eq_ok hrun
  obtain ⟨⟨title, messages⟩, v, htitle, hrun⟩ := Run.bind_eq_ok hrun
  obtain ⟨header, hheader, hrun⟩ := headerValues_bind hrun
  obtain ⟨values, hvalues, hrun⟩ := valueOr_bind hrun
  dsimp only at hrun
  split at hrun
  · cases hrun
  · rename_i hsome
    obtain ⟨hfits, hrun⟩ := requireShape_bind hrun
    obtain ⟨top, w, htop, hrun⟩ := Run.bind_eq_ok hrun
    obtain ⟨below, y, hbelow, hrun⟩ := Run.bind_eq_ok hrun
    obtain ⟨table, z, hbuild, hrun⟩ := Run.bind_eq_ok hrun
    cases hrun
    -- A row without values passes where no stubs are asked for, but no such row is read.
    have hvalued : ∀ row ∈ header ++ values, row ≠ [] :=
      List.forall_mem_append.mpr ⟨headerValues?_ne_nil hheader, values?_ne_nil hvalues⟩
    have hroom := hcounts.room hfits (by simpa using hsome)
      (List.forall_mem_map.mpr fun row hrow => List.length_pos_iff.mpr (hvalued row hrow))
    refine ⟨table, messages, text, u, header, values, rfl, htext, hheader, hvalues, ?_, hroom⟩
    -- The rows of the header and those below may be read in different places, but to one width.
    have hwidest := List.forall_mem_append.mp (length_le_widest (header ++ values))
    obtain ⟨htopin, htoplen, htopwide⟩ := readRows_ok hwithin hwidest.1 htop
    obtain ⟨hbelowin, hbelowlen, hbelowwide⟩ := readRows_ok (by split <;> assumption) hwidest.2 hbelow
    refine tabulates_of_buildTable hcounts (tableTitle_ok (Run.lift_eq_ok htitle))
      (List.flatten_append ▸ htopin.trans hbelowin) ?_ ?_
      (Parse.build_eq_ok (Run.lift_eq_ok hbuild))
    · rw [List.length_append, htoplen, hbelowlen, List.length_map, List.length_append]
    · rw [List.foldl_map]
      exact List.forall_mem_append.mpr ⟨htopwide, hbelowwide⟩

end Call

/-! ## Lists -/

section Reading

variable {α : Type} {P : α → Prop} {a : α} {s t : ParseState} {w : World}

/-- A step that grows the document from any place on has grown it by new
    nodes, which have none but new children. -/
theorem Parse.grows_of_contract {x : Parse α}
    (h : Contract (growing w w .any s.doc.forest.size False) P x x) (hrun : x s = .ok a t) :
    s.doc.forest.KeepsKinds t.doc.forest ∧ t.doc.forest.Closed s.doc.forest.size ∧ P a := by
  have hclosed := Forest.closed_of_size_le (Nat.le_refl s.doc.forest.size)
  obtain ⟨hgrown, hends, -⟩ := h s s ⟨s.doc, .refl _, rfl⟩ ⟨Nat.le_refl _, hclosed, trivial⟩
  rw [stateAfter_of_ok hrun] at hgrown
  rw [hrun] at hends
  exact ⟨.of_grows hgrown.forest, hgrown.forest.closed hclosed, hends⟩

namespace Site

/-- What reads the bodies that a text hands on. -/
def reader (count depth : Nat) : ReadBody := ⟨readWithin (read count) depth, read count⟩

/-- The world that a site is in. -/
def world (site : Site) : World := ⟨site.env.files, site.env.clock⟩

theorem grow_reader (n count depth : Nat) (site : Site) (b : Body) :
    Contract (growing site.world site.world .any n False) Anything
      ((reader count depth).within site b) ((reader count depth).within site b) :=
  grow_readWithin (License.free_any.covers site.env)
    (fun site' b' => grow_read (License.free_any.covers site.env) site' count b') depth b rfl nofun

theorem keepsKinds_within (count depth : Nat) (site : Site) (b : Body) :
    ((reader count depth).within site b).KeepsKinds := fun _ _ _ hrun =>
  (Parse.grows_of_contract (grow_reader _ count depth site b) hrun).1

theorem keepsKinds_file (count depth : Nat) (site : Site) (b : Body) :
    ((reader count depth).file site b).KeepsKinds := fun _ _ _ hrun =>
  (Parse.grows_of_contract (w := site.world)
    (grow_read (License.free_any.covers site.env) site count b rfl nofun) hrun).1

end Site

theorem Directive.eq_standard_of_beq {d : Directive} {std : StandardDirective}
    (h : (d == .standard std) = true) : d = .standard std := by
  cases d with
  | standard std' => exact congrArg Directive.standard (beq_iff_eq.mp h)
  | ignored => cases h
  | custom custom => cases h

namespace Call

variable {c : Call} {content title messages : List NodeId} {rows : List (List (List NodeId))}
  {count depth : Nat}

/-- What the content consists of is new, and so is all that is in it. -/
theorem contentNodes_new (hrun : c.contentNodes (Site.reader count depth) s = .ok content t) :
    s.doc.forest.KeepsKinds t.doc.forest ∧ t.doc.forest.Closed s.doc.forest.size ∧
      AllNew s.doc.forest.size content :=
  Parse.grows_of_contract (w := c.site.world)
    (grow_contentNodes c fun parent => Site.grow_reader _ count depth (c.site.within parent) _) hrun

/-- The lists in the content have items. -/
theorem contentNodes_listed (henv : c.site.env.Builtin) (haccounted : s.doc.Accounted)
    (horderly : s.Orderly) {u : ParseState} (htitle : c.tableTitle s = .ok (title, messages) u)
    (hrun : c.contentNodes (Site.reader count depth) u = .ok content t) :
    u.doc.forest.Listed t.doc.forest := by
  let W := Watch.accounting s.doc.reporter.source s.doc.origin
  have htends : W.Tends c.site := Watch.accounting_tends henv
  have hholds : W.Holds s := ⟨rfl, rfl, fun _ => haccounted, fun _ => horderly⟩
  have htitled := meets_tableTitle (s := s) htends hholds
  rw [htitle] at htitled
  cases htitled with
  | ok hsu =>
    have hread : W.ReadsContent (Site.reader count depth) c := fun parent v hroomy =>
      Site.meets_readWithin (fun f site' b' hreached t hroomy =>
        Site.accounts_read (hreached.env ▸ henv) hroomy count)
        (Watch.accounting_tends henv) hroomy
    have hends := meets_contentNodes (s := u) hread hsu.holds
    rw [hrun] at hends
    cases hends with
    | ok hut => exact hut.listed trivial

/-- The rows that are read off new lists have cells, if lists have items. -/
theorem listCells_filled {f : Forest} {n : Nat} (hclosed : f.Closed n)
    (hfilled : ∀ i, n ≤ i → (f.get i).kind.isList = true → f.children i ≠ [])
    (hnew : AllNew n content) (h : listCells f content = .ok rows) :
    rows ≠ [] ∧ ∀ row ∈ rows, row ≠ [] := by
  obtain ⟨list, items, columns, rfl, hkind, hcount, hitems, rfl⟩ := listCells_ok h
  have hlist : n ≤ list := hnew list (List.mem_singleton_self list)
  refine ⟨?_, List.forall_mem_map.mpr fun row hrow => ?_⟩
  · have hrows : 0 < items.length :=
      hcount ▸ List.length_pos_iff.mpr (hfilled list hlist (congrArg Kind.isList hkind))
    exact mt List.map_eq_nil_iff.mp (List.ne_nil_of_length_pos hrows)
  · obtain ⟨item, hitem, inner, hinner, hkind', rfl⟩ := (hitems row hrow).list
    have hnew' : n ≤ inner := hclosed item (hclosed list hlist item hitem) inner (by simp [hinner])
    exact mt List.map_eq_nil_iff.mp (hfilled inner hnew' (congrArg Kind.isList hkind'))

/-- Rows of one width are all the widest. -/
theorem widest_of_uniform {widths : List Nat} {n : Nat} (h : ∀ w ∈ widths, w = n) :
    ∀ w ∈ widths, w = widths.foldl max 0 := by
  intro w hw
  rw [List.foldl_eq_foldr]
  exact Nat.le_antisymm (List.le_max_of_le' 0 hw (Nat.le_refl _))
    (List.max_le_of_forall_le _ _ fun v hv => Nat.le_of_eq ((h v hv).trans (h w hw).symm))

/-- A table of rows that are all of one length. -/
theorem listedTable_tabulates {nodes : List NodeId} {columns : Nat} (hcounts : c.Counts)
    (htitle : s.doc.forest.IsTitle title) (hlength : ∀ row ∈ rows, row.length = columns)
    (hrun : (c.listedTable title messages rows).run s = .ok (.ok nodes) t) :
    ∃ table, nodes = table :: messages ∧
      c.Tabulates false (rows.map (·.length)) t.doc.forest table ∧
      (rows ≠ [] ∧ (∀ row ∈ rows, row ≠ []) → c.HasRoom false (rows.map (·.length))) := by
  obtain ⟨cells, u, hcells, hrun⟩ := Run.bind_eq_ok hrun
  obtain ⟨hfits, hrun⟩ := requireShape_bind hrun
  obtain ⟨table, v, hbuild, hrun⟩ := Run.bind_eq_ok hrun
  cases hrun
  have hlift : (fun row : List (List NodeId) => row.mapM fun nodes =>
      (liftM (Build.element { kind := .entry } nodes) : Run NodeId)) = fun row =>
        (liftM (row.mapM fun nodes => Parse.build (Build.element { kind := .entry } nodes)) :
          Run (List NodeId)) :=
    funext fun row => Run.mapM_lift _ row
  rw [hlift, Run.mapM_lift] at hcells
  obtain ⟨hentered, hwide⟩ := Parse.Enters.mapM (fun row _ => enters_listed row) _ _ _
    (Run.lift_eq_ok hcells)
  refine ⟨table, rfl, tabulates_of_buildTable hcounts htitle (by simpa using hentered) ?_ ?_
    (Parse.build_eq_ok (Run.lift_eq_ok hbuild)), fun hfilled => hcounts.room hfits ?_ ?_⟩
  · rw [List.length_map]
    exact hwide.length_eq.symm
  · intro row hrow
    obtain ⟨k, hk, rfl⟩ := List.mem_iff_getElem.mp hrow
    have hk' : k < rows.length := hwide.length_eq.symm ▸ hk
    exact (hwide.get hk' hk).trans (widest_of_uniform (List.forall_mem_map.mpr hlength) _
      (List.mem_map_of_mem (List.get_mem rows ⟨k, hk'⟩)))
  · exact mt List.map_eq_nil_iff.mp hfilled.1
  · exact List.forall_mem_map.mpr fun row hrow => List.length_pos_iff.mpr (hfilled.2 row hrow)

/-- **A table written as a list is as its options say.**  There is room in it
    if the text is read with the standard directives, since its lists have
    items then. -/
theorem listTable_tabulates {nodes : List NodeId} (hcounts : c.Counts)
    (hrun : (c.listTable (Site.reader count depth)).run s = .ok (.ok nodes) t) :
    ∃ table messages title u content v rows, nodes = table :: messages ∧
      c.tableTitle s = .ok (title, messages) u ∧
      c.contentNodes (Site.reader count depth) u = .ok content v ∧
      listCells v.doc.forest content = .ok rows ∧
      c.Tabulates false (rows.map (·.length)) t.doc.forest table ∧
      (c.site.env.Builtin ∧ s.doc.Accounted ∧ s.Orderly →
        c.HasRoom false (rows.map (·.length))) := by
  unfold listTable at hrun
  split at hrun
  · cases hrun
  obtain ⟨⟨title, messages⟩, u, htitle, hrun⟩ := Run.bind_eq_ok hrun
  obtain ⟨content, v, hcontent, hrun⟩ := Run.bind_eq_ok hrun
  obtain ⟨_, _, hget, hrun⟩ := Run.bind_eq_ok hrun
  cases hget
  split at hrun
  · cases hrun
  · rename_i rows hcells
    have htitle := Run.lift_eq_ok htitle
    have hcontent := Run.lift_eq_ok hcontent
    obtain ⟨hkept, hclosed, hnew⟩ := contentNodes_new hcontent
    obtain ⟨list, items, columns, -, -, -, hitems, hrows⟩ := listCells_ok hcells
    -- Items of different lengths are complained about, so one number of columns is that of all.
    have hlength : ∀ row ∈ rows, row.length = columns := by
      rw [hrows]
      refine List.forall_mem_map.mpr fun row hrow => ?_
      rw [List.length_map]
      exact (hitems row hrow).length
    obtain ⟨table, rfl, htable, hroom⟩ :=
      listedTable_tabulates hcounts ((tableTitle_ok htitle).kept hkept) hlength hrun
    refine ⟨table, messages, title, u, content, v, rows, rfl, htitle, hcontent, hcells, htable, ?_⟩
    rintro ⟨henv, haccounted, horderly⟩
    have hlisted := contentNodes_listed henv haccounted horderly htitle hcontent
    exact hroom (listCells_filled hclosed hlisted.filled hnew hcells)

/-- The rows of data of a call have some widths, and the first of them may be
    those of a header given apart. -/
inductive HasData (c : Call) (read : ReadBody) (s : ParseState) :
    StandardDirective → Bool → List Nat → Prop
  | values {text : List Char} {u : ParseState} {header values : List (List (List Char))}
      (given : c.valueText.run s = .ok (.ok text) u) (above : c.headerValues? = some header)
      (below : c.values? text = some values) :
    HasData c read s .csvTable (c.has "header") ((header ++ values).map (·.length))
  | items {title messages content : List NodeId} {u v : ParseState}
      {rows : List (List (List NodeId))} (titled : c.tableTitle s = .ok (title, messages) u)
      (given : c.contentNodes read u = .ok content v)
      (listed : listCells v.doc.forest content = .ok rows) :
    HasData c read s .listTable false (rows.map (·.length))

/-- **The dimensions of tables are enforced.**  Whatever the options of a call
    are and whatever its data is, a table that comes of it has a row for each
    row of data, all as wide as the widest, and there are fewer headers than
    rows and fewer stubs than columns in any row of data.  Its first rows are
    marked as headers, as many as are asked for unless they are more than a
    word can hold.

    The rows of a table that is a list are lists themselves.  A text that is
    read with the standard directives makes no list without items; what other
    directives make is up to them. -/
theorem runStandard_tabulates {std : StandardDirective} {nodes : List NodeId}
    (hstd : std = .csvTable ∨ std = .listTable) (haccepts : c.Accepts std.spec)
    (hrun : (c.runStandard (Site.reader count depth) std).run s = .ok (.ok nodes) t) :
    ∃ table messages header widths, nodes = table :: messages ∧
      c.HasData (Site.reader count depth) s std header widths ∧
      c.Tabulates header widths t.doc.forest table ∧
      ((std = .listTable → c.site.env.Builtin ∧ s.doc.Accounted ∧ s.Orderly) →
        c.HasRoom header widths) := by
  have hcounts := haccepts.counts hstd
  rcases hstd with rfl | rfl
  · obtain ⟨table, messages, text, u, header, values, hnodes, htext, hheader, hvalues, htable, hroom⟩ :=
      csvTable_tabulates hcounts (Site.keepsKinds_within count depth)
        (Site.keepsKinds_file count depth) hrun
    exact ⟨table, messages, _, _, hnodes, .values htext hheader hvalues, htable, fun _ => hroom⟩
  · obtain ⟨table, messages, title, u, content, v, rows, hnodes, htitle, hcontent, hrows, htable,
      hroom⟩ := listTable_tabulates hcounts hrun
    exact ⟨table, messages, _, _, hnodes, .items htitle hcontent hrows, htable,
      fun hlist => hroom (hlist rfl)⟩

/-- A list of two rows, the first of them a header. -/
theorem runStandard_tabulates_two_rows :
    let d := Document.new "d" {}
    let site := d.site (Environment.mk .standard {} 0 3 .standard).surroundings
    let lines := ["list-table::", ":header-rows: 1", "", "* - a", "  - b", "* - c", "  - d"]
    ∃ c nodes t, site.call? (lines.map String.toList) 1 "" = some (.standard .listTable, c) ∧
      c.Accepts StandardDirective.listTable.spec ∧
      (c.site.env.Builtin ∧ d.Accounted ∧ ParseState.Orderly { doc := d }) ∧
      (c.runStandard (Site.reader 1 9) .listTable).run { doc := d } = .ok (.ok nodes) t ∧
      ∃ table messages header widths, nodes = table :: messages ∧
        c.HasData (Site.reader 1 9) { doc := d } .listTable header widths ∧
        c.Tabulates header widths t.doc.forest table ∧ c.HasRoom header widths := by
  intro d site lines
  have hmade : (site.call? (lines.map String.toList) 1 "").any (fun p =>
      p.1 == .standard .listTable && decide
        ((outcome ((p.2.runStandard (Site.reader 1 9) .listTable).run { doc := d })).1.toOption.bind
          Except.toOption = some [23])) = true := by decide +kernel
  obtain ⟨⟨d', c⟩, hcall, hmade⟩ := (Option.any_eq_true _ _).mp hmade
  obtain ⟨hdirective, hmade⟩ := Bool.and_eq_true_iff.mp hmade
  obtain rfl := Directive.eq_standard_of_beq hdirective
  have hrun := Run.eq_ok_of_outcome (of_decide_eq_true hmade)
  have haccepts := accepts_of_call? hcall
  have henv : c.site.env.Builtin := by
    obtain ⟨_, -, -, _, -, rfl⟩ := Site.call?_eq_some hcall
    exact Environment.builtin rfl
  have haccounted : d.Accounted := (Document.empty_new "d" {} d.reporter).accounted
  have horderly : ParseState.Orderly { doc := d } :=
    ⟨fun _ _ h => (by cases h), List.forall_mem_nil _⟩
  have hlist := And.intro henv (And.intro haccounted horderly)
  obtain ⟨table, messages, header, widths, hnodes, hdata, htable, hroom⟩ :=
    runStandard_tabulates (.inr rfl) haccepts hrun
  exact ⟨c, _, _, hcall, haccepts, hlist, hrun, table, messages, header, widths, hnodes, hdata, htable,
    hroom fun _ => hlist⟩

/-- A header and as many header rows as a word can count make one more than
    that, and so a table of two rows without any. -/
theorem header_uncounted :
    let d := Document.new "d" {}
    let site := d.site (Environment.mk .standard {} 0 3 .standard).surroundings
    let lines := ["csv-table::", ":header: a", ":header-rows: 9223372036854775807", "", "b"]
    ∃ c table t, site.call? (lines.map String.toList) 1 "" = some (.standard .csvTable, c) ∧
      (c.runStandard (Site.reader 1 9) .csvTable).run { doc := d } = .ok (.ok [table]) t ∧
      c.headersAsked (c.has "header") = 9223372036854775808 ∧ (t.doc.node table).kind = .table ∧
      (t.doc.forest.rows table).length = 2 ∧
      ∀ row ∈ t.doc.forest.rows table, (t.doc.node row).attr? "header" = none := by
  intro d site lines
  have hmade : (site.call? (lines.map String.toList) 1 "").any (fun p =>
      p.1 == .standard .csvTable &&
        let made := outcome ((p.2.runStandard (Site.reader 1 9) .csvTable).run { doc := d })
        decide (made.1.toOption.bind Except.toOption = some [7] ∧
          p.2.headersAsked (p.2.has "header") = 9223372036854775808 ∧
          (made.2.doc.node 7).kind = .table ∧ (made.2.doc.forest.rows 7).length = 2 ∧
          ∀ row ∈ made.2.doc.forest.rows 7, (made.2.doc.node row).attr? "header" = none)) = true := by
    decide +kernel
  obtain ⟨⟨d', c⟩, hcall, hmade⟩ := (Option.any_eq_true _ _).mp hmade
  obtain ⟨hdirective, hmade⟩ := Bool.and_eq_true_iff.mp hmade
  obtain rfl := Directive.eq_standard_of_beq hdirective
  obtain ⟨hrun, hrest⟩ := of_decide_eq_true hmade
  exact ⟨c, 7, _, hcall, Run.eq_ok_of_outcome hrun, hrest⟩

end Call

end Reading

end MarkupLint
