import MarkupLint.Parse.Body
import MarkupLint.Proofs.Copying
import MarkupLint.Proofs.Inclusion
import MarkupLint.Proofs.Making
import MarkupLint.Proofs.Plain

/-! # What is hung under a node

    Reading a body hangs new nodes under the node that the body goes to, after
    the children which that one has (`Forest.Hung`).  What hangs there can grow
    in two ways: more is hung beside it (`Hung.trans`) or inside it
    (`Hung.within`).  A paragraph of which nothing is said is hung up with
    what its text stands for (`Site.paragraph_hung`). -/

namespace MarkupLint

variable {f g h : Forest} {p i n : NodeId} {is js ns ms : List NodeId} {ts us vs : List Tree}

namespace Forest

/-- What stands below new nodes is new. -/
theorem WellFormed.new_children (hf : f.WellFormed) (hg : g.WellFormed)
    (hparent : ∀ j < f.size, g.parent? j = f.parent? j) {j c : NodeId} (hj : f.size ≤ j)
    (hc : c ∈ g.children j) : f.size ≤ c := by
  by_contra hlt
  have hup := hg.only c j hc
  rw [hparent c (Nat.lt_of_not_le hlt)] at hup
  exact Nat.not_lt.mpr hj (lt_size_of_mem_children ((hf.linked.mem_iff c j).mpr hup))

/-- What the first of some shapes says of its node. -/
theorem Shows.uncons {label : Node} (h : f.Shows (i :: is) (.node label us :: ts)) :
    (f.get i).bare = label ∧ f.Shows (f.children i) us ∧ f.Shows is ts := by
  generalize hfirst : Tree.node label us = t at h
  cases h with
  | cons below beside =>
    obtain ⟨rfl, rfl⟩ := Tree.node.inj hfirst
    exact ⟨rfl, below, beside⟩

/-- From `f` to `g`, new nodes of some shapes were hung under `p`, after the
    children that it had; the old nodes are as they were. -/
structure Hung (f g : Forest) (p : NodeId) (ns : List NodeId) (ts : List Tree) : Prop where
  inside : p < f.size
  size : f.size ≤ g.size
  wellFormed : g.WellFormed
  bare : ∀ j < f.size, (g.get j).bare = (f.get j).bare
  parent : ∀ j < f.size, g.parent? j = f.parent? j
  children : ∀ j < f.size, g.children j = if j = p then f.children p ++ ns else f.children j
  new : ∀ i ∈ ns, f.size ≤ i
  shows : g.Shows ns ts

namespace Hung

theorem refl (hf : f.WellFormed) (hp : p < f.size) : f.Hung f p [] [] where
  inside := hp
  size := Nat.le_refl _
  wellFormed := hf
  bare _ _ := rfl
  parent _ _ := rfl
  children j _ := by
    split
    · rename_i hj
      rw [hj, List.append_nil]
    · rfl
  new := List.forall_mem_nil _
  shows := .nil

theorem mem_children (hfg : f.Hung g p ns ts) (hi : i ∈ ns) : i ∈ g.children p := by
  rw [hfg.children p hfg.inside, if_pos rfl]
  exact List.mem_append_right _ hi

theorem lt_size (hfg : f.Hung g p ns ts) (hi : i ∈ ns) : i < g.size :=
  hfg.wellFormed.inside p i (hfg.mem_children hi)

/-- What was hung up shows the same wherever the new nodes are kept. -/
theorem shows_of_agree (hfg : f.Hung g p ns ts) (hf : f.WellFormed)
    (hagree : ∀ j, f.size ≤ j → j < g.size → (h.get j).bare = (g.get j).bare ∧
      h.children j = g.children j) : h.Shows ns ts :=
  hfg.shows.keep (P := fun j => f.size ≤ j ∧ j < g.size)
    (fun j hj c hc => ⟨hf.new_children hfg.wellFormed hfg.parent hj.1 hc,
      hfg.wellFormed.inside j c hc⟩)
    (fun j hj => hagree j hj.1 hj.2) fun i hi => ⟨hfg.new i hi, hfg.lt_size hi⟩

/-- More is hung beside what hangs there. -/
theorem trans (hfg : f.Hung g p ns ts) (hgh : g.Hung h p ms us) (hf : f.WellFormed) :
    f.Hung h p (ns ++ ms) (ts ++ us) := by
  have hlt : ∀ {j}, j < f.size → j < g.size := fun hj => Nat.lt_of_lt_of_le hj hfg.size
  exact {
    inside := hfg.inside
    size := Nat.le_trans hfg.size hgh.size
    wellFormed := hgh.wellFormed
    bare := fun j hj => by rw [hgh.bare j (hlt hj), hfg.bare j hj]
    parent := fun j hj => by rw [hgh.parent j (hlt hj), hfg.parent j hj]
    children := fun j hj => by
      rw [hgh.children j (hlt hj)]
      split
      · rw [hfg.children p hfg.inside, if_pos rfl, List.append_assoc]
      · rename_i hjp
        rw [hfg.children j hj, if_neg hjp]
    new := fun i hi => by
      rcases List.mem_append.mp hi with hi | hi
      · exact hfg.new i hi
      · exact Nat.le_trans hfg.size (hgh.new i hi)
    shows := by
      refine .append (hfg.shows_of_agree hf fun j hj hjg => ⟨hgh.bare j hjg, ?_⟩) hgh.shows
      rw [hgh.children j hjg, if_neg]
      rintro rfl
      exact Nat.not_lt.mpr hj hfg.inside }

/-- Nodes that the new ones are not hung below show what they did. -/
theorem shows_apart (hgh : g.Hung h n ms us) (hg : g.WellFormed)
    (hapart : ∀ i ∈ is, i < g.size ∧ ¬g.Above i n) (hshows : g.Shows is ts) : h.Shows is ts := by
  refine hshows.keep (hg.below_closed is) (fun j ⟨c, hc, hcj⟩ => ?_) fun c hc => ⟨c, hc, .here⟩
  have hj : j < g.size := by
    rcases hcj.eq_or with rfl | ⟨p, hp, -⟩
    · exact (hapart j hc).1
    · exact lt_size_of_parent? hp
  refine ⟨hgh.bare j hj, ?_⟩
  rw [hgh.children j hj, if_neg]
  rintro rfl
  exact (hapart c hc).2 hcj

/-- A node shows more when more is hung under it. -/
theorem shows_node {label : Node} (hgh : g.Hung h n ms us) (hg : g.WellFormed)
    (hshows : g.Shows [n] [.node label ts]) : h.Shows [n] [.node label (ts ++ us)] := by
  obtain ⟨rfl, below, -⟩ := hshows.uncons
  rw [← hgh.bare n hgh.inside]
  refine .cons ?_ .nil
  rw [hgh.children n hgh.inside, if_pos rfl]
  -- What is below the node is as it was, for the node is not below itself.
  exact .append (hgh.shows_apart hg (fun c hc => ⟨hg.inside n c hc,
    Above.not_circle (hg.ends c) (hg.only c n hc)⟩) below) hgh.shows

/-- More is hung inside the first of what hangs there. -/
theorem within_head {label : Node} (hfg : f.Hung g p (n :: js) (.node label ts :: vs))
    (hgh : g.Hung h n ms us) : f.Hung h p (n :: js) (.node label (ts ++ us) :: vs) := by
  have hlt : ∀ {j}, j < f.size → j < g.size := fun hj => Nat.lt_of_lt_of_le hj hfg.size
  have hold : ∀ {j}, j < f.size → j ≠ n := fun hj =>
    Nat.ne_of_lt (Nat.lt_of_lt_of_le hj (hfg.new n List.mem_cons_self))
  have hg : g.WellFormed := hfg.wellFormed
  obtain ⟨hlabel, below, beside⟩ := hfg.shows.uncons
  have hfirst := hgh.shows_node hg (.cons below .nil)
  have hapart : ∀ c ∈ js, c < g.size ∧ ¬g.Above c n := by
    intro c hc
    have hchild : g.parent? c = some p := hg.only c p (hfg.mem_children (List.mem_cons_of_mem n hc))
    have hhead : g.parent? n = some p := hg.only n p (hfg.mem_children List.mem_cons_self)
    refine ⟨hfg.lt_size (List.mem_cons_of_mem n hc), fun habove => ?_⟩
    rcases habove.eq_or with rfl | ⟨q, hq, habove⟩
    · have hnodup := hg.linked.nodup p
      rw [hfg.children p hfg.inside, if_pos rfl] at hnodup
      exact (List.nodup_cons.mp (List.nodup_append.mp hnodup).2.1).1 hc
    · obtain rfl : q = p := Option.some.inj (hq.symm.trans hhead)
      exact Above.not_circle (hg.ends c) hchild habove
  refine ⟨hfg.inside, Nat.le_trans hfg.size hgh.size, hgh.wellFormed, fun j hj => ?_, fun j hj => ?_,
    fun j hj => ?_, hfg.new, ?_⟩
  · rw [hgh.bare j (hlt hj), hfg.bare j hj]
  · rw [hgh.parent j (hlt hj), hfg.parent j hj]
  · rw [hgh.children j (hlt hj), if_neg (hold hj), hfg.children j hj]
  · rw [← hlabel]
    exact .append hfirst (hgh.shows_apart hg hapart beside)

/-- More is hung inside what hangs there. -/
theorem within {label : Node} (hfg : f.Hung g p [n] [.node label ts]) (hgh : g.Hung h n ms us) :
    f.Hung h p [n] [.node label (ts ++ us)] := hfg.within_head hgh

end Hung

end Forest

namespace Build.Made

/-- What is made after something else, with that. -/
theorem append (hfg : Made f g is ts) (hgh : Made g h js us) :
    Made f h (is ++ js) (ts ++ us) where
  extended := hfg.extended.trans hgh.extended
  wellFormed := hgh.wellFormed
  nodup := by
    refine List.nodup_append.mpr ⟨hfg.nodup, hgh.nodup, fun i hi j hj heq => ?_⟩
    exact Nat.not_lt.mpr (hgh.new j hj) (heq ▸ (hfg.inside i hi).1)
  new i hi := by
    rcases List.mem_append.mp hi with hi | hi
    · exact hfg.new i hi
    · exact Nat.le_trans hfg.extended.size (hgh.new i hi)
  inside i hi := by
    rcases List.mem_append.mp hi with hi | hi
    · obtain ⟨hsize, hparent⟩ := hfg.inside i hi
      refine ⟨Nat.lt_of_lt_of_le hsize hgh.extended.size, ?_⟩
      rw [Forest.parent?, hgh.extended.old i hsize]
      exact hparent
    · exact hgh.inside i hi
  shows := (hfg.shows.extends hfg.wellFormed hgh.extended fun i hi => (hfg.inside i hi).1).append
    hgh.shows

/-- What was made is hung under an old node. -/
theorem hung (hmade : Made f g ns ts) (hf : f.WellFormed) (hp : p < f.size) :
    f.Hung (g.append p ns) p ns ts := by
  have hold : ∀ {c}, c ∈ ns → c ≠ p := fun hc heq =>
    Nat.not_lt.mpr (hmade.new _ hc) (heq ▸ hp)
  have hpg : p < g.size := Nat.lt_of_lt_of_le hp hmade.extended.size
  have hget := Forest.get_append_orphans hpg hmade.nodup fun c hc =>
    ⟨(hmade.inside c hc).1, (hmade.inside c hc).2, hold hc⟩
  have hbare : ∀ j, ((g.append p ns).get j).bare = (g.get j).bare := by
    intro j
    rw [hget]
    split
    · rename_i hj
      rw [hj]
      rfl
    · split <;> rfl
  have hkids : ∀ j, (g.append p ns).children j = if j = p then g.children p ++ ns else g.children j := by
    intro j
    rw [Forest.children, hget]
    split
    · rfl
    · split <;> rfl
  have hmay : g.MayHold p ns :=
    ⟨hpg, hmade.nodup, fun c hc => (hmade.inside c hc).1, fun c hc habove =>
      Nat.not_lt.mpr (hmade.new c hc) (hmade.extended.spliced.lt_size_of_above hf hp habove)⟩
  exact {
    inside := hp
    size := by
      rw [Forest.size_append]
      exact hmade.extended.size
    wellFormed := hmade.wellFormed.append hmay
    bare := fun j hj => by rw [hbare, hmade.extended.old j hj]
    parent := fun j hj => by
      rw [Forest.parent?, hget]
      split
      · rename_i hjp
        rw [hjp, Forest.parent?, hmade.extended.old p hp]
      · rw [if_neg fun hmem => Nat.not_lt.mpr (hmade.new j hmem) hj, hmade.extended.old j hj]
        rfl
    children := fun j hj => by
      rw [hkids, Forest.children, hmade.extended.old p hp, Forest.children, hmade.extended.old j hj]
      rfl
    new := hmade.new
    shows := by
      refine hmade.shows.keep (P := fun j => f.size ≤ j) (fun j hj c hc => ?_)
        (fun j hj => ⟨hbare j, ?_⟩) hmade.new
      · refine hf.new_children hmade.wellFormed (fun i hi => ?_) hj hc
        rw [Forest.parent?, hmade.extended.old i hi]
        rfl
      · rw [hkids, if_neg]
        rintro rfl
        exact Nat.not_lt.mpr hj hp }

/-- More is hung inside what was made. -/
theorem within {label : Node} (hmade : Made f g [n] [.node label ts]) (hgh : g.Hung h n ms us) :
    Made f h [n] [.node label (ts ++ us)] := by
  have hold : ∀ {j}, j < f.size → j ≠ n := fun hj =>
    Nat.ne_of_lt (Nat.lt_of_lt_of_le hj (hmade.new n List.mem_cons_self))
  have heta : ∀ m : Node, { m.bare with children := m.children, parent := m.parent } = m := fun _ => rfl
  refine ⟨⟨Nat.le_trans hmade.extended.size hgh.size, fun j hj => ?_⟩, hgh.wellFormed, hmade.nodup,
    hmade.new, fun i hi => ?_, hgh.shows_node hmade.wellFormed hmade.shows⟩
  · have hjg : j < g.size := Nat.lt_of_lt_of_le hj hmade.extended.size
    have hkids := hgh.children j hjg
    rw [if_neg (hold hj)] at hkids
    have hparent := hgh.parent j hjg
    rw [Forest.children, Forest.children] at hkids
    rw [Forest.parent?, Forest.parent?] at hparent
    rw [← hmade.extended.old j hj, ← heta (h.get j), hgh.bare j hjg, hkids, hparent, heta]
  · obtain ⟨hi, hnone⟩ := hmade.inside i hi
    exact ⟨Nat.lt_of_lt_of_le hi hgh.size, (hgh.parent i hi).trans hnone⟩

/-- A change to what a node is, but not to where it stands. -/
theorem modify {label : Node} (hmade : Made f g [n] [.node label ts]) (change : Node → Node)
    (hbare : ∀ m, (change m).bare = change m.bare) (hkids : ∀ m, (change m).children = m.children)
    (hparent : ∀ m, (change m).parent = m.parent) :
    Made f (g.modify n change) [n] [.node (change label) ts] := by
  obtain ⟨hn, hnone⟩ := hmade.inside n List.mem_cons_self
  have hkids' : ∀ j, (g.modify n change).children j = g.children j :=
    fun j => Forest.children_modify g n j hkids
  have hparent' : ∀ j, (g.modify n change).parent? j = g.parent? j :=
    fun j => Forest.parent?_modify g n j hparent
  refine ⟨⟨?_, fun j hj => ?_⟩, hmade.wellFormed.congr hparent' hkids', hmade.nodup, hmade.new,
    fun i hi => ?_, ?_⟩
  · rw [Forest.size_modify]
    exact hmade.extended.size
  · rw [Forest.get_modify_of_ne, hmade.extended.old j hj]
    rintro rfl
    exact Nat.not_lt.mpr (hmade.new j List.mem_cons_self) hj
  · rw [Forest.size_modify, hparent']
    exact hmade.inside i hi
  · obtain ⟨rfl, below, -⟩ := hmade.shows.uncons
    have hroot : ((g.modify n change).get n).bare = change (g.get n).bare := by
      rw [Forest.get_modify_self hn, hbare]
    rw [← hroot]
    refine .cons ?_ .nil
    rw [hkids']
    -- The node has no parent, so it is not among the children of any.
    have hnot : ∀ j, ∀ c ∈ g.children j, c ≠ n := by
      rintro j c hc rfl
      rw [hmade.wellFormed.only c j hc] at hnone
      cases hnone
    exact below.keep (P := (· ≠ n)) (fun j _ => hnot j)
      (fun j hj => ⟨by rw [Forest.get_modify_of_ne g hj], hkids' j⟩) (hnot n)

end Build.Made

/-! ## Reading -/

theorem Document.wellFormed_new (source : String) (settings : Settings) :
    (new source settings).forest.WellFormed :=
  Forest.Edited.empty.wellFormed_of.alloc _

/-- The state with another forest. -/
def ParseState.withForest (s : ParseState) (g : Forest) : ParseState :=
  { s with doc := { s.doc with forest := g } }

namespace Parse

variable {α β : Type} {s t : ParseState} {a : α}

theorem bind_ok {x : Parse α} (h : x s = .ok a t) (next : α → Parse β) :
    (x >>= next) s = next a t := by
  rw [Contract.bind_run, h]

theorem bind_get (next : ParseState → Parse β) (s : ParseState) : (get >>= next) s = next s s := rfl

theorem build_ok {x : Build α} {d : Document} (h : x s.doc = .ok a d) :
    Parse.build x s = .ok a { s with doc := d } := by
  simp only [Parse.build, h]

theorem bind_error {x : Parse α} {e : Stop} (h : x s = .error e t) (next : α → Parse β) :
    (x >>= next) s = .error e t := by
  rw [Contract.bind_run, h]

theorem build_error {x : Build α} {e : Stop} {d : Document} (h : x s.doc = .error e d) :
    Parse.build x s = .error e { s with doc := d } := by
  simp only [Parse.build, h]

end Parse

/-- The shape of a leaf. -/
def Tree.leaf (text : List Char) : Tree := .node { kind := .text, value := String.ofList text } []

namespace Parse.InlineSite

open Inline

/-- Text without escapes becomes a leaf. -/
theorem gap_made {scan : Scan} {start stop : Nat} {text : List Char} (hlt : start < stop)
    (hslice : scan.slice start stop = text) (hescape : '\\' ∉ text) {s : ParseState}
    (hs : s.doc.forest.WellFormed) :
    ∃ g made, Parse.build (gap scan start stop) s = .ok made (s.withForest g) ∧
      Build.Made s.doc.forest g made.nodes [.leaf text] ∧ made.messages = [] ∧
      made.text = String.ofList text := by
  obtain ⟨g, hleaf, hmade⟩ := Build.element_made (Build.Made.nil hs)
    { kind := .text, value := String.ofList text }
  refine ⟨g, ⟨[s.doc.forest.size], [], String.ofList text⟩, ?_, hmade, rfl, rfl⟩
  rw [gap_eq, if_pos hlt, plain, hslice, unescape_of_not_mem hescape, Build.leaf]
  show EStateM.map _ _ s = _
  rw [EStateM.map, Parse.build_ok hleaf]
  rfl

end Parse.InlineSite

/-- Text without markup is one leaf, and nothing is said about it. -/
theorem Parse.inlineParse_of_pieces_eq_nil {text : List Char} (hne : text ≠ [])
    (hpieces : Inline.pieces text = []) (hescape : '\\' ∉ text) (site : Site) (line : Nat)
    {s : ParseState} (hs : s.doc.forest.WellFormed) :
    ∃ g made, inlineParse site text line s = .ok made (s.withForest g) ∧
      Build.Made s.doc.forest g made.nodes [.leaf text] ∧ made.messages = [] ∧
      made.text = String.ofList text := by
  have hslice : Inline.Scan.slice ⟨text.toArray⟩ 0 text.length = text := by
    simpa using Inline.Scan.slice_append [] text []
  rw [inlineParse, hpieces]
  exact InlineSite.gap_made (List.length_pos_of_ne_nil hne) hslice hescape hs

theorem Parse.inlineParse_plain {text : List Char} (hne : text ≠ [])
    (hplain : ∀ c ∈ text, Inline.isPlain c = true) (site : Site) (line : Nat) {s : ParseState}
    (hs : s.doc.forest.WellFormed) :
    ∃ g made, inlineParse site text line s = .ok made (s.withForest g) ∧
      Build.Made s.doc.forest g made.nodes [.leaf text] ∧ made.messages = [] ∧
      made.text = String.ofList text :=
  inlineParse_of_pieces_eq_nil hne (Inline.pieces_eq_nil hplain)
    (Inline.not_mem_of_isPlain hplain (by decide)) site line hs

namespace Site

variable {site : Site} {s : ParseState}

/-- Where the next block of a body goes. -/
def place (site : Site) (s : ParseState) : NodeId :=
  if site.titles then s.sections.headD s.doc.root else site.parent

theorem add_eq (site : Site) (nodes : List NodeId) (s : ParseState) :
    site.add nodes s = .ok () (s.withForest (s.doc.forest.append (site.place s) nodes)) := rfl

theorem add_nil (site : Site) (s : ParseState) : site.add [] s = .ok () s := rfl

/-- Blocks are read one after the other. -/
theorem forM_cons {read : ReadBody} {b : Block} {t : ParseState}
    (h : site.block read b s = .ok () t) (bs : List Block) :
    (b :: bs).forM (site.block read) s = bs.forM (site.block read) t :=
  Parse.bind_ok h _

/-- What was made is hung up where the next block goes. -/
theorem add_hung (site : Site) (hmade : Build.Made s.doc.forest g ns ts) (hs : s.doc.forest.WellFormed)
    (hp : site.place s < s.doc.forest.size) :
    ∃ h, site.add ns (s.withForest g) = .ok () (s.withForest h) ∧
      s.doc.forest.Hung h (site.place s) ns ts :=
  ⟨_, site.add_eq ns (s.withForest g), hmade.hung hs hp⟩

/-- A list is hung up before its items are read. -/
theorem openList_hung (site : Site) (label : Node) (hs : s.doc.forest.WellFormed)
    (hp : site.place s < s.doc.forest.size) :
    ∃ g list, site.openList label s = .ok list (s.withForest g) ∧
      s.doc.forest.Hung g (site.place s) [list] [.node label.bare []] := by
  obtain ⟨g, helement, hmade⟩ := Build.element_made (d := s.doc) (Build.Made.nil hs) label
  obtain ⟨h, hadd, hhung⟩ := site.add_hung hmade hs hp
  refine ⟨h, _, ?_, hhung⟩
  unfold openList
  exact (Parse.bind_ok (Parse.build_ok helement) _).trans ((Parse.bind_ok hadd _).trans rfl)

/-- An item goes to its list with what its body hangs under it, and the others
    come after it. -/
theorem listItems_cons {read : ReadBody} {item : ListItem} {items : List ListItem} {list : NodeId}
    {ts us : List Tree}
    (hbody : ∀ (t : ParseState) (i : NodeId), t.doc.forest.WellFormed → i < t.doc.forest.size →
      ∃ g ns, read (site.within i) item.body t = .ok ⟨⟩ (t.withForest g) ∧
        t.doc.forest.Hung g i ns ts)
    (hrest : ∀ t : ParseState, t.doc.forest.WellFormed → list < t.doc.forest.size →
      ∃ g ns, site.listItems read list items t = .ok ⟨⟩ (t.withForest g) ∧
        t.doc.forest.Hung g list ns us)
    (hs : s.doc.forest.WellFormed) (hlist : list < s.doc.forest.size) :
    ∃ g ns, site.listItems read list (item :: items) s = .ok ⟨⟩ (s.withForest g) ∧
      s.doc.forest.Hung g list ns (.node { kind := .listItem, line := item.line } ts :: us) := by
  obtain ⟨g₁, helement, hmade⟩ := Build.element_made (d := s.doc) (Build.Made.nil hs)
    { kind := .listItem, line := item.line }
  generalize hi : s.doc.forest.size = i at helement hmade
  obtain ⟨g₂, ns, hread, hhung⟩ := hbody (s.withForest g₁) i hmade.wellFormed
    (hmade.inside i List.mem_cons_self).1
  have hitem := (hmade.within hhung).hung hs hlist
  obtain ⟨g₃, ms, hitems, hhung'⟩ := hrest (s.withForest (g₂.append list [i])) hitem.wellFormed
    (Nat.lt_of_lt_of_le hlist hitem.size)
  refine ⟨g₃, [i] ++ ms, (Parse.bind_ok (a := ⟨⟩) ?_ _).trans hitems, hitem.trans hhung' hs⟩
  exact (Parse.bind_ok (Parse.build_ok helement) _).trans ((Parse.bind_ok hread _).trans rfl)

/-- A paragraph with inline markup about which nothing is said. -/
theorem paragraph_hung {text : List Char} {line : Nat} {made : Inlined} (hne : text ≠ [])
    (hinline : Parse.inlineParse site text line s = .ok made (s.withForest g))
    (hmade : Build.Made s.doc.forest g made.nodes ts) (hmessages : made.messages = [])
    (hs : s.doc.forest.WellFormed) (hp : site.place s < s.doc.forest.size) :
    ∃ h n, site.paragraph line text none s = .ok () (s.withForest h) ∧
      s.doc.forest.Hung h (site.place s) [n]
        [.node { kind := .paragraph, line := line, source := site.source } ts] := by
  obtain ⟨g', helement, hmade'⟩ := Build.element_made (d := (s.withForest g).doc) hmade
    { kind := .paragraph, line := line, source := site.source }
  obtain ⟨h, hadd, hhung⟩ := site.add_hung hmade' hs hp
  refine ⟨h, _, ?_, hhung⟩
  have hempty : text.isEmpty = false := by simpa using hne
  have hcomplaint : (site.strayMessages none : Build _) s.doc = .ok [] s.doc := rfl
  unfold paragraph
  refine (Parse.bind_ok (Parse.build_ok hcomplaint) _).trans ?_
  simp only [hempty, Bool.not_false, if_true]
  refine (Parse.bind_ok hinline _).trans ((Parse.bind_ok (Parse.build_ok helement) _).trans ?_)
  rw [hmessages]
  exact (Parse.bind_ok hadd _).trans (site.add_nil _)

end Site

/-- What is hung under the root of a new document when its lines are read is
    what the document shows. -/
theorem Document.parse_hung {d : Document} {env : Surroundings} {text : List Char}
    {lines : List Line} {s : ParseState} {ns : List NodeId} {ts : List Tree} {source : String}
    (hd : (d.forest.get d.root).bare = { kind := .document, source := source })
    (hnone : d.forest.children d.root = []) (hlines : splitLines? d.tabWidth text = some lines)
    (hread : Site.read (env.nesting + 1) (d.site env) ⟨0, lines⟩ { doc := d } = .ok () s)
    (hhung : d.forest.Hung s.doc.forest d.root ns ts) :
    d.parse env text = (.ok (), s.doc) ∧
      s.doc.forest.shape d.root = .node { kind := .document, source := source } ts := by
  have hkids : s.doc.forest.children d.root = ns := by
    rw [hhung.children d.root hhung.inside, if_pos rfl, hnone, List.nil_append]
  have hshows : s.doc.forest.Shows [d.root] [.node { kind := .document, source := source } ts] := by
    rw [← hd, ← hhung.bare d.root hhung.inside]
    exact .cons (hkids ▸ hhung.shows) .nil
  have hshape := hshows.eq_map_shape hhung.wellFormed
  rw [List.map_singleton, List.singleton_inj] at hshape
  refine ⟨?_, hshape.symm⟩
  rw [parse_eq, parseText_of_some env hlines, hread]
  rfl

end MarkupLint
