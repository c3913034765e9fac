import MarkupLint.Proofs.Hanging
import MarkupLint.Proofs.Outline
import MarkupLint.Proofs.Rendering
import MarkupLint.Proofs.Resilience
import MarkupLint.Proofs.Silence

/-! # Outlines are reproduced

    Reading the text of an outline gives its tree (`Document.parse_outline`).
    Every title is admitted, whatever sections it closes: the styles of the
    depths met so far are known in order, and no style of a greater depth is
    (`Opening.titleLevel?_eq`).  What follows a title goes into its section up
    to the next title of the same or a smaller depth (`Site.sections_hung`).
    Passes have nothing to say about such a tree, so linting finds nothing
    (`Outline.reproduced`). -/

namespace MarkupLint

open Line (Prose)

variable {marks : List Char} {outer : List NodeId} {s t u : ParseState} {site : Site}

/-! ## The trees of an outline -/

/-- The trees of paragraphs, the first of them on line `n`. -/
def paragraphTrees (source : String) : Nat → List Line → List Tree
  | _, [] => []
  | n, p :: ps =>
    .node { kind := .paragraph, line := n, source := source } [.leaf p]
      :: paragraphTrees source (n + 2) ps

namespace Sections

/-- A section with nothing but its title, on line `n`. -/
def label (source : String) (n : Nat) (title : Line) : Node where
  kind := .division
  line := n
  source := source
  names := [String.ofList title]

def titleTree (n : Nat) (title : Line) : Tree :=
  .node { kind := .title, line := n } [.leaf title]

/-- The trees of sections that start on line `n`: the title, the paragraphs
    and the sections below it. -/
def trees (source : String) (n : Nat) : Sections → List Tree
  | none => []
  | cons title paragraphs inner after =>
    let below := n + 3 + 2 * paragraphs.length
    .node (label source n title) (titleTree n title :: (paragraphTrees source (n + 3) paragraphs ++
      inner.trees source below)) :: after.trees source (below + inner.height)

end Sections

/-- The tree of an outline. -/
def Outline.tree (o : Outline) (source : String) : Tree :=
  .node { kind := .document, source := source } (paragraphTrees source 1 o.paragraphs ++
    o.sections.trees source (1 + 2 * o.paragraphs.length))

/-! ## What reading leaves -/

/-- From `s` to `t`, nodes of some shapes were hung under `p`, and no names
    were claimed but those of some titles.  Nothing else became of the
    document. -/
structure Reproduced (p : NodeId) (ns : List NodeId) (titles : List Line) (ts : List Tree)
    (s t : ParseState) : Prop where
  hung : s.doc.forest.Hung t.doc.forest p ns ts
  rest : t.doc = { s.doc with forest := t.doc.forest, names := t.doc.names }
  names : ∀ name, (∀ l ∈ titles, name ≠ String.ofList l) →
    t.doc.names.get? name = s.doc.names.get? name

/-- Sections are open, among them `outer`, and the styles of so many depths
    are known at least. -/
structure Opening (marks : List Char) (outer : List NodeId) (s : ParseState) : Prop where
  opened : outer <:+ s.sections
  styles : ∃ m ≤ marks.length, s.sections.length ≤ m ∧
    s.styles = (marks.take m).map fun c => ⟨c, none⟩

/-! ## Opening sections -/

/-- The mark of a depth leads to that depth. -/
theorem Opening.titleLevel?_eq (h : Opening marks outer s) (hmarks : Adornments marks)
    (hdepth : outer.length < marks.length) :
    ∃ m ≤ marks.length, outer.length + 1 ≤ m ∧
      Site.titleLevel? s.styles s.sections.length ⟨marks.getD outer.length '=', none⟩
        = some (outer.length + 1, (marks.take m).map fun c => ⟨c, none⟩) := by
  obtain ⟨m, hm, hsections, hstyles⟩ := h.styles
  have houter : outer.length ≤ s.sections.length := h.opened.length_le
  have hinj : Function.Injective fun c : Char => (⟨c, none⟩ : TitleStyle) := fun a b hab =>
    congrArg TitleStyle.underline hab
  have hnodup : ∀ k, ((marks.take k).map fun c => (⟨c, none⟩ : TitleStyle)).Nodup := fun k =>
    (hmarks.nodup.sublist (List.take_sublist k marks)).map hinj
  have hmark : marks.getD outer.length '=' = marks[outer.length] := by
    rw [List.getD_eq_getElem?_getD, List.getElem?_eq_getElem hdepth, Option.getD_some]
  rcases Nat.lt_or_eq_of_le (Nat.le_trans houter hsections) with hlt | heq
  · refine ⟨m, hm, hlt, ?_⟩
    rw [hstyles, Site.titleLevel?_eq_some_iff (hnodup m)]
    refine .known ?_ houter
    rw [List.getElem?_map, List.getElem?_take_of_lt hlt, List.getElem?_eq_getElem hdepth, hmark]
    rfl
  · have hlength : s.styles.length = outer.length := by
      rw [hstyles, List.length_map, List.length_take]
      omega
    have hafter : (marks.take (outer.length + 1)).map (fun c => (⟨c, none⟩ : TitleStyle))
        = s.styles ++ [⟨marks[outer.length], none⟩] := by
      rw [hstyles, ← heq, List.take_succ_eq_append_getElem hdepth, List.map_append]
      rfl
    have hunmet : (⟨marks[outer.length], none⟩ : TitleStyle) ∉ s.styles := fun hmem =>
      (List.nodup_append.mp (hafter ▸ hnodup (outer.length + 1))).2.2 _ hmem _
        (List.mem_singleton_self _) rfl
    have hfull : s.sections.length = s.styles.length := by omega
    have hadmitted := Admitted.fresh hunmet hfull
    rw [hlength] at hadmitted
    refine ⟨outer.length + 1, hdepth, Nat.le_refl _, ?_⟩
    rw [hafter, hmark]
    exact (Site.titleLevel?_eq_some_iff (hstyles ▸ hnodup m)).mpr hadmitted

/-- A name that nothing has is claimed without a complaint. -/
theorem Build.noteTarget_fresh {d : Document} {i : NodeId} {name : String}
    (hnames : (d.node i).names = [name]) (hfresh : d.names.get? name = none) (explicit : Bool) :
    noteTarget i explicit d
      = .ok [] { d with names := d.names.set name ⟨some i, explicit⟩ } := by
  have hname : noteName i explicit name d
      = .ok [] { d with names := d.names.set name ⟨some i, explicit⟩ } := by
    have hread : (get : Build Document) d = .ok d d := rfl
    rw [noteName, Contract.bind_run, hread]
    dsimp only
    rw [hfresh]
    rfl
  have hnode : Build.node i d = .ok (d.node i) d := rfl
  unfold noteTarget
  rw [Contract.bind_run, hnode]
  dsimp only
  rw [hnames, List.mapM_cons, Contract.bind_run, Contract.bind_run, hname]
  rfl

theorem Parse.modify_ok {α : Type} (a : ParseState → ParseState) (next : PUnit → Parse α) :
    (modify a >>= next) s = next ⟨⟩ (a s) := rfl

namespace Site

/-- The section of a title is hung up with the title, under the node of the
    level above, and its name is claimed. -/
theorem hangSection_hung (site : Site) {title : Line} (htitle : Prose title) {h : Heading}
    {p : NodeId} {g : Forest}
    {made : Inlined} (hmade : Build.Made s.doc.forest g made.nodes [.leaf title])
    (hmessages : made.messages = []) (htext : made.text = String.ofList title)
    (hfresh : s.doc.names.get? (String.ofList title) = none) (hs : s.doc.forest.WellFormed)
    (hp : p < s.doc.forest.size) :
    ∃ g' node, site.hangSection h p made [] (s.withForest g) = .ok ⟨⟩
        { s with
          doc := { s.doc with
            forest := g'
            names := s.doc.names.set (String.ofList title) ⟨some node, false⟩ }
          sections := node :: s.sections } ∧
      s.doc.forest.Hung g' p [node]
        [.node (Sections.label site.source h.line title) [Sections.titleTree h.line title]] := by
  let heading : Node :=
    { kind := .division, line := h.line, source := site.source, names := [normalizeName made.text] }
  obtain ⟨g₁, htitle₁, hmade₁⟩ := Build.element_made (d := (s.withForest g).doc) hmade
    { kind := .title, line := h.line }
  obtain ⟨g₂, hnode₂, hmade₂⟩ := Build.element_made (d := (s.withForest g₁).doc) hmade₁ heading
  have hname : normalizeName made.text = String.ofList title := by
    rw [htext, htitle.normalizeName_eq]
  have hlabel : heading.bare = Sections.label site.source h.line title := by
    simp only [heading, hname]
    rfl
  rw [hlabel] at hmade₂
  generalize (s.withForest g₁).doc.forest.size = node at hnode₂ hmade₂
  -- Title and section are made aside, and hung up together.
  have hhung := hmade₂.hung hs hp
  have happend : Build.append p [node] { s.doc with forest := g₂ }
      = .ok ⟨⟩ { s.doc with forest := g₂.append p [node] } := rfl
  generalize g₂.append p [node] = g' at hhung happend
  have hbare : (g'.get node).bare = Sections.label site.source h.line title := hhung.shows.uncons.1
  have hnames : (Document.node { s.doc with forest := g' } node).names = [String.ofList title] := by
    show (g'.get node).bare.names = _
    rw [hbare]
    rfl
  have hclaim := Build.noteTarget_fresh (d := { s.doc with forest := g' }) hnames hfresh false
  refine ⟨g', node, ?_, hhung⟩
  unfold hangSection
  rw [hmessages]
  refine (Parse.bind_ok (Parse.build_ok htitle₁) _).trans ?_
  refine (Parse.bind_ok (Parse.build_ok hnode₂) _).trans ?_
  refine (Parse.bind_ok (Parse.build_ok happend) _).trans ?_
  rw [Parse.modify_ok]
  exact (Parse.bind_ok (Parse.build_ok hclaim) _).trans rfl

/-- A title of the next depth after `outer` closes the sections inside those
    and opens its own. -/
theorem openSection_hung (hsite : site.titles = true) (hmarks : Adornments marks)
    (hopen : Opening marks outer s) (hdepth : outer.length < marks.length) {title : Line}
    (htitle : Prose title) (n : Nat) (hfresh : s.doc.names.get? (String.ofList title) = none)
    (hs : s.doc.forest.WellFormed) (hp : outer.headD s.doc.root < s.doc.forest.size) :
    ∃ t node, site.openSection (Sections.heading marks outer.length n title) s = .ok ⟨⟩ t ∧
      Reproduced (outer.headD s.doc.root) [node] [title]
        [.node (Sections.label site.source n title) [Sections.titleTree n title]] s t ∧
      t.sections = node :: outer ∧ Opening marks (node :: outer) t := by
  obtain ⟨m, hm, houter, hlevel⟩ := hopen.titleLevel?_eq hmarks hdepth
  have hclosed : s.sections.drop (s.sections.length + 1 - (outer.length + 1)) = outer := by
    rw [Nat.add_sub_add_right]
    exact (List.suffix_iff_eq_drop.mp hopen.opened).symm
  -- The state when the sections inside `outer` are closed.
  let s₁ : ParseState :=
    { s with styles := (marks.take m).map fun c => ⟨c, none⟩, sections := outer }
  obtain ⟨g, made, hinline, hmade, hmessages, htext⟩ := Parse.inlineParse_plain (s := s₁) htitle.ne_nil
    htitle.plain site n hs
  obtain ⟨g', node, hhang, hhung⟩ := site.hangSection_hung (s := s₁)
    (h := Sections.heading marks outer.length n title) htitle hmade hmessages htext hfresh hs hp
  let t : ParseState :=
    { s₁ with
      doc := { s.doc with
        forest := g'
        names := s.doc.names.set (String.ofList title) ⟨some node, false⟩ }
      sections := node :: outer }
  have hreproduced : Reproduced (outer.headD s.doc.root) [node] [title]
      [.node (Sections.label site.source n title) [Sections.titleTree n title]] s t :=
    { hung := hhung
      rest := rfl
      names := fun name hname =>
        Data.Table.get?_set_of_ne _ _ (hname title (List.mem_singleton_self _)) }
  refine ⟨t, node, ?_, hreproduced, rfl, List.suffix_rfl, m, hm, houter, rfl⟩
  have hcontainer : site.container s₁ = .ok (outer.headD s.doc.root) s₁ := by
    show EStateM.Result.ok (if site.titles then _ else _) s₁ = _
    rw [hsite]
    rfl
  have hcomplaints : site.shortageMessages none (s.sections.length + 1 - (outer.length + 1)) s
      = .ok [] s := rfl
  have henter : site.enterSection (Sections.heading marks outer.length n title)
      (s.sections.length + 1 - (outer.length + 1)) ((marks.take m).map fun c => ⟨c, none⟩) s
        = .ok ⟨⟩ t := by
    unfold enterSection
    refine (Parse.bind_ok hcomplaints _).trans ?_
    rw [Parse.modify_ok, hclosed]
    exact (Parse.bind_ok hcontainer _).trans ((Parse.bind_ok hinline _).trans hhang)
  unfold openSection
  rw [Parse.bind_get]
  dsimp only [Sections.heading]
  rw [hlevel]
  exact henter

end Site

/-! ## Reading an outline -/

namespace Reproduced

variable {p n : NodeId} {ns ms : List NodeId} {ks ls : List Line} {ts us : List Tree}

theorem root (h : Reproduced p ns ks ts s t) : t.doc.root = s.doc.root := by rw [h.rest]

/-- What is claimed in two steps. -/
theorem names_trans (hst : Reproduced p ns ks ts s t) (htu : Reproduced n ms ls us t u) (name : String)
    (hname : ∀ l ∈ ks ++ ls, name ≠ String.ofList l) :
    u.doc.names.get? name = s.doc.names.get? name := by
  obtain ⟨hks, hls⟩ := List.forall_mem_append.mp hname
  rw [htu.names name hls, hst.names name hks]

/-- What is read goes beside what was read. -/
theorem trans (hst : Reproduced p ns ks ts s t) (htu : Reproduced p ms ls us t u)
    (hs : s.doc.forest.WellFormed) : Reproduced p (ns ++ ms) (ks ++ ls) (ts ++ us) s u where
  hung := hst.hung.trans htu.hung hs
  rest := by rw [htu.rest, hst.rest]
  names := hst.names_trans htu

/-- What is read goes into the node that was read. -/
theorem within {label : Node} (hst : Reproduced p [n] ks [.node label ts] s t)
    (htu : Reproduced n ms ls us t u) :
    Reproduced p [n] (ks ++ ls) [.node label (ts ++ us)] s u where
  hung := hst.hung.within htu.hung
  rest := by rw [htu.rest, hst.rest]
  names := hst.names_trans htu

end Reproduced

namespace Site

variable {read : ReadBody}

theorem forM_append {bs : List Block} (h : bs.forM (site.block read) s = .ok ⟨⟩ t) (cs : List Block) :
    (bs ++ cs).forM (site.block read) s = cs.forM (site.block read) t := by
  rw [List.forM_eq_forM, List.forM_append]
  exact Parse.bind_ok h _

/-- Paragraphs are hung up one after the other. -/
theorem paragraphs_hung (read : ReadBody) {ps : List Line} (hps : ∀ p ∈ ps, Prose p) (n : Nat)
    (hs : s.doc.forest.WellFormed) (hp : site.place s < s.doc.forest.size) :
    ∃ g ns, (paragraphBlocks n ps).forM (site.block read) s = .ok ⟨⟩ (s.withForest g) ∧
      Reproduced (site.place s) ns [] (paragraphTrees site.source n ps) s (s.withForest g) := by
  induction ps generalizing n s with
  | nil => exact ⟨s.doc.forest, [], rfl, .refl hs hp, rfl, fun _ _ => rfl⟩
  | cons p ps ih =>
    obtain ⟨hprose, hps⟩ := List.forall_mem_cons.mp hps
    obtain ⟨g, made, hinline, hmade, hmessages, -⟩ := Parse.inlineParse_plain hprose.ne_nil hprose.plain
      site n hs
    obtain ⟨g', i, hrun, hhung⟩ := paragraph_hung hprose.ne_nil hinline hmade hmessages hs hp
    have hfirst : Reproduced (site.place s) [i] []
        [.node { kind := .paragraph, line := n, source := site.source } [.leaf p]] s (s.withForest g') :=
      ⟨hhung, rfl, fun _ _ => rfl⟩
    obtain ⟨h, ns, hrest, hreproduced⟩ := ih hps (n + 2) (s := s.withForest g') hhung.wellFormed
      (Nat.lt_of_lt_of_le hp hhung.size)
    have hblock : site.block read (.paragraph n p none) s = .ok ⟨⟩ (s.withForest g') := hrun
    exact ⟨h, [i] ++ ns, (forM_cons hblock _).trans hrest, hfirst.trans hreproduced hs⟩

/-- **Sections are reproduced.**  By the sections: a title closes what is open
    inside `outer` and opens its section there; what follows is read with that
    section as the innermost, and the sections after it with `outer` again. -/
theorem sections_hung (hsite : site.titles = true) (read : ReadBody) (hmarks : Adornments marks)
    (outer : List NodeId) {ss : Sections} (h : ss.Worded) (hdepth : outer.length + ss.depth ≤ marks.length)
    (hnodup : ss.titles.Nodup) (n : Nat) (hopen : Opening marks outer s)
    (hfresh : ∀ l ∈ ss.titles, s.doc.names.get? (String.ofList l) = none)
    (hs : s.doc.forest.WellFormed) (hp : outer.headD s.doc.root < s.doc.forest.size) :
    ∃ t ns, (ss.blocks marks outer.length n).forM (site.block read) s = .ok ⟨⟩ t ∧
      Reproduced (outer.headD s.doc.root) ns ss.titles (ss.trees site.source n) s t ∧
      Opening marks outer t := by
  induction ss generalizing outer n s with
  | none => exact ⟨s, [], rfl, ⟨.refl hs hp, rfl, fun _ _ => rfl⟩, hopen⟩
  | cons title ps inner after ihInner ihAfter =>
    obtain ⟨htitle, hps, hinner, hafter⟩ := h.uncons
    obtain ⟨hnew, hnodup⟩ := List.nodup_cons.mp hnodup
    obtain ⟨hnodupInner, hnodupAfter, hdisjoint⟩ := List.nodup_append.mp hnodup
    obtain ⟨hfreshTitle, hfreshBelow⟩ := List.forall_mem_cons.mp hfresh
    obtain ⟨hfreshInner, hfreshAfter⟩ := List.forall_mem_append.mp hfreshBelow
    rw [Sections.depth] at hdepth
    -- First the title, which opens the section that its paragraphs are put under.
    obtain ⟨s₁, node, hrun₁, hread₁, hsections₁, hopen₁⟩ := openSection_hung hsite hmarks hopen
      (by omega) htitle n hfreshTitle hs hp
    have hnode : node < s₁.doc.forest.size := hread₁.hung.lt_size List.mem_cons_self
    have hplace : site.place s₁ = node := by
      rw [place, hsite, if_pos rfl, hsections₁]
      rfl
    obtain ⟨g₂, ns₂, hrun₂, hread₂⟩ := paragraphs_hung (s := s₁) read hps (n + 3) hread₁.hung.wellFormed
      (hplace ▸ hnode)
    rw [hplace] at hread₂
    have hopen₂ : Opening marks (node :: outer) (s₁.withForest g₂) :=
      ⟨hopen₁.opened, hopen₁.styles⟩
    have hnames : ∀ l ∈ inner.titles ++ after.titles,
        (s₁.withForest g₂).doc.names.get? (String.ofList l) = s.doc.names.get? (String.ofList l) := by
      refine fun l hl => hread₁.names _ (List.forall_mem_singleton.mpr fun heq => ?_)
      exact hnew (String.ofList_inj.mp heq ▸ hl)
    -- The sections inside it hang under its node, so all three are what is read below the title.
    obtain ⟨s₃, ns₃, hrun₃, hread₃, hopen₃⟩ := ihInner (node :: outer)
      (s := s₁.withForest g₂) hinner (by rw [List.length_cons]; omega) hnodupInner
      (n + 3 + 2 * ps.length) hopen₂
      (fun l hl => (hnames l (List.mem_append_left _ hl)).trans (hfreshInner l hl))
      hread₂.hung.wellFormed (Nat.lt_of_lt_of_le hnode hread₂.hung.size)
    have hbelow := hread₁.within (hread₂.trans hread₃ hread₁.hung.wellFormed)
    have hroot : s₃.doc.root = s.doc.root := hbelow.root
    -- The sections after it hang beside its node.
    obtain ⟨s₄, ns₄, hrun₄, hread₄, hopen₄⟩ := ihAfter outer (s := s₃) hafter (by omega)
      hnodupAfter (n + 3 + 2 * ps.length + inner.height)
      ⟨(List.suffix_cons node outer).trans hopen₃.opened, hopen₃.styles⟩ (fun l hl => by
        rw [hread₃.names _ fun k hk heq => hdisjoint k hk l hl (String.ofList_inj.mp heq).symm,
          hnames l (List.mem_append_right _ hl)]
        exact hfreshAfter l hl) hbelow.hung.wellFormed
      (hroot ▸ Nat.lt_of_lt_of_le hp hbelow.hung.size)
    rw [hroot] at hread₄
    refine ⟨s₄, [node] ++ ns₄, ?_, hbelow.trans hread₄ hs, hopen₄⟩
    have hblock : site.block read (.heading (Sections.heading marks outer.length n title)) s
        = .ok ⟨⟩ s₁ := hrun₁
    rw [List.length_cons] at hrun₃
    rw [Sections.blocks, forM_cons hblock, forM_append hrun₂, forM_append hrun₃, hrun₄]

end Site

/-! ## The document -/

theorem all_paragraphTrees (source : String) (n : Nat) (ps : List Line) :
    (paragraphTrees source n ps).all (Tree.all (·.kind.isOutline)) = true := by
  induction ps generalizing n with
  | nil => rfl
  | cons p ps ih => rw [paragraphTrees, List.all_cons, ih]; rfl

theorem Sections.all_trees (source : String) (n : Nat) (ss : Sections) :
    (ss.trees source n).all (Tree.all (·.kind.isOutline)) = true := by
  induction ss generalizing n with
  | none => rfl
  | cons title ps inner after ihInner ihAfter =>
    rw [trees, List.all_cons, ihAfter, Tree.all, Tree.allOf_eq_all, List.all_cons, List.all_append,
      all_paragraphTrees, ihInner]
    rfl

theorem Outline.all_tree (o : Outline) (source : String) :
    (o.tree source).all (·.kind.isOutline) = true := by
  rw [tree, Tree.all, Tree.allOf_eq_all, List.all_append, all_paragraphTrees, Sections.all_trees]
  rfl

namespace Document

/-- The text of an outline is read without a message, and the document has
    the tree of the outline. -/
theorem parse_outline (hmarks : Adornments marks) {o : Outline} (h : o.Valid)
    (hdepth : o.sections.depth ≤ marks.length) (env : Surroundings) (source : String)
    (settings : Settings) (reporter : Reporter) :
    let d : Document := { new source settings with reporter := reporter }
    ∃ g names, d.parse env (o.text marks) = (.ok (), { d with forest := g, names := names }) ∧
      g.shape d.root = o.tree source ∧ g.Outlined d.root := by
  intro d
  obtain ⟨hps, hsections⟩ := h.worded
  have hd : d.forest.WellFormed := wellFormed_new source settings
  have hroot : d.root < d.forest.size := Nat.zero_lt_one
  let site : Site := d.site env
  let body : Body := ⟨0, o.lines marks⟩
  let read : ReadBody :=
    ⟨Site.readWithin (Site.read env.nesting) body.size, Site.read env.nesting⟩
  obtain ⟨g, ns, hrun, hread⟩ := site.paragraphs_hung (s := { doc := d }) read hps 1 hd hroot
  obtain ⟨t, ms, hrun', hread', -⟩ := Site.sections_hung (s := ParseState.withForest { doc := d } g)
    (show site.titles = true from rfl) read hmarks [] hsections (by simpa using hdepth) h.nodup
    (1 + 2 * o.paragraphs.length) ⟨List.nil_suffix, 0, Nat.zero_le _, Nat.le_refl _, rfl⟩
    (fun l _ => rfl) hread.hung.wellFormed (Nat.lt_of_lt_of_le hroot hread.hung.size)
  have hall := hread.trans hread' hd
  have hblocks : Site.read (env.nesting + 1) site body { doc := d } = .ok ⟨⟩ t := by
    show (Reader.blocks (body.manner true env.conventions.width) 1 (o.lines marks)).forM
      (site.block read) { doc := d } = _
    rw [Outline.blocks_lines rfl (fun _ hl => hl.width_eq env.conventions) hmarks h,
      Site.forM_append hrun]
    exact hrun'
  have hrest : t.doc = { d with forest := t.doc.forest, names := t.doc.names } := hall.rest
  have hshows : t.doc.forest.Shows [d.root] [o.tree source] := by
    have hbare : (t.doc.forest.get d.root).bare = { kind := .document, source := source } :=
      hall.hung.bare d.root hroot
    have hkids : t.doc.forest.children d.root = ns ++ ms :=
      (hall.hung.children d.root hroot).trans (if_pos rfl)
    rw [Outline.tree, ← hbare]
    exact .cons (hkids ▸ hall.hung.shows) .nil
  refine ⟨t.doc.forest, t.doc.names, ?_, ?_, ?_⟩
  · rw [parse_eq, parseText_of_some env (Outline.splitLines?_text hmarks h d.tabWidth)]
    show ((outcome (Site.read (env.nesting + 1) site body { doc := d })).1,
      (outcome (Site.read (env.nesting + 1) site body { doc := d })).2.doc) = _
    rw [hblocks, ← hrest]
    rfl
  · have hshape := hshows.eq_map_shape hall.hung.wellFormed
    rw [List.map_singleton, List.singleton_inj] at hshape
    exact hshape.symm
  · exact .of_shows hall.hung.wellFormed.linked (Nat.lt_of_lt_of_le hroot hall.hung.size) hshows
      (o.all_tree source)

end Document

/-- **Outlines are accepted and reproduced.**  Let the titles of an outline
    be underlined with marks that are different for different depths.  Parsing
    its text raises no message, whoever listens, and the tree of the document
    is that of the outline: the same titles and paragraphs on their lines, in
    the same order and nested in the same way.  Linting it finds nothing. -/
theorem Outline.reproduced {marks : List Char} (hmarks : Adornments marks) {o : Outline} (h : o.Valid)
    (hdepth : o.sections.depth ≤ marks.length) (env : Surroundings) (source : String)
    (settings : Settings) (reporter : Reporter) (l : Linter) (options : LintOptions) :
    let parsed := ({ Document.new source settings with reporter := reporter } : Document).parse env
      (o.text marks)
    let found := (l.lint (o.text marks) options).1
    parsed.1 = .ok () ∧ parsed.2.reporter = reporter ∧
      parsed.2.forest.shape parsed.2.root = o.tree source ∧
      found.records = [] ∧ found.error = none := by
  obtain ⟨g, names, hparse, hshape, -⟩ := Document.parse_outline hmarks h hdepth env source settings
    reporter
  obtain ⟨g', names', hlint, -, houtlined⟩ := Document.parse_outline hmarks h hdepth
    (l.surroundings options) options.source { l.settings with haltLevel := .never, stream := false }
    (l.newDocument options.source).reporter
  obtain ⟨g'', hok, hrun⟩ := Schedule.run_of_outlined (d := { l.newDocument options.source with
    forest := g', names := names' }) rfl houtlined
  have hfound : (l.lint (o.text marks) options).1 = _ :=
    (l.lint_eq_finish (o.text marks) options).trans (congrArg (Linter.finish options.source) hlint)
  have hrecords : (l.lint (o.text marks) options).1.records = [] := by
    have hcollected := congrArg (·.reporter.collected "") hrun
    exact (congrArg LintResult.records hfound).trans (hcollected.trans rfl)
  have herror : (l.lint (o.text marks) options).1.error = none := by
    have hended := congrArg (Linter.passError options.source) hok
    exact (congrArg LintResult.error hfound).trans hended
  intro parsed found
  refine ⟨congrArg Prod.fst hparse, congrArg (·.2.reporter) hparse, ?_, hrecords, herror⟩
  simp only [parsed, hparse]
  exact hshape

/-- An outline whose last title closes three sections, with a mark for every
    one of 32 depths. -/
theorem Outline.reproduced_closing :
    let marks := ((List.range' 0x21 94).map Char.ofNat).filter Pattern.isAdornmentChar
    let deepest : Sections := .cons ['c', 'd'] [['y'], ['z', ' ', 'z']] .none .none
    let o : Outline :=
      { paragraphs := [['o', 'n', 'e', ' ', 't', 'w', 'o']]
        sections := .cons ['a'] [['x']] (.cons ['b'] [] deepest .none) (.cons ['e'] [] .none .none) }
    let l : Linter := { env := { constructs := .standard, files := {}, clock := 0, nesting := 3 } }
    let d := Document.new "d.rst" {}
    let parsed := ({ d with reporter := d.reporter } : Document).parse l.env.surroundings (o.text marks)
    let found := (l.lint (o.text marks) {}).1
    marks.length = 32 ∧ Adornments marks ∧ o.Valid ∧ o.sections.depth ≤ marks.length ∧
      parsed.1 = .ok () ∧ parsed.2.reporter = d.reporter ∧
      parsed.2.forest.shape parsed.2.root = o.tree "d.rst" ∧
      found.records = [] ∧ found.error = none := by
  intro marks deepest o l d parsed found
  have hmarks : Adornments marks :=
    { adorn := fun m hm => (List.mem_filter.mp hm).2
      nodup := by decide +kernel }
  have hvalid : o.Valid :=
    { paragraphs := by decide +kernel
      titles := by decide +kernel
      nodup := by decide +kernel }
  have hlength : marks.length = 32 := by decide +kernel
  have hdepth : o.sections.depth ≤ marks.length := by decide +kernel
  obtain ⟨hok, hreporter, hshape, hnothing⟩ :=
    Outline.reproduced hmarks hvalid hdepth l.env.surroundings "d.rst" {} d.reporter l {}
  -- the tree is not to be computed, so the parse is named before it is compared
  have hparsed : ({ Document.new "d.rst" {} with reporter := d.reporter } : Document).parse
      l.env.surroundings (o.text marks) = parsed := rfl
  rw [hparsed] at hok hreporter hshape
  exact ⟨hlength, hmarks, hvalid, hdepth, hok, hreporter, hshape, hnothing⟩

end MarkupLint
