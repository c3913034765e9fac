import MarkupLint.Proofs.Inclusion
import MarkupLint.Proofs.Outline

/-! # The titles of a text

    `Site.titlesOf` lists the titles of a body where sections may start, with
    those of the files it includes, in the order in which they stand there.
    Reading the body handles these titles in this order and does nothing else
    to the outline: every other block keeps the sections and the styles as
    they are and leaves the old part of the tree alone, whatever bodies it
    hands on (`Site.stays_block`). -/

namespace MarkupLint

open Discipline

/-! ## Steps that keep the outline -/

/-- For documents of one origin: messages that are grave enough are the only
    reason to stop. -/
def License.halting (o : Origin) : License :=
  ⟨(· = o), fun _ => False, fun _ => True, fun _ => True, False, fun _ => trivial⟩

/-- For documents of one origin, everything is allowed. -/
def License.open (o : Origin) : License := { License.any with about := (· = o) }

theorem License.free_open (o : Origin) : (License.open o).Free :=
  ⟨fun _ => trivial, fun _ => trivial, fun _ => trivial⟩

/-- The run stopped at a message of the halt level or above. -/
def ParseState.Halted (e : Stop) (t : ParseState) : Prop :=
  ∃ h : Halt, e = .halted h ∧ t.doc.reporter.haltLevel ≤ h.level

/-- The run came to a result and a state of `P`, or to a reason and a state
    of `Q`. -/
inductive ParseState.Reaches {α : Type} (P : α → ParseState → Prop)
    (Q : Stop → ParseState → Prop) : EStateM.Result Stop ParseState α → Prop
  | ok {a : α} {t : ParseState} (result : P a t) : Reaches P Q (.ok a t)
  | error {e : Stop} {t : ParseState} (reason : Q e t) : Reaches P Q (.error e t)

/-- The run left the outline as it was and came to a result of `P`, or to a
    reason and a state of `Q`. -/
inductive ParseState.Stays {α : Type} (s : ParseState) (P : α → Prop)
    (Q : Stop → ParseState → Prop) : EStateM.Result Stop ParseState α → Prop
  | ok {a : α} {t : ParseState} (result : P a) (same : s.SameOutline t)
    (origin : t.doc.origin = s.doc.origin) : Stays s P Q (.ok a t)
  | error {e : Stop} {t : ParseState} (reason : Q e t) (same : s.SameOutline t)
    (origin : t.doc.origin = s.doc.origin) : Stays s P Q (.error e t)

/-- What is old stays old if fewer nodes count as old. -/
theorem Forest.Grows.weaken {f g : Forest} {n : Nat} (h : f.Grows f.size g) (hn : n ≤ f.size) :
    f.Grows n g where
  size := h.size
  kind i hi := h.kind i (Nat.lt_of_lt_of_le hi hn)
  parent i hi := h.parent i (Nat.lt_of_lt_of_le hi hn)
  children i hi := by
    have hkids := congrArg (List.filter (decide <| · < n)) (h.children i (Nat.lt_of_lt_of_le hi hn))
    have hboth : (fun c : NodeId => decide (c < n) && decide (c < f.size))
        = fun c => decide (c < n) := by
      funext c
      simp only [Bool.and_eq_left_iff_imp, decide_eq_true_eq]
      exact fun hc => Nat.lt_of_lt_of_le hc hn
    simpa only [List.filter_filter, hboth] using hkids
  closed hf i hi c hc := by
    rcases Nat.lt_or_ge c f.size with hcold | hcnew
    · rcases Nat.lt_or_ge i f.size with hiold | hinew
      · have hmem : c ∈ (g.children i).filter (· < f.size) :=
          List.mem_filter.mpr ⟨hc, decide_eq_true hcold⟩
        rw [h.children i hiold] at hmem
        exact hf i hi c (List.mem_of_mem_filter hmem)
      · exact Nat.le_trans hn (h.closed (closed_of_size_le (Nat.le_refl _)) i hinew c hc)
    · exact Nat.le_trans hn hcnew

namespace ParseState

variable {s t u : ParseState} {α : Type} {P : α → Prop}

theorem Stays.imp {Q Q' : Stop → ParseState → Prop} {x : EStateM.Result Stop ParseState α}
    (h : s.Stays P Q x) (hQ : ∀ e t, Q e t → Q' e t) : s.Stays P Q' x := by
  cases h with
  | ok result same origin => exact .ok result same origin
  | error reason same origin => exact .error (hQ _ _ reason) same origin

theorem SameOutline.refl (s : ParseState) : s.SameOutline s := ⟨rfl, rfl, rfl, .refl _ _⟩

theorem SameOutline.trans (hst : s.SameOutline t) (htu : t.SameOutline u) : s.SameOutline u where
  styles := htu.styles.trans hst.styles
  sections := htu.sections.trans hst.sections
  root := htu.root.trans hst.root
  forest := hst.forest.trans (htu.forest.weaken hst.forest.size)

/-- A step that keeps the open sections keeps the outline. -/
theorem stays_of_contract {v w : World} {L : License} {x : Parse α}
    (habout : L.about s.doc.origin)
    (h : Contract (growing v w L s.doc.forest.size True) P x x) :
    s.Stays P (fun e t => L.Stops t.doc e) (x s) := by
  obtain ⟨hgrown, hends, -⟩ := h s s ⟨s.doc, .refl _, rfl⟩
    ⟨Nat.le_refl _, Forest.closed_of_size_le (Nat.le_refl _), habout⟩
  rw [stateAfter_eq] at hgrown
  generalize x s = result at hgrown hends
  have hsame : s.SameOutline (endState result) :=
    ⟨(hgrown.outline trivial).1, (hgrown.outline trivial).2, hgrown.steady.root, hgrown.forest⟩
  cases result with
  | ok a t => exact .ok hends hsame hgrown.steady.origin
  | error e t => exact .error hends hsame hgrown.steady.origin

/-- New nodes may be put anywhere. -/
theorem SameOutline.append (h : s.SameOutline t) (p : NodeId) {nodes : List NodeId}
    (hnodes : AllNew s.doc.forest.size nodes) :
    s.SameOutline { t with doc := { t.doc with forest := t.doc.forest.append p nodes } } where
  styles := h.styles
  sections := h.sections
  root := h.root
  forest := h.forest.trans (.append p hnodes)

/-- With that license, a step stops at messages only. -/
theorem halted_of_stops {o : Origin} {e : Stop} (h : (License.halting o).Stops t.doc e) :
    Halted e t := by
  rcases h with h | ⟨h, rfl, hlevel, -⟩
  · exact h.elim
  · exact ⟨h, rfl, hlevel⟩

end ParseState

/-! ## Refusing a title -/

namespace Site

variable {site : Site} {s : ParseState} {opened : List Opened}

/-- Where sections may start, nodes go to the latest open section. -/
theorem add_run (htitles : site.titles = true) (nodes : List NodeId) (s : ParseState) :
    site.add nodes s = .ok () { s with doc := { s.doc with
      forest := s.doc.forest.append (s.sections.headD s.doc.root) nodes } } := by
  have hcontainer : site.container s = .ok (s.sections.headD s.doc.root) s := by
    show EStateM.Result.ok (if site.titles then _ else _) s = _
    rw [htitles, if_pos rfl]
  rw [add, Contract.bind_run, hcontainer]
  rfl

theorem getLast?_path (s : ParseState) : s.path.getLast? = some (s.sections.headD s.doc.root) := by
  rw [ParseState.path]
  cases s.sections with
  | nil => rfl
  | cons i sections => rw [List.reverse_cons, ← List.cons_append, List.getLast?_concat]; rfl

theorem stays_shortage (site : Site) (p : Option Problem) (count : Nat) (s : ParseState) :
    s.Stays (AllNew s.doc.forest.size) ParseState.Halted (site.shortageMessages p count s) := by
  have h : Contract (growing ⟨site.env.files, site.env.clock⟩ ⟨site.env.files, site.env.clock⟩
      (.halting s.doc.origin) s.doc.forest.size True) (AllNew s.doc.forest.size)
      (site.shortageMessages p count) (site.shortageMessages p count) :=
    site.grow_shortageMessages p count
  exact (ParseState.stays_of_contract rfl h).imp fun _ _ => ParseState.halted_of_stops

/-- The complaint about a title that does not fit. -/
def misfit (site : Site) (h : Heading) : Parse NodeId :=
  Parse.build (site.raise .severe h.line "Title level inconsistent:" (some (String.ofList h.markup)))

theorem misfit_run (site : Site) (h : Heading) (s : ParseState) :
    let x := Title.misfit ⟨site.source, h⟩ s.doc.reporter.source
    ∃ g msg, Document.Says { s.doc with forest := g } msg x ∧ site.misfit h s =
      if s.doc.reporter.haltLevel ≤ .severe then
        .error (.halted x.halt)
          { s with doc := { s.doc with forest := g, reporter := s.doc.reporter.log x } }
      else .ok msg
        { s with doc := { s.doc with forest := g, reporter := (s.doc.reporter.log x).tell x } } := by
  intro x
  obtain ⟨g, msg, hsays, hrun⟩ := Build.raise_run .severe "Title level inconsistent:"
    { line := some h.line, source := site.source, literal := some (String.ofList h.markup) }
    s.doc (show _ = EStateM.Result.ok (x.source, x.line) s.doc from rfl)
  refine ⟨g, msg, hsays, ?_⟩
  unfold misfit Parse.build Site.raise
  by_cases hlevel : s.doc.reporter.haltLevel ≤ .severe
  · rw [if_pos hlevel] at hrun
    simp only [hrun, if_pos hlevel]
    rfl
  · rw [if_neg hlevel] at hrun
    simp only [hrun, if_neg hlevel]
    rfl

theorem stays_misfit (site : Site) (h : Heading) (s : ParseState) :
    s.Stays (s.doc.forest.size ≤ ·) ParseState.Halted (site.misfit h s) := by
  have hraise : Contract (growing ⟨site.env.files, site.env.clock⟩ ⟨site.env.files, site.env.clock⟩
      (.halting s.doc.origin) s.doc.forest.size True) (s.doc.forest.size ≤ ·)
      (site.misfit h) (site.misfit h) :=
    site.grow_raise _ _ _ _ trivial
  exact (ParseState.stays_of_contract rfl hraise).imp fun _ _ => ParseState.halted_of_stops

/-- What says something is in the tree. -/
theorem said_lt_size {d : Document} {msg : NodeId} {x : Notice} (h : d.Says msg x)
    (hlevel : x.level = .severe) : msg < d.forest.size := by
  refine Nat.lt_of_not_le fun hle => ?_
  have hsaid := h.level
  rw [Document.node, Forest.get_of_size_le hle, hlevel] at hsaid
  cases hsaid

/-- The nodes on the path are in the tree. -/
theorem mem_path_lt (hs : s.Outlined opened) {p : NodeId} (hp : p ∈ s.path) :
    p < s.doc.forest.size := by
  have hall : ∀ (below : List NodeId) (i : NodeId), i < s.doc.forest.size →
      (i :: below).IsChain s.doc.forest.Child → ∀ p ∈ i :: below, p < s.doc.forest.size := by
    intro below
    induction below with
    | nil =>
      intro i hi _ p hp
      rw [List.mem_singleton.mp hp]
      exact hi
    | cons j below ih =>
      intro i hi hchain p hp
      rw [List.isChain_cons_cons] at hchain
      rcases List.mem_cons.mp hp with rfl | hp
      · exact hi
      · exact ih j hchain.1.lt_size.2 hchain.2 p hp
  exact hall _ _ hs.root hs.nested p hp

/-- **A title that is admitted at no depth is refused**, unless a message
    about it stops the parser. -/
theorem refuseTitle_spec (htitles : site.titles = true) (h : Heading) (hs : s.Outlined opened)
    (hunfit : ∀ k styles, ¬Admitted s.styles s.sections.length h.style k styles) :
    ParseState.Reaches (fun _ t => s.Refuses ⟨site.source, h⟩ t) (s.HaltsOn ⟨site.source, h⟩)
      (site.refuseTitle h s) := by
  have hdo : site.refuseTitle h = (do
      let messages ← site.shortageMessages h.shortage 0
      site.add messages
      let msg ← site.misfit h
      site.add [msg]) := rfl
  rw [hdo, Contract.bind_run]
  have hshortage := site.stays_shortage h.shortage 0 s
  generalize site.shortageMessages h.shortage 0 s = shortage at hshortage
  cases hshortage with
  | error hhalted same => exact .error ⟨hhalted, fun _ => same⟩
  | @ok messages u hmessages hsu =>
    simp only [Contract.bind_run, add_run htitles]
    generalize hv : ({ u with doc := { u.doc with forest := _ } } : ParseState) = v
    have hsv : s.SameOutline v := hv ▸ hsu.append _ hmessages
    obtain ⟨g, msg, hsays, hrun⟩ := site.misfit_run h v
    have hstays := site.stays_misfit h v
    by_cases hlevel : v.doc.reporter.haltLevel ≤ .severe
    · rw [hrun, if_pos hlevel] at hstays ⊢
      cases hstays with
      | error hhalted same => exact .error ⟨hhalted, fun _ => hsv.trans same⟩
    · rw [hrun, if_neg hlevel] at hstays ⊢
      obtain ⟨hmsg, hvw⟩ : v.doc.forest.size ≤ msg ∧ v.SameOutline _ := by
        cases hstays with
        | ok hmsg same => exact ⟨hmsg, same⟩
      have hsw := hsv.trans hvw
      have hp : v.sections.headD v.doc.root = s.sections.headD s.doc.root := by
        rw [hsv.sections, hsv.root]
      have hlast := getLast?_path s
      have hps := mem_path_lt hs (List.mem_of_getLast? hlast)
      dsimp only at hsw ⊢
      rw [hp]
      refine .ok ⟨hunfit, hsw.append _ (.one (Nat.le_trans hsv.forest.size hmsg)),
        _, msg, _, hlast, hsays, rfl, ?_, rfl⟩
      exact Forest.lastChild_append (Nat.lt_of_lt_of_le hps hsw.forest.size)
        (said_lt_size hsays rfl)

/-! ## Opening a section -/

theorem element_run (n : Node) (kids : List NodeId) (s : ParseState) :
    Parse.build (Build.element n kids) s = .ok s.doc.forest.size { s with doc := { s.doc with
      forest := (s.doc.forest.alloc n).2.append s.doc.forest.size kids } } := rfl

theorem append_run (p : NodeId) (kids : List NodeId) (s : ParseState) :
    Parse.build (Build.append p kids) s = .ok () { s with doc := { s.doc with
      forest := s.doc.forest.append p kids } } := rfl

theorem modify_run (g : ParseState → ParseState) (s : ParseState) :
    (modify g : Parse Unit) s = .ok () (g s) := rfl

/-- The names of a section are noted aside: the nodes there are stay as they
    are, and what is complained about is new. -/
theorem noteTarget_aside (i : NodeId) (s : ParseState) :
    ParseState.Reaches (fun complaints t => AllNew s.doc.forest.size complaints ∧
        s.doc.forest.Spares s.doc.forest.size t.doc.forest ∧ t.styles = s.styles ∧
        t.sections = s.sections) ParseState.Halted
      (Parse.build (Build.noteTarget i false) s) := by
  have hcontract : Contract (aside ⟨{}, 0⟩ ⟨{}, 0⟩ (.halting s.doc.origin) s.doc.forest.size)
      (AllNew s.doc.forest.size) (Build.noteTarget i false) (Build.noteTarget i false) :=
    Build.aside_noteTarget i false
  obtain ⟨hgrown, hends, -⟩ := hcontract s.doc s.doc (.refl _)
    ⟨Nat.le_refl _, Forest.apart_of_size_le (Nat.le_refl _)⟩
  rw [stateAfter_eq] at hgrown
  unfold Parse.build
  generalize Build.noteTarget i false s.doc = noted at hgrown hends
  cases noted with
  | ok complaints d => exact .ok ⟨hends, hgrown.1, rfl, rfl⟩
  | error e d => exact .error (ParseState.halted_of_stops hends)

/-- What is complained about the name of a section is put under it, which
    changes nothing for the section and its parent. -/
theorem noteTarget_under {parent node : NodeId} {u : ParseState}
    (hlast : u.doc.forest.LastChild parent node) (hne : parent ≠ node) :
    ParseState.Reaches (fun _ t => t.styles = u.styles ∧ t.sections = u.sections ∧
        t.doc.forest.LastChild parent node ∧ ∃ kids up, t.doc.node node =
          { u.doc.node node with children := kids, parent := up }) ParseState.Halted
      ((Parse.build (Build.noteTarget node false) >>= fun complaints =>
        Parse.build (Build.append node complaints)) u) := by
  obtain ⟨hparent, hnode⟩ := hlast.child.lt_size
  have hnoted := noteTarget_aside node u
  rw [Contract.bind_run]
  generalize Parse.build (Build.noteTarget node false) u = noted at hnoted
  cases hnoted with
  | error hhalted => exact .error hhalted
  | @ok complaints t hnoted =>
    obtain ⟨hcomplaints, hspares, hstyles, hsections⟩ := hnoted
    have hapart := hspares.apart (Forest.apart_of_size_le (Nat.le_refl _))
    have hput : ∀ j < u.doc.forest.size,
        (t.doc.forest.append node complaints).parent? j = t.doc.forest.parent? j ∧
          (j ≠ node → (t.doc.forest.append node complaints).children j = t.doc.forest.children j) :=
      fun j hj => Forest.get_append_apart hnode (fun c hc q hq => .inl (hapart.2 c hc q hq))
        hcomplaints hj
    refine .ok ⟨hstyles, hsections, ⟨?_, ?_⟩, ?_⟩
    · show ((t.doc.forest.append node complaints).children parent).getLast? = some node
      rw [(hput parent hparent).2 hne, Forest.children, hspares.old parent hparent]
      exact hlast.last
    · show (t.doc.forest.append node complaints).parent? node = some parent
      rw [(hput node hnode).1, Forest.parent?, hspares.old node hnode]
      exact hlast.parent
    · obtain ⟨kids, up, hget⟩ := t.doc.forest.get_append node complaints node
      refine ⟨kids, up, ?_⟩
      show (t.doc.forest.append node complaints).get node = _
      rw [hget, hspares.old node hnode]
      rfl

/-- A section of a title stands last under a parent. -/
structure Hung (site : Site) (h : Heading) (parent node : NodeId) (t : ParseState) : Prop where
  last : t.doc.forest.LastChild parent node
  kind : (t.doc.node node).kind = .division
  line : (t.doc.node node).line = h.line
  source : (t.doc.node node).source = site.source

/-- A new section is put under its parent, and stays the last there whatever
    is said about its title. -/
theorem hangSection_spec (site : Site) (h : Heading) {parent : NodeId} (made : Inlined)
    (messages : List NodeId) {s : ParseState} (hparent : parent < s.doc.forest.size) :
    ParseState.Reaches (fun _ t => ∃ node, t.styles = s.styles ∧ t.sections = node :: s.sections ∧
        site.Hung h parent node t) ParseState.Halted
      (site.hangSection h parent made messages s) := by
  let blank : Node :=
    { kind := .division, line := h.line, source := site.source, names := [normalizeName made.text] }
  have hdo : site.hangSection h parent made messages = (do
      let title ← Parse.build (Build.element { kind := .title, line := h.line } made.nodes)
      let node ← Parse.build (Build.element blank (title :: messages ++ made.messages))
      Parse.build (Build.append parent [node])
      modify fun s => { s with sections := node :: s.sections }
      let complaints ← Parse.build (Build.noteTarget node false)
      Parse.build (Build.append node complaints)) := rfl
  rw [hdo]
  rw [Contract.bind_run, element_run]
  dsimp only
  rw [Contract.bind_run, element_run]
  dsimp only
  -- With the title there is `f`, and with the section over it `g`.
  generalize hf : (s.doc.forest.alloc _).2.append s.doc.forest.size made.nodes = f
  have hsize : parent < f.size := by
    rw [← hf, Forest.size_append, Forest.size_alloc]
    exact Nat.lt_succ_of_lt hparent
  generalize hkids : s.doc.forest.size :: messages ++ made.messages = kids
  generalize hg : (f.alloc blank).2.append f.size kids = g
  have hinside : f.size < g.size := by
    rw [← hg, Forest.size_append, Forest.size_alloc]
    exact Nat.lt_succ_self _
  have hlast : (g.append parent [f.size]).LastChild parent f.size :=
    Forest.lastChild_append (Nat.lt_trans hsize hinside) hinside
  have hnode : ∃ kids up, (g.append parent [f.size]).get f.size
      = { blank with children := kids, parent := up } := by
    obtain ⟨kids₁, up₁, hget₁⟩ := g.get_append parent [f.size] f.size
    obtain ⟨kids₂, up₂, hget₂⟩ := (f.alloc blank).2.get_append f.size kids f.size
    rw [hg, Forest.get_alloc, if_pos rfl] at hget₂
    exact ⟨kids₁, up₁, by rw [hget₁, hget₂]⟩
  rw [Contract.bind_run, append_run]
  dsimp only
  rw [Contract.bind_run, modify_run]
  dsimp only
  generalize hu : (ParseState.mk _ s.roles s.styles (f.size :: s.sections)) = u
  -- The section is the last child of its parent by then, and stays it while its name is noted.
  have huforest : u.doc.forest = g.append parent [f.size] := by rw [← hu]
  have hunder := noteTarget_under (u := u) (huforest ▸ hlast) (Nat.ne_of_lt hsize)
  generalize (Parse.build (Build.noteTarget f.size false) >>= fun complaints =>
    Parse.build (Build.append f.size complaints)) u = result at hunder
  cases hunder with
  | error hhalted => exact .error hhalted
  | @ok _ t hunder =>
    obtain ⟨hstyles, hsections, hplaced, kids', up', hsame⟩ := hunder
    obtain ⟨kids, up, hget⟩ := hnode
    have hfinal : ∃ kids up, t.doc.node f.size = { blank with children := kids, parent := up } := by
      refine ⟨kids', up', ?_⟩
      rw [hsame, Document.node, huforest, hget]
    obtain ⟨kids, up, hfinal⟩ := hfinal
    exact .ok ⟨f.size, hstyles.trans (hu ▸ rfl), hsections.trans (hu ▸ rfl), hplaced,
      by rw [hfinal], by rw [hfinal], by rw [hfinal]⟩

/-- The path when sections are closed. -/
theorem path_closed {level : Nat} (hpos : 0 < level) (hle : level ≤ s.sections.length + 1) :
    s.doc.root :: (s.sections.drop (s.sections.length + 1 - level)).reverse = s.path.take level := by
  obtain ⟨level, rfl⟩ := Nat.exists_eq_succ_of_ne_zero (Nat.ne_of_gt hpos)
  have hclosed : s.sections.length + 1 - level.succ = s.sections.length - level := by omega
  rw [ParseState.path, List.take_succ_cons, List.take_reverse, hclosed]

theorem stays_inline (site : Site) (text : List Char) (line : Nat) (s : ParseState) :
    s.Stays (Inlined.New s.doc.forest.size) ParseState.Halted (Parse.inlineParse site text line s) := by
  have h : Contract (growing ⟨site.env.files, site.env.clock⟩ ⟨site.env.files, site.env.clock⟩
      (.halting s.doc.origin) s.doc.forest.size True) (Inlined.New s.doc.forest.size)
      (Parse.inlineParse site text line) (Parse.inlineParse site text line) :=
    Parse.grow_inlineParse site _ _
  exact (ParseState.stays_of_contract rfl h).imp fun _ _ => ParseState.halted_of_stops

/-- What entering a section comes to: some sections are closed, and the new
    one goes under the latest that is still open. -/
theorem enterSection_run (htitles : site.titles = true) (h : Heading) (closed : Nat)
    (styles : List TitleStyle) {parent : NodeId}
    (hparent : (s.sections.drop closed).headD s.doc.root = parent)
    (hinside : parent < s.doc.forest.size) :
    ParseState.Reaches (fun _ t => ∃ node, t.styles = styles ∧
        t.sections = node :: s.sections.drop closed ∧ site.Hung h parent node t) ParseState.Halted
      (site.enterSection h closed styles s) := by
  have hdo : site.enterSection h closed styles = (do
      let messages ← site.shortageMessages h.shortage closed
      modify fun s => { s with styles := styles, sections := s.sections.drop closed }
      let parent ← site.container
      let made ← Parse.inlineParse site h.text h.line
      site.hangSection h parent made messages) := rfl
  rw [hdo, Contract.bind_run]
  have hshortage := site.stays_shortage h.shortage closed s
  generalize site.shortageMessages h.shortage closed s = shortage at hshortage
  cases hshortage with
  | error hhalted => exact .error hhalted
  | @ok messages u hmessages hsu =>
    dsimp only
    rw [Contract.bind_run, modify_run]
    dsimp only
    -- Where the sections are closed, the parent is the innermost one that is still open.
    generalize hw : (ParseState.mk u.doc u.roles styles (u.sections.drop closed)) = w
    have hwdoc : w.doc = u.doc := by rw [← hw]
    have hwstyles : w.styles = styles := by rw [← hw]
    have hwsections : w.sections = s.sections.drop closed := by rw [← hw, ← hsu.sections]
    have hcontainer : site.container w = .ok parent w := by
      show EStateM.Result.ok (if site.titles then _ else _) w = _
      rw [htitles, if_pos rfl, hwsections, hwdoc, hsu.root, hparent]
    rw [Contract.bind_run, hcontainer]
    dsimp only
    rw [Contract.bind_run]
    have hinline := site.stays_inline h.text h.line w
    generalize Parse.inlineParse site h.text h.line w = inlined at hinline
    cases hinline with
    | error hhalted => exact .error hhalted
    | @ok made x hmade hwx =>
      have hsize : s.doc.forest.size ≤ x.doc.forest.size := by
        have hwsize := hwx.forest.size
        rw [hwdoc] at hwsize
        exact Nat.le_trans hsu.forest.size hwsize
      have hhung := site.hangSection_spec h made messages (Nat.lt_of_lt_of_le hinside hsize)
      dsimp only
      generalize site.hangSection h parent made messages x = result at hhung
      cases hhung with
      | error hhalted => exact .error hhalted
      | ok hhung =>
        obtain ⟨node, hstyles, hsections, hrest⟩ := hhung
        exact .ok ⟨node, hstyles.trans (hwx.styles.trans hwstyles),
          hsections.trans (by rw [hwx.sections, hwsections]), hrest⟩

/-- **A title that is admitted opens a section**, unless a message about it
    stops the parser. -/
theorem enterSection_spec (htitles : site.titles = true) (h : Heading) (hs : s.Outlined opened)
    {level : Nat} {styles : List TitleStyle}
    (hadmitted : Admitted s.styles s.sections.length h.style level styles) :
    ParseState.Reaches (fun _ t => ∃ node, s.Accepts opened ⟨site.source, h⟩ ⟨level, node⟩ t)
      (s.HaltsOn ⟨site.source, h⟩)
      (site.enterSection h (s.sections.length + 1 - level) styles s) := by
  have hpos := hadmitted.pos
  have hle := hadmitted.le
  have hpath := path_closed (s := s) hpos hle
  have hlast : (s.path.take level).getLast?
      = some ((s.sections.drop (s.sections.length + 1 - level)).headD s.doc.root) := by
    rw [← hpath]
    exact getLast?_path { s with sections := s.sections.drop (s.sections.length + 1 - level) }
  have hinside := mem_path_lt hs (List.mem_of_mem_take (List.mem_of_getLast? hlast))
  -- On the whole, the tree only grows.
  have hwhole : Contract (growing ⟨site.env.files, site.env.clock⟩
      ⟨site.env.files, site.env.clock⟩ (.halting s.doc.origin) s.doc.forest.size False) Anything
      (site.enterSection h (s.sections.length + 1 - level) styles)
      (site.enterSection h (s.sections.length + 1 - level) styles) :=
    site.grow_enterSection h _ styles id
  obtain ⟨hgrown, -, -⟩ := hwhole s s ⟨s.doc, .refl _, rfl⟩
    ⟨Nat.le_refl _, Forest.closed_of_size_le (Nat.le_refl _), rfl⟩
  have hrun := enterSection_run htitles h _ styles rfl hinside
  rw [stateAfter_eq] at hgrown
  generalize site.enterSection h _ styles s = result at hgrown hrun
  cases hrun with
  | error hhalted => exact .error ⟨hhalted, fun hunfit => absurd hadmitted (hunfit _ _)⟩
  | @ok _ t hrun =>
    obtain ⟨node, hstyles, hsections, hhung⟩ := hrun
    have hroot : t.doc.root = s.doc.root := hgrown.steady.root
    have hbelow : level - 1 ≤ s.sections.length := by omega
    refine .ok ⟨node, ?_, ⟨hpos, hbelow⟩, ?_, ⟨_, ?_, hhung.last⟩,
      ⟨hhung.kind, hhung.line, hhung.source⟩, hgrown.forest⟩
    · rw [hstyles]
      exact hadmitted
    · rw [← hpath, ParseState.path, hsections, hroot, List.reverse_cons, List.cons_append]
    · have hlength : level - 1 < s.path.length := by
        rw [ParseState.length_path]
        omega
      rw [hs.latest _ hbelow, ← hlast, List.getLast?_take, if_neg (Nat.ne_of_gt hpos),
        List.getElem?_eq_getElem hlength, Option.some_or]

/-- A title opens a section or is refused, as it is admitted or not. -/
theorem openSection_spec (htitles : site.titles = true) (h : Heading) (hs : s.Outlined opened) :
    ParseState.Reaches
      (fun _ t => (∃ o, s.Accepts opened ⟨site.source, h⟩ o t) ∨ s.Refuses ⟨site.source, h⟩ t)
      (s.HaltsOn ⟨site.source, h⟩) (site.openSection h s) := by
  have hget : (get : Parse ParseState) s = .ok s s := rfl
  cases hlevel : titleLevel? s.styles s.sections.length h.style with
  | none =>
    have hrun : site.openSection h s = site.refuseTitle h s := by
      simp only [openSection, Contract.bind_run, hget, hlevel]
    have hrefused := refuseTitle_spec htitles h hs fun k styles hadmitted => by
      rw [(titleLevel?_eq_some_iff hs.distinct).mpr hadmitted] at hlevel
      cases hlevel
    rw [hrun]
    generalize site.refuseTitle h s = result at hrefused
    cases hrefused with
    | ok hrefuses => exact .ok (.inr hrefuses)
    | error hhalts => exact .error hhalts
  | some found =>
    obtain ⟨level, styles⟩ := found
    have hrun : site.openSection h s
        = site.enterSection h (s.sections.length + 1 - level) styles s := by
      simp only [openSection, Contract.bind_run, hget, hlevel]
    have hentered := enterSection_spec htitles h hs ((titleLevel?_eq_some_iff hs.distinct).mp hlevel)
    rw [hrun]
    generalize site.enterSection h _ styles s = result at hentered
    cases hentered with
    | ok hentered =>
      obtain ⟨node, haccepts⟩ := hentered
      exact .ok (.inl ⟨_, haccepts⟩)
    | error hhalts => exact .error hhalts

end Site

/-! ## Included bodies -/

namespace Call

/-- The body that a use of the directive for inclusion reads in its place,
    with the site it is read at, if it reads one. -/
def includedBody? (c : Call) (o : Origin) : Option (Site × Body) := do
  let path ← (c.includePath o.source).toOption
  let text ← (c.includedText path (c.site.env.readText path (c.option "encoding"))).toOption
  if c.isVerbatim then none
  else
    let lines ← splitLines? (c.tabWidth o.tabWidth) text
    some (c.includedSite path c.site.parent, ⟨0, lines⟩)

variable {c : Call} {o : Origin}

theorem includedBody?_eq_some {site : Site} {body : Body} :
    c.includedBody? o = some (site, body) ↔ ∃ path text lines,
      c.includePath o.source = .ok path ∧
      c.includedText path (c.site.env.readText path (c.option "encoding")) = .ok text ∧
      c.isVerbatim = false ∧ splitLines? (c.tabWidth o.tabWidth) text = some lines ∧
      site = c.includedSite path c.site.parent ∧ body = ⟨0, lines⟩ := by
  have htoOption : ∀ {α : Type} {x : Except Complaint α} {a : α},
      x.toOption = some a ↔ x = .ok a := by
    rintro α (_ | _) a <;> simp [Except.toOption]
  simp only [includedBody?, Option.bind_eq_bind, Option.bind_eq_some_iff, htoOption]
  constructor
  · rintro ⟨path, hpath, text, htext, hrest⟩
    cases hverbatim : c.isVerbatim with
    | true => simp [hverbatim] at hrest
    | false =>
      simp only [hverbatim, Bool.false_eq_true, if_false, Option.bind_eq_some_iff] at hrest
      obtain ⟨lines, hlines, heq⟩ := hrest
      cases heq
      exact ⟨path, text, lines, hpath, htext, rfl, hlines, rfl, rfl⟩
  · rintro ⟨path, text, lines, hpath, htext, hverbatim, hlines, rfl, rfl⟩
    refine ⟨path, hpath, text, htext, ?_⟩
    simp only [hverbatim, Bool.false_eq_true, if_false, Option.bind_eq_some_iff]
    exact ⟨lines, hlines, rfl⟩

/-- Only a body that a use of the directive for inclusion reads can have
    titles of sections. -/
theorem calm_of_includedBody?_none {L : License} {d : Directive} (habout : ∀ o', L.about o' → o' = o)
    (h : d = .standard .includeFile → c.includedBody? o = none) : c.Calm L d := by
  intro o' file site body ho' hhands
  obtain rfl := habout o' ho'
  cases hhands with
  | content | cell | filed => rfl
  | included admitted chosen plain split parent =>
    have hsome := includedBody?_eq_some.mpr ⟨_, _, _, admitted, chosen, plain, split, rfl, rfl⟩
    rw [h rfl] at hsome
    cases hsome

/-- The body is read where the next block goes, once the document depends on
    its file. -/
theorem includeFile_run {site : Site} {body : Body} {s : ParseState} (read : ReadBody)
    (h : c.includedBody? s.doc.origin = some (site, body)) :
    ∃ path parent, (c.includeFile read).run s =
      (read.file { site with parent := parent } body >>= fun _ => pure (.ok []))
        { s with doc := s.doc.addDependency path } := by
  obtain ⟨path, text, lines, hpath, htext, hverbatim, hlines, rfl, rfl⟩ :=
    includedBody?_eq_some.mp h
  rw [Document.origin_source] at hpath
  rw [Document.origin_tabWidth] at hlines
  let t : ParseState := { s with doc := s.doc.addDependency path }
  have hdocument : Parse.document s = .ok s.doc s := rfl
  have hfile : c.readFile path s
      = .ok (c.site.env.readText path (c.option "encoding")) t := rfl
  have hexpanded : (expanded (some lines) : Run _) = pure lines := rfl
  have hcontainer : c.site.container t
      = .ok (if c.site.titles then s.sections.headD s.doc.root else c.site.parent) t := rfl
  refine ⟨path, if c.site.titles then s.sections.headD s.doc.root else c.site.parent, ?_⟩
  unfold includeFile
  rw [Run.bind_lift hdocument, hpath, Run.bind_ok, Run.bind_lift hfile, htext, Run.bind_ok,
    hverbatim, if_neg Bool.false_ne_true, hlines, hexpanded, pure_bind, Run.bind_lift hcontainer,
    Run.lift_pure]
  rfl

end Call

/-! ## The titles of a body -/

namespace Site

/-- The titles that a block of a body stands for where sections may start:
    it is one, or it includes a body, which has the titles that `inner`
    lists. -/
def titlesIn (o : Origin) (inner : Site → Body → List Title) (site : Site) : Block → List Title
  | .heading h => [⟨site.source, h⟩]
  | .explicit line lines markup =>
    match site.call? lines line (String.ofList markup) with
    | some (.standard .includeFile, c) =>
      ((c.includedBody? o).map fun (site', body) => inner site' body).getD []
    | _ => []
  | _ => []

/-- The titles of a body where sections may start, with those of the files
    that it includes, in the order in which they stand there; at most `count`
    files are inside one another. -/
def titlesOf (o : Origin) : Nat → Site → Body → List Title
  | 0, _, _ => []
  | count + 1, site, body => (site.blocks body).flatMap (site.titlesIn o (titlesOf o count))

/-- The site of another node. -/
abbrev onto (site : Site) (p : NodeId) : Site := { site with parent := p }

/-- The use of a directive does not depend on the node its body belongs to. -/
theorem call?_onto (site : Site) (p : NodeId) (lines : List Line) (line : Nat) (markup : String) :
    (site.onto p).call? lines line markup = (site.call? lines line markup).map fun found =>
      (found.1, { found.2 with site := found.2.site.onto p }) := by
  simp only [call?, callAt?]
  split
  · rfl
  · split
    · simp only [callIn?]
      cases site.env.directive? _ with
      | none => rfl
      | some d =>
        dsimp only
        cases d.spec.read _ _ <;> rfl
    · rfl

theorem includedBody?_onto (c : Call) (p : NodeId) (o : Origin) :
    Call.includedBody? { c with site := c.site.onto p } o
      = (c.includedBody? o).map fun found => (found.1.onto p, found.2) := by
  have hpath : Call.includePath { c with site := c.site.onto p } = c.includePath := rfl
  have htext : Call.includedText { c with site := c.site.onto p } = c.includedText := rfl
  have hverbatim : Call.isVerbatim { c with site := c.site.onto p } = c.isVerbatim := rfl
  have hoption : Call.option { c with site := c.site.onto p } = c.option := rfl
  have hwidth : Call.tabWidth { c with site := c.site.onto p } = c.tabWidth := rfl
  simp only [Call.includedBody?, hpath, htext, hverbatim, hoption, hwidth, Option.bind_eq_bind,
    Option.map_bind]
  congr 1
  funext path
  dsimp only [Function.comp_def]
  rw [Option.map_bind]
  congr 1
  funext text
  dsimp only [Function.comp_def]
  cases c.isVerbatim
  · simp only [Bool.false_eq_true, if_false, Option.map_bind]
    rfl
  · rfl

/-- Nor do the titles. -/
theorem titlesOf_onto (o : Origin) (count : Nat) (site : Site) (p : NodeId) (body : Body) :
    titlesOf o count (site.onto p) body = titlesOf o count site body := by
  induction count generalizing site body with
  | zero => rfl
  | succ count ih =>
    have hin : (site.onto p).titlesIn o (titlesOf o count) = site.titlesIn o (titlesOf o count) := by
      funext block
      cases block with
      | explicit line lines markup =>
        simp only [titlesIn, call?_onto]
        cases hcall : site.call? lines line (String.ofList markup) with
        | none => rfl
        | some found =>
          obtain ⟨d, c⟩ := found
          rw [Option.map_some]
          split
          · rename_i hd
            cases hd
            simp only [includedBody?_onto, Option.map_map, Function.comp_def, ih]
          · rename_i hd
            split
            · rename_i heq
              cases heq
              exact absurd rfl (hd _)
            · rfl
      | _ => rfl
    show List.flatMap _ (site.blocks body) = _
    rw [hin]
    rfl

end Site

/-! ## Reading the titles one after the other -/

/-- How a run ended that was to handle some titles: it went through them all;
    it stopped between two of them; or it stopped at a message about one. -/
inductive Ended {α : Type} (start : ParseState) (titles : List Title) :
    EStateM.Result Stop ParseState α → Prop
  | through {a : α} {opened : List Opened} {t : ParseState}
      (processed : Processed start titles opened t) (origin : t.doc.origin = start.doc.origin) :
    Ended start titles (.ok a t)
  | stopped {met rest : List Title} {opened : List Opened} {e : Stop} {t : ParseState}
      (split : titles = met ++ rest) (processed : Processed start met opened t) :
    Ended start titles (.error e t)
  | halted {met rest : List Title} {title : Title} {opened : List Opened} {e : Stop}
      {s t : ParseState} (split : titles = met ++ title :: rest)
      (processed : Processed start met opened s) (halts : s.HaltsOn title e t) :
    Ended start titles (.error e t)

/-- Whatever titles were handled before, a step handles some more. -/
def Meets {α : Type} (start : ParseState) (titles : List Title) (x : Parse α) : Prop :=
  ∀ met opened s, Processed start met opened s → s.doc.origin = start.doc.origin →
    Ended start (met ++ titles) (x s)

namespace Meets

variable {α β : Type} {start : ParseState} {titles titles' : List Title}

/-- A step that keeps the outline handles no titles. -/
theorem of_stays {x : Parse α} {P : α → Prop} {Q : Stop → ParseState → Prop}
    (h : ∀ s : ParseState, s.doc.origin = start.doc.origin → s.Stays P Q (x s)) : Meets start [] x := by
  intro met opened s hs horigin
  have hstays := h s horigin
  rw [List.append_nil]
  generalize x s = result at hstays
  cases hstays with
  | ok _ same origin => exact .through (hs.between same) (origin.trans horigin)
  | error _ same => exact .stopped (List.append_nil _).symm (hs.between same)

theorem bind {x : Parse α} {f : α → Parse β} (hx : Meets start titles x)
    (hf : ∀ a, Meets start titles' (f a)) : Meets start (titles ++ titles') (x >>= f) := by
  intro met opened s hs horigin
  have hfirst := hx met opened s hs horigin
  rw [Contract.bind_run, ← List.append_assoc]
  generalize x s = result at hfirst
  cases hfirst with
  | through processed origin => exact hf _ _ _ _ processed origin
  | stopped split processed =>
    exact .stopped (by rw [split, List.append_assoc]) processed
  | halted split processed halts =>
    exact .halted (by rw [split, List.append_assoc, List.cons_append]) processed halts

theorem forM {γ : Type} {f : γ → Parse Unit} {g : γ → List Title} {xs : List γ}
    (h : ∀ a ∈ xs, Meets start (g a) (f a)) : Meets start (xs.flatMap g) (xs.forM f) := by
  induction xs with
  | nil =>
    show Meets start [] (pure ())
    exact of_stays (P := Anything) (Q := fun _ _ => False) fun s _ => .ok trivial (.refl s) rfl
  | cons a xs ih =>
    obtain ⟨ha, hxs⟩ := List.forall_mem_cons.mp h
    exact ha.bind fun _ => ih hxs

end Meets

namespace Site

variable {site : Site} {start : ParseState}

/-- A block that is no title and includes no body keeps the outline. -/
theorem stays_block {s : ParseState} (count depth : Nat) (block : Block)
    (hheading : ∀ h, block ≠ .heading h)
    (hnone : ∀ line lines markup c, block = .explicit line lines markup →
      site.call? lines line (String.ofList markup) = some (.standard .includeFile, c) →
      c.includedBody? s.doc.origin = none) :
    s.Stays Anything (fun _ _ => True)
      (site.block ⟨readWithin (read count) depth, read count⟩ block s) := by
  let w : World := ⟨site.env.files, site.env.clock⟩
  have hcovers : (License.open s.doc.origin).Covers site.env :=
    (License.free_open s.doc.origin).covers _
  have hgrow : Contract (growing w w (.open s.doc.origin) s.doc.forest.size True) Anything
      (site.block ⟨readWithin (read count) depth, read count⟩ block)
      (site.block ⟨readWithin (read count) depth, read count⟩ block) := site.grow_block block ?_ ?_
  · exact (ParseState.stays_of_contract rfl hgrow).imp fun _ _ _ => trivial
  · cases block with
    | heading h => exact absurd rfl (hheading h)
    | explicit line lines markup =>
      intro d c hcall
      refine ⟨fun _ => Call.calm_of_includedBody?_none (fun _ => id) ?_,
        Call.licensed_of_free (License.free_open _) _ _⟩
      rintro rfl
      obtain ⟨name, -, -, block, -, rfl⟩ := call?_eq_some hcall
      exact hnone _ _ _ _ rfl hcall
    | _ => trivial
  · intro o file site' body _ hhands htitles
    have henv : site'.env.under w = site.env := congrArg (Surroundings.under · w) hhands.env
    rw [← hhands.under_eq]
    cases file with
    | none =>
      exact grow_readWithin hcovers (fun site'' body'' => grow_read hcovers site'' count body'')
        depth body henv htitles
    | some _ => exact grow_read hcovers site' count body henv htitles

/-- What becomes of an included body after it was read keeps the outline. -/
theorem stays_included (lines : List Line) (line : Nat) (markup : String) (s : ParseState) :
    s.Stays Anything (fun _ _ => True)
      ((site.concluded lines line markup [] >>= site.add) s) := by
  have hcontract : Contract (growing ⟨site.env.files, site.env.clock⟩
      ⟨site.env.files, site.env.clock⟩ (.open s.doc.origin) s.doc.forest.size True) Anything
      (site.concluded lines line markup [] >>= site.add)
      (site.concluded lines line markup [] >>= site.add) :=
    .bind (site.grow_concluded lines line markup (.nil _)) fun _ hnodes => site.grow_add hnodes
  exact (ParseState.stays_of_contract rfl hcontract).imp fun _ _ _ => trivial

/-- A title is handled. -/
theorem meets_openSection (hstart : start.Outlined []) (htitles : site.titles = true)
    (h : Heading) : Meets start [⟨site.source, h⟩] (site.openSection h) := by
  intro met opened s hs horigin
  have hopened := openSection_spec htitles h (hs.outlined hstart)
  have hcontract : Contract (growing ⟨site.env.files, site.env.clock⟩
      ⟨site.env.files, site.env.clock⟩ (.open s.doc.origin) s.doc.forest.size False) Anything
      (site.openSection h) (site.openSection h) := site.grow_openSection h id
  obtain ⟨hgrown, -, -⟩ := hcontract s s ⟨s.doc, .refl _, rfl⟩
    ⟨Nat.le_refl _, Forest.closed_of_size_le (Nat.le_refl _), rfl⟩
  rw [stateAfter_eq] at hgrown
  generalize site.openSection h s = result at hopened hgrown
  cases hopened with
  | error halts => exact .halted rfl hs halts
  | ok handled =>
    have hend := hgrown.steady.origin.trans horigin
    rcases handled with ⟨o, haccepts⟩ | hrefuses
    · exact .through (hs.accepted haccepts) hend
    · exact .through (hs.refused hrefuses) hend

/-- A use of the directive for inclusion handles the titles of the body that
    it includes. -/
theorem meets_included {lines : List Line} {line : Nat} {markup : String} {count depth : Nat}
    {c : Call} {site' : Site} {body : Body}
    (hfile : ∀ (site : Site) (body : Body), site.titles = true →
      Meets start (titlesOf start.doc.origin count site body) (read count site body))
    (htitles : site.titles = true)
    (hcall : site.call? lines line markup = some (.standard .includeFile, c))
    (hbody : c.includedBody? start.doc.origin = some (site', body)) :
    Meets start (titlesOf start.doc.origin count site' body) (do
      site.add (← site.explicit ⟨readWithin (read count) depth, read count⟩ lines line markup)) := by
  intro met opened s hs horigin
  obtain ⟨shown, hexplicit⟩ := explicit_of_call? hcall
  have htitles' : site'.titles = true := by
    obtain ⟨_, -, -, _, -, rfl⟩ := call?_eq_some hcall
    obtain ⟨_, _, _, -, -, -, -, rfl, -⟩ := Call.includedBody?_eq_some.mp hbody
    exact htitles
  obtain ⟨path, parent, hinclude⟩ := Call.includeFile_run (s := s)
    ⟨readWithin (read count) depth, read count⟩ (horigin ▸ hbody)
  change _ = (read count (site'.onto parent) body >>= fun _ => pure (Except.ok [])) _ at hinclude
  generalize ht : ({ s with doc := s.doc.addDependency path } : ParseState) = t at hinclude
  have hsame : s.SameOutline t := ht ▸ ⟨rfl, rfl, rfl, .refl _ _⟩
  have hrest : Meets start (titlesOf start.doc.origin count site' body)
      (read count (site'.onto parent) body >>= fun _ =>
        site.concluded lines line markup [] >>= site.add) := by
    rw [← titlesOf_onto _ _ _ parent, ← List.append_nil (titlesOf _ _ _ _)]
    exact (hfile (site'.onto parent) body htitles').bind fun _ =>
      .of_stays fun s _ => stays_included lines line markup s
  have hrun : (site.explicit ⟨readWithin (read count) depth, read count⟩ lines line markup
      >>= site.add) s = (read count (site'.onto parent) body >>= fun _ =>
        site.concluded lines line markup [] >>= site.add) t := by
    rw [hexplicit, bind_assoc, Contract.bind_run,
      show (c.run _ shown (.standard .includeFile)).run s = _ from hinclude, Contract.bind_run,
      Contract.bind_run]
    cases read count (site'.onto parent) body t <;> rfl
  exact hrun ▸ hrest met opened t (hs.between hsame) (ht ▸ horigin)

/-- **A block handles the titles it stands for**, if bodies of files are read
    so. -/
theorem meets_block (hstart : start.Outlined []) (htitles : site.titles = true)
    (count depth : Nat)
    (hfile : ∀ (site : Site) (body : Body), site.titles = true →
      Meets start (titlesOf start.doc.origin count site body) (read count site body))
    (block : Block) :
    Meets start (site.titlesIn start.doc.origin (titlesOf start.doc.origin count) block)
      (site.block ⟨readWithin (read count) depth, read count⟩ block) := by
  have hquiet : (∀ h, block ≠ .heading h) →
      (∀ line lines markup c, block = .explicit line lines markup →
        site.call? lines line (String.ofList markup) = some (.standard .includeFile, c) →
        c.includedBody? start.doc.origin = none) →
      Meets start [] (site.block ⟨readWithin (read count) depth, read count⟩ block) :=
    fun hheading hnone met opened s hs horigin =>
      Meets.of_stays (fun s horigin => stays_block count depth block hheading
        (horigin ▸ hnone)) met opened s hs horigin
  cases block with
  | heading h => exact meets_openSection hstart htitles h
  | explicit line lines markup =>
    simp only [titlesIn]
    split
    · rename_i c hcall
      cases hbody : c.includedBody? start.doc.origin with
      | none =>
        refine hquiet nofun fun line' lines' markup' c' heq hcall' => ?_
        cases heq
        cases hcall.symm.trans hcall'
        exact hbody
      | some found => exact meets_included hfile htitles hcall hbody
    · rename_i hother
      refine hquiet nofun fun line' lines' markup' c heq hcall => ?_
      cases heq
      exact absurd hcall (hother c)
  | _ => exact hquiet (fun _ h => by cases h) fun _ _ _ _ h => by cases h

/-- A body handles its titles in the order in which they stand in it. -/
theorem meets_read (hstart : start.Outlined []) (count : Nat) (site : Site) (body : Body)
    (htitles : site.titles = true) :
    Meets start (titlesOf start.doc.origin count site body) (read count site body) := by
  induction count generalizing site body with
  | zero =>
    intro met opened s hs horigin
    exact .stopped rfl hs
  | succ count ih =>
    exact Meets.forM fun block _ => meets_block hstart htitles count body.size ih block

end Site

namespace Document

/-- The titles of a text, with those of the files that it includes where
    sections may start, in the order in which they stand there. -/
def titles (d : Document) (env : Surroundings) (text : List Char) : List Title :=
  match splitLines? d.tabWidth text with
  | some lines => Site.titlesOf d.origin (env.nesting + 1) (d.site env) ⟨0, lines⟩
  | none => []

/-- **Sections are opened as the titles say.**  Parsing a text handles its
    titles one after the other, from no open section and no style; it opens a
    section for each title that is admitted, complains about each of the
    others, and changes the outline in no other way.  At every time on the
    way the styles are different from each other and each open section is a
    child of the one before it. -/
theorem sections_follow_titles (d : Document) (env : Surroundings) (text : List Char)
    (hroot : d.root < d.forest.size) :
    Ended { doc := d } (d.titles env text) (parseText env text { doc := d }) ∧
      ∀ met opened s, Processed { doc := d } met opened s → s.Outlined opened := by
  have hstart := ParseState.outlined_start d hroot
  refine ⟨?_, fun met opened s hs => hs.outlined hstart⟩
  unfold titles
  cases hlines : splitLines? d.tabWidth text with
  | none =>
    rw [parseText_of_none env hlines]
    exact .stopped rfl .start
  | some lines =>
    rw [parseText_of_some env hlines]
    exact Site.meets_read hstart (env.nesting + 1) (d.site env) ⟨0, lines⟩ rfl [] [] _ .start rfl

/-- A text with a title after that of a file it includes. -/
theorem sections_follow_titles_included :
    let bytes (s : String) : Bytes := s.toList.map fun c => UInt8.ofNat c.toNat
    let files : FileTree := { entries := [("a", .file (bytes "One\n==="))] }
    let env := Environment.surroundings { constructs := .standard, files := files, clock := 0, nesting := 3 }
    let d := Document.new "d" {}
    let text := ".. include:: a\n\nTwo\n---".toList
    (d.titles env text).map (fun title => (title.source, title.heading.text))
        = [("a", "One".toList), ("d", "Two".toList)] ∧
      d.root < d.forest.size ∧
      Ended { doc := d } (d.titles env text) (parseText env text { doc := d }) := by
  intro bytes files env d text
  have hroot : d.root < d.forest.size := by decide
  exact ⟨by decide +kernel, hroot, (sections_follow_titles d env text hroot).1⟩

end Document

end MarkupLint
