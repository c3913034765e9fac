import MarkupLint.Proofs.Clearing
import MarkupLint.Proofs.Discharge
import MarkupLint.Proofs.Hanging

/-! # What passes have nothing to say about

    When nothing but sections, titles, paragraphs and text stands below the
    root, no pass that every document goes through finds what it looks for:
    only the title of the document is promoted, which keeps it so
    (`Outlined.apply`).  So a run with these passes ends well, and changes
    the tree at most (`Schedule.run_of_outlined`). -/

namespace MarkupLint

/-- Kinds of nodes that no pass complains about. -/
def Kind.isOutline (k : Kind) : Bool :=
  k == .document || k == .division || k == .title || k == .subtitle || k == .paragraph || k == .text

/-! ## The tree -/

namespace Tree

mutual

/-- Whether all nodes of a tree pass a test. -/
def all (p : Node → Bool) : Tree → Bool
  | .node n kids => p n && allOf p kids

def allOf (p : Node → Bool) : List Tree → Bool
  | [] => true
  | t :: ts => t.all p && allOf p ts

end

theorem allOf_eq_all (p : Node → Bool) (ts : List Tree) : allOf p ts = ts.all (all p) := by
  induction ts with
  | nil => rfl
  | cons t ts ih => rw [allOf, List.all_cons, ih]

end Tree

namespace Forest

variable {f g : Forest} {root i j p : NodeId} {ns : List NodeId}

/-- Below the root there is nothing but sections, titles, paragraphs and
    text. -/
structure Outlined (f : Forest) (root : NodeId) : Prop where
  linked : f.Linked
  inside : root < f.size
  kinds : ∀ j, f.Above root j → (f.get j).kind.isOutline = true

/-- A change of a node that leaves its links leaves the forest linked. -/
theorem Linked.modify (hf : f.Linked) (i : NodeId) {a : Node → Node} (hparent : ∀ n, (a n).parent = n.parent)
    (hchildren : ∀ n, (a n).children = n.children) :
    (∀ j, (f.modify i a).parent? j = f.parent? j) ∧ (f.modify i a).Linked := by
  have hup : ∀ j, (f.modify i a).parent? j = f.parent? j :=
    fun j => parent?_modify f i j hparent
  have hdown : ∀ j, (f.modify i a).children j = f.children j :=
    fun j => children_modify f i j hchildren
  refine ⟨hup, fun q => ?_, fun c q => ?_⟩
  · rw [hdown]
    exact hf.nodup q
  · rw [hdown, hup]
    exact hf.mem_iff c q

/-- Every node that is shown is shown by one of the trees. -/
theorem Shows.of_mem {is : List NodeId} {ts : List Tree} (h : f.Shows is ts) (hi : i ∈ is) :
    ∃ t ∈ ts, f.Shows [i] [t] := by
  induction h with
  | nil => cases hi
  | cons below _ _ ih =>
    rcases List.mem_cons.mp hi with rfl | hi
    · exact ⟨_, List.mem_cons_self, .cons below .nil⟩
    · obtain ⟨t, ht, hshows⟩ := ih hi
      exact ⟨t, List.mem_cons_of_mem _ ht, hshows⟩

/-- What all nodes of a shape are, the nodes below are: by the way down to
    them, on which every node has a part of the shape. -/
theorem Shows.all_of_above (hf : f.Linked) {t : Tree} (h : f.Shows [i] [t]) {p : Node → Bool}
    (ht : t.all p = true) (hj : f.Above i j) : p (f.get j).bare = true := by
  have hpart : ∃ t, f.Shows [j] [t] ∧ t.all p = true := by
    induction hj with
    | here => exact ⟨t, h, ht⟩
    | up hq _ ih =>
      obtain ⟨⟨label, kids⟩, hshows, hall⟩ := ih
      rw [Tree.all, Tree.allOf_eq_all, Bool.and_eq_true] at hall
      obtain ⟨c, hc, hshows'⟩ := hshows.uncons.2.1.of_mem ((hf.mem_iff _ _).mpr hq)
      exact ⟨c, hshows', List.all_eq_true.mp hall.2 c hc⟩
  obtain ⟨⟨label, kids⟩, hshows, hall⟩ := hpart
  rw [hshows.uncons.1]
  exact (Bool.and_eq_true_iff.mp hall).1

namespace Outlined

theorem of_shows (hf : f.Linked) (hroot : root < f.size) {t : Tree} (h : f.Shows [root] [t])
    (ht : t.all (·.kind.isOutline) = true) : f.Outlined root :=
  ⟨hf, hroot, fun _ hj => h.all_of_above hf ht hj⟩

/-- A tree stays so when nodes of it are hung up at the root. -/
theorem rehang (h : f.Outlined root) (hlinked : g.Linked) (hsize : g.size = f.size)
    (hparent : ∀ j p, g.parent? j = some p → f.parent? j = some p ∨ p = root ∧ f.Above root j)
    (hkinds : ∀ j, (f.get j).kind.isOutline = true → (g.get j).kind.isOutline = true) :
    g.Outlined root := by
  refine ⟨hlinked, hsize ▸ h.inside, fun j hj => hkinds j (h.kinds j ?_)⟩
  induction hj with
  | here => exact .here
  | up hp _ ih =>
    rcases hparent _ _ hp with hp | ⟨-, habove⟩
    · exact .up hp ih
    · exact habove

/-- There is no node of another kind to be found. -/
theorem findAll_eq_nil (h : f.Outlined root) {k : Kind} (hk : k.isOutline = false) :
    f.findAll k root = [] := by
  refine List.eq_nil_iff_forall_not_mem.mpr fun j hj => ?_
  have hkind := h.kinds j (h.linked.above_of_mem_findAll hj)
  rw [kind_of_mem_findAll hj, hk] at hkind
  cases hkind

/-- Nor outside definitions. -/
theorem findOutsideDefinitions_eq_nil (h : f.Outlined root) {k : Kind} (hk : k.isOutline = false) :
    f.findOutsideDefinitions k root = [] := by
  refine List.eq_nil_iff_forall_not_mem.mpr fun j hj => ?_
  have hkind := h.kinds j (h.linked.above_of_mem_walkWithin (List.mem_of_mem_filter hj))
  rw [kind_of_mem_findOutsideDefinitions hj, hk] at hkind
  cases hkind

/-- A node is changed where it stands. -/
theorem modify (h : f.Outlined root) (i : NodeId) {a : Node → Node} (hkind : ∀ n, (a n).kind = n.kind)
    (hparent : ∀ n, (a n).parent = n.parent) (hchildren : ∀ n, (a n).children = n.children) :
    (f.modify i a).Outlined root := by
  obtain ⟨hsame, hlinked⟩ := h.linked.modify i hparent hchildren
  refine h.rehang hlinked (size_modify f i a) (fun j p hp => .inl (hsame j ▸ hp)) fun j hj => ?_
  rwa [kind_modify f i j hkind]

/-- The title of a lone section is moved, and its content after it. -/
theorem promote (h : f.Outlined root) {position : Nat} {lone title : NodeId} {content : List NodeId}
    (hpromoted : Pass.promoted? f root position = some (lone, title, content)) {k : Kind}
    (hk : k.isOutline = true) :
    ((((f.detach lone).modify title ({ · with kind := k })).insert root position [title]).append root
      content).Outlined root := by
  obtain ⟨hlone, -, hkids⟩ := Pass.promoted?_spec hpromoted
  have hup : f.parent? lone = some root := (h.linked.mem_iff lone root).mp hlone
  have hmoved : ∀ c ∈ title :: content, c < f.size ∧ f.Above root c := fun c hc => by
    have hparent : f.parent? c = some lone := (h.linked.mem_iff c lone).mp (hkids ▸ hc)
    exact ⟨lt_size_of_parent? hparent, .up hparent (.up hup .here)⟩
  have hnodup : (title :: content).Nodup := hkids ▸ h.linked.nodup lone
  have hcontent : content.Nodup := (List.nodup_cons.mp hnodup).2
  -- The section is taken out, then its title changed, and moved before its content.
  obtain ⟨hparent₂, hlinked₂⟩ := (h.linked.detach lone).modify title (a := ({ · with kind := k }))
    (fun _ => rfl) fun _ => rfl
  have hsize₂ : ((f.detach lone).modify title ({ · with kind := k })).size = f.size := by
    rw [size_modify, size_detach]
  have hkind₂ : ∀ j, (f.get j).kind.isOutline = true →
      (((f.detach lone).modify title ({ · with kind := k })).get j).kind.isOutline = true := by
    intro j hj
    rw [get_modify]
    split
    · exact hk
    · rwa [kind_of_bare (bare_detach f lone j)]
  generalize (f.detach lone).modify title ({ · with kind := k }) = f₂ at hparent₂ hlinked₂ hsize₂ hkind₂ ⊢
  have hrehung₃ := rehung_insert (p := root) hlinked₂ (hsize₂ ▸ h.inside)
    (List.forall_mem_singleton.mpr (hsize₂ ▸ (hmoved title List.mem_cons_self).1)) position
  have hlinked₃ := hlinked₂.insert (p := root) (hsize₂ ▸ h.inside) (List.nodup_singleton title)
    (List.forall_mem_singleton.mpr (hsize₂ ▸ (hmoved title List.mem_cons_self).1)) position
  have hsize₃ := hrehung₃.size.trans hsize₂
  have hinside : ∀ c ∈ content, c < (f₂.insert root position [title]).size := fun c hc =>
    hsize₃ ▸ (hmoved c (List.mem_cons_of_mem title hc)).1
  have hrehung₄ := rehung_append hlinked₃ (hsize₃ ▸ h.inside) hcontent hinside
  refine h.rehang (hlinked₃.append (hsize₃ ▸ h.inside) hcontent hinside) (hrehung₄.size.trans hsize₃)
    (fun j p hp => ?_) fun j hj => ?_
  · rw [hrehung₄.parent, hrehung₃.parent, hparent₂, parent?_detach] at hp
    split at hp
    · exact .inr ⟨(Option.some.inj hp).symm, (hmoved j (List.mem_cons_of_mem title ‹_›)).2⟩
    split at hp
    · rename_i hj
      rw [List.mem_singleton.mp hj]
      exact .inr ⟨(Option.some.inj hp).symm, (hmoved title List.mem_cons_self).2⟩
    split at hp
    · cases hp
    · exact .inl hp
  · rw [kind_of_bare (hrehung₄.bare j), kind_of_bare (hrehung₃.bare j)]
    exact hkind₂ j hj

end Outlined

end Forest

/-! ## One pass -/

/-- A step may change the tree of a document, which stays an outline, but
    nothing else, and does not stop. -/
def outlining : Regime Document where
  holds d := d.forest.Outlined d.root
  leads d e := e = { d with forest := e.forest } ∧ e.forest.Outlined d.root
  stops _ _ _ := False
  refl h := ⟨rfl, h⟩
  trans hst htu := by
    obtain ⟨hst, -⟩ := hst
    obtain ⟨htu, hu⟩ := htu
    refine ⟨by rw [htu, hst], ?_⟩
    rw [hst] at hu
    exact hu
  holds_leads hst := by
    obtain ⟨hst, ht⟩ := hst
    rw [hst]
    exact ht
  stops_leads _ := id

namespace Pass

variable {d : Document} {α : Type} {Q : α → Document → Prop}

/-- So there are no references. -/
theorem outlining_references {f : List NodeId → Build α} (h : outlining.Meets d (f []) Q) :
    outlining.Meets d (references d.root >>= f) Q := by
  intro hd
  have hnil := hd.findOutsideDefinitions_eq_nil (k := .reference) rfl
  show outlining.Ends d Q (f (d.forest.findOutsideDefinitions .reference d.root) d)
  rw [hnil]
  exact h hd

/-- Nor nodes of another kind. -/
theorem outlining_nodesOf {k : Kind} (hk : k.isOutline = false) {f : List NodeId → Build α}
    (h : outlining.Meets d (f []) Q) : outlining.Meets d (nodesOf k d.root >>= f) Q := by
  intro hd
  have hnil := hd.findAll_eq_nil hk
  show outlining.Ends d Q (f (d.forest.findAll k d.root) d)
  rw [hnil]
  exact h hd

/-- Moving titles up keeps the outline. -/
theorem outlining_promote (position : Nat) {k : Kind} (hk : k.isOutline = true) :
    outlining.Keeps d (promote d.root position k) := by
  unfold promote
  refine .get ?_
  dsimp only
  split
  · exact .pure trivial
  · rename_i hpromoted
    refine .bind (.modify fun hd => ⟨rfl, hd.promote hpromoted hk⟩) fun _ e hde _ => ?_
    refine .ite (fun _ => .bind (.get (.modify fun he => ⟨rfl, ?_⟩)) fun _ _ _ _ => .pure trivial)
      fun _ => .pure trivial
    exact he.modify _ (fun _ => rfl) (fun _ => rfl) fun _ => rfl

/-- And so does the pass that does it. -/
theorem outlining_promoteTitle : outlining.Keeps d (promoteTitle d.root) := by
  refine .get (.ite (fun _ => ?_) fun _ => .pure trivial)
  refine .bind (outlining_promote 0 rfl) fun promoted e hde _ => ?_
  have hroot : d.root = e.root := by rw [hde.1]
  rw [hroot]
  refine .ite (fun _ => ?_) fun _ => .pure trivial
  exact .bind (outlining_promote 1 rfl) fun _ _ _ _ => .pure trivial

/-- **A pass that every document goes through has nothing to say** about an
    outline, and leaves it one. -/
theorem outlining_apply {pass : Pass} (hpass : pass ∈ reading ++ writing)
    (options : List (String × Data.Value)) : outlining.Keeps d (pass.apply d.root options) := by
  refine .get (.start fun hd => ?_)
  cases pass with
  | documentTitle => exact outlining_promoteTitle
  | substitutions =>
    refine .get (.forM fun ref href => ?_)
    rw [hd.findOutsideDefinitions_eq_nil rfl] at href
    cases href
  | anonymousReferences =>
    refine .get (outlining_references (outlining_nodesOf rfl ?_))
    exact .ite (fun hne => absurd rfl hne) fun _ => .pure trivial
  | indirectReferences =>
    refine outlining_nodesOf rfl (.get ?_)
    exact .bind (P := fun _ _ => True) (.pure trivial) fun _ _ _ _ => .pure trivial
  | danglingReferences =>
    refine outlining_references (.bind (P := fun _ _ => True) (.pure trivial) fun _ e hde _ => ?_)
    have hroot : d.root = e.root := by rw [hde.1]
    rw [hroot]
    exact outlining_nodesOf rfl (.pure trivial)
  | transitions =>
    refine .get (.forM fun i hi => ?_)
    rw [hd.findAll_eq_nil rfl] at hi
    cases hi
  | filterMessages =>
    refine .get (.forM fun i hi => ?_)
    rw [hd.findAll_eq_nil rfl] at hi
    cases hi
  | sectionNumbers => exact absurd hpass (by decide)
  | contents => exact absurd hpass (by decide)
  | classAttribute => exact absurd hpass (by decide)

end Pass

/-! ## Runs -/

namespace Schedule

variable {d : Document} {s t : Schedule} {r : Request}

/-- Between the rounds of a run on an outline, which changes its tree at
    most: only passes that every document goes through still wait. -/
structure Uneventful (d : Document) (s : Schedule) : Prop where
  valid : s.Valid
  locals : s.locals = []
  rest : s.document = { d with forest := s.document.forest, requests := [] }
  outlined : s.document.forest.Outlined d.root
  asks : ∀ r ∈ s.waiting, r.target = d.root ∧ ∃ pass ∈ Pass.reading ++ Pass.writing, r.kind = pass.kind

namespace Uneventful

/-- The next request is one of the standard passes, for the root. -/
theorem take? (h : s.Uneventful d) (htake : s.take? = some (r, t)) :
    t.Uneventful d ∧ r.target = d.root ∧ ∃ pass ∈ Pass.reading ++ Pass.writing, r.kind = pass.kind := by
  obtain ⟨hvalid, hnext, hdocument, -, hlocals⟩ := take?_next h.valid htake
  have hmem : ∀ q, q ∈ s.waiting ↔ q ∈ r :: t.waiting := fun q => hnext.perm.mem_iff
  refine ⟨⟨hvalid, hlocals.trans h.locals, ?_, ?_, fun q hq => ?_⟩,
    h.asks r ((hmem r).mpr List.mem_cons_self)⟩
  · rw [hdocument, ← h.rest]
  · rw [hdocument]
    exact h.outlined
  · exact h.asks q ((hmem q).mpr (List.mem_cons_of_mem r hq))

/-- It is applied, and nothing happens. -/
theorem applyRequest (h : s.Uneventful d) (htarget : r.target = d.root) {pass : Pass}
    (hpass : pass ∈ Pass.reading ++ Pass.writing) (hkind : r.kind = pass.kind) :
    ∃ t, applyRequest r s = .ok () t ∧ (t.record r).Uneventful d := by
  have hroot : s.document.root = d.root := by rw [h.rest]
  have houtlined : s.document.forest.Outlined s.document.root := hroot.symm ▸ h.outlined
  have hends := Pass.outlining_apply hpass r.options houtlined
  have happly := applyRequest_of_kind h.locals hkind
  rw [htarget, ← hroot, onDocument] at happly
  generalize pass.apply s.document.root r.options s.document = result at hends happly
  cases hends with
  | stop hstops => exact hstops.elim
  | @ok _ e hleads _ =>
    obtain ⟨hrest, houtlined⟩ := hleads
    obtain ⟨hvalid, hwaiting⟩ := h.valid.of_queue (t := record { s with document := e } r) rfl rfl
    refine ⟨_, happly, hvalid, h.locals, ?_, hroot ▸ houtlined, hwaiting ▸ h.asks⟩
    show e = { d with forest := e.forest, requests := [] }
    rw [hrest, h.rest]

/-- No node of an outline asks for anything. -/
theorem drain (h : s.Uneventful d) : s.drain.Uneventful d := by
  obtain ⟨hvalid, hbacklog, -, hlocals⟩ := drain_spec h.valid
  have hrequests : s.document.requests = [] := by rw [h.rest]
  have hwaiting : s.drain.waiting = s.waiting := by
    have hqueue : s.drain.waiting = s.waiting ++ s.document.requests := congrArg Backlog.queue hbacklog
    rw [hqueue, hrequests, List.append_nil]
  have hdocument : s.drain.document = s.document := by
    refine (addAll_rest _ _).1.trans ?_
    show { s.document with requests := [] } = s.document
    rw [h.rest]
  refine ⟨hvalid, hlocals.trans h.locals, ?_, ?_, hwaiting ▸ h.asks⟩
  · rw [hdocument, ← h.rest]
  · rw [hdocument]
    exact h.outlined

end Uneventful

/-- By induction on the rounds. -/
theorem Loop.uneventful {es : List Event} {out : Except Stop Unit} (h : Loop s es out t)
    (hs : s.Uneventful d) : out = .ok () ∧ t.Uneventful d := by
  induction h with
  | done => exact ⟨rfl, hs⟩
  | fails htake happly =>
    obtain ⟨hu, htarget, pass, hpass, hkind⟩ := hs.take? htake
    obtain ⟨_, hok, -⟩ := hu.applyRequest htarget hpass hkind
    rw [hok] at happly
    cases happly
  | applies htake happly _ ih =>
    obtain ⟨hu, htarget, pass, hpass, hkind⟩ := hs.take? htake
    obtain ⟨_, hok, hnext⟩ := hu.applyRequest htarget hpass hkind
    rw [hok] at happly
    cases happly
    exact ih hnext.drain

/-- The standard passes of an outline are uneventful. -/
theorem uneventful_populateStandard (hrequests : d.requests = []) (h : d.forest.Outlined d.root) :
    ({ document := d : Schedule }.populateStandard).Uneventful d := by
  obtain ⟨hvalid, hwaiting⟩ := waiting_populateStandard d
  have hdocument := document_populateStandard d
  refine ⟨hvalid, locals_populateStandard d, ?_, hdocument.symm ▸ h, fun r hr => ?_⟩
  · rw [hdocument, ← hrequests]
  · rw [hwaiting] at hr
    obtain ⟨pass, hpass, rfl⟩ := List.mem_map.mp hr
    exact ⟨rfl, pass, hpass, rfl⟩

/-- A run with the passes that every document goes through changes the tree
    of an outline at most. -/
theorem run_of_outlined (hrequests : d.requests = []) (h : d.forest.Outlined d.root) :
    ∃ g, ({ document := d : Schedule }.populateStandard).run.1 = .ok () ∧
      ({ document := d : Schedule }.populateStandard).run.2.document = { d with forest := g } := by
  have hstart := uneventful_populateStandard hrequests h
  obtain ⟨hok, hend⟩ := (run_loop hstart.valid).uneventful hstart.drain
  generalize ({ document := d : Schedule }.populateStandard).run.2 = t at hend
  refine ⟨t.document.forest, hok, hend.rest.trans ?_⟩
  rw [← hrequests]

end Schedule

end MarkupLint
