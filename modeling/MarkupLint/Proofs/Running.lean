import MarkupLint.Proofs.Directives
import MarkupLint.Proofs.Phrasing

/-! # Directives under watch

    One lemma for each directive: it keeps under watch if what reads the
    bodies it hands on does, and gives nodes that may stand in any container.
    What it complains about names the source of its site. -/

namespace MarkupLint

/-! ## Nodes or a complaint -/

namespace Watch

variable {α β γ : Type}

/-- What is given satisfies `P`, and the messages that go with a complaint
    may stand in any container. -/
inductive Answer (W : Watch) (P : α → ParseState → Prop) (t : ParseState) :
    Except Complaint α → Prop
  | gives {a : α} (h : P a t) : Answer W P t (.ok a)
  | complains {e : Complaint} (h : W.Fit t.doc .container e.messages) : Answer W P t (.error e)

/-- From a state on, a directive keeps under watch and gives what satisfies
    `P`, or complains. -/
def Answers (W : Watch) (s : ParseState) (x : Run α) (P : α → ParseState → Prop) : Prop :=
  W.Meets s x.run fun r t => W.Answer P t r

/-- A directive gives nodes that may stand in any container. -/
abbrev Yields (W : Watch) (s : ParseState) (x : Run (List NodeId)) : Prop :=
  W.Answers s x fun ns t => W.Fit t.doc .container ns

namespace Answers

variable {W : Watch} {s : ParseState} {P P' : α → ParseState → Prop} {Q : β → ParseState → Prop}

/-- What is given at once is given by a directive that does nothing. -/
theorem pure {a : α} (h : P a s) : W.Answers s (pure a) P := Regime.Meets.pure (.gives h)

/-- A complaint is an answer if its messages may stand anywhere. -/
theorem throw {e : Complaint} (h : W.Fit s.doc .container e.messages) :
    W.Answers s (throw e : Run α) P :=
  Regime.Meets.pure (.complains h)

/-- What is given may be said to satisfy less, with what led to it at hand. -/
theorem mono {x : Run α} (h : W.Answers s x P) (himp : ∀ a t, W.Leads s t → P a t → P' a t) :
    W.Answers s x P' := by
  refine Regime.Meets.mono h fun r t hst hr => ?_
  cases hr with
  | gives h => exact .gives (himp _ t hst h)
  | complains h => exact .complains h

/-- The state that a directive starts from may be taken to hold. -/
theorem start {x : Run α} (h : W.Holds s → W.Answers s x P) : W.Answers s x P :=
  Regime.Meets.start h

/-- A step after a directive answers to what that gave; a complaint ends
    both. -/
theorem bind {x : Run α} {f : α → Run β} (hx : W.Answers s x P)
    (hf : ∀ a t, W.Leads s t → P a t → W.Answers t (f a) Q) : W.Answers s (x >>= f) Q := by
  refine Regime.Meets.bind hx fun r t hst hr => ?_
  cases hr with
  | gives h => exact hf _ t hst h
  | complains h => exact Regime.Meets.pure (.complains h)

/-- A step of parsing never complains. -/
theorem lift {x : Parse α} (h : W.Meets s x P) : W.Answers s (liftM x) P :=
  Regime.Meets.bind h fun _ _ _ ha => Regime.Meets.pure (.gives ha)

/-- A step on the document. -/
theorem build {x : Build α} {P : α → Document → Prop} (h : W.Meets s.doc x P) :
    W.Answers s (liftM (Parse.build x)) fun a t => P a t.doc :=
  lift (Parse.meets_build h)

/-- A node is looked up in the document as it is. -/
theorem node {i : NodeId} {f : Node → Run β} (h : W.Answers s (f (s.doc.node i)) Q) :
    W.Answers s (liftM (Build.node i) >>= f) Q := h

/-- The state is looked up as it is. -/
theorem get {f : ParseState → Run β} (h : W.Answers s (f s) Q) : W.Answers s (get >>= f) Q := h

/-- Either way of going on has to answer. -/
theorem ite {c : Prop} [Decidable c] {x y : Run α} (hx : c → W.Answers s x P)
    (hy : ¬c → W.Answers s y P) : W.Answers s (if c then x else y) P := by
  by_cases h : c
  · rw [if_pos h]
    exact hx h
  · rw [if_neg h]
    exact hy h

/-- A complaint before the rest. -/
theorem guard {c : Prop} [Decidable c] {e : Complaint} {f : PUnit → Run α}
    (he : W.Fit s.doc .container e.messages) (h : ¬c → W.Answers s (f ⟨⟩) P) :
    W.Answers s (if c then throwThe Complaint e >>= f else f ⟨⟩) P :=
  ite (fun _ => Regime.Meets.pure (.complains he)) h

/-- By the list: what holds of a result when it is given holds of it to the
    end. -/
theorem mapM {f : γ → Run α} {xs : List γ} (hP : ∀ {a t u}, W.Leads t u → P a t → P a u)
    (h : ∀ x ∈ xs, ∀ t, W.Leads s t → W.Answers t (f x) P) :
    W.Answers s (xs.mapM f) fun as t => ∀ a ∈ as, P a t := by
  induction xs generalizing s with
  | nil => exact pure (List.forall_mem_nil _)
  | cons x xs ih =>
    rw [List.mapM_cons]
    refine start fun hs => bind (h x List.mem_cons_self s ((W.regime ParseState).refl hs))
      fun a t hst ha => ?_
    refine bind (ih fun y hy u htu => h y (List.mem_cons_of_mem _ hy) u (hst.trans htu))
      fun as u htu has => ?_
    exact pure (List.forall_mem_cons.mpr ⟨hP htu ha, has⟩)

/-- By the list, for steps that give nothing. -/
theorem forM {f : γ → Run PUnit} {xs : List γ}
    (h : ∀ x ∈ xs, ∀ t, W.Leads s t → W.Answers t (f x) fun _ _ => True) :
    W.Answers s (xs.forM f) fun _ _ => True := by
  induction xs generalizing s with
  | nil => exact pure trivial
  | cons x xs ih =>
    refine start fun hs => bind (h x List.mem_cons_self s ((W.regime ParseState).refl hs))
      fun _ t hst _ => ?_
    exact ih fun y hy u htu => h y (List.mem_cons_of_mem _ hy) u (hst.trans htu)

/-- The result of a computation apart from the document. -/
theorem ofExcept {x : Except Complaint α} (h : ∀ e, x = .error e → e.messages = []) :
    W.Answers s (liftM x) fun a _ => x = .ok a := by
  cases x with
  | ok a => exact Regime.Meets.pure (.gives rfl)
  | error e =>
    refine Regime.Meets.pure (.complains ?_)
    rw [h e rfl]
    exact .nil s.doc _

end Answers

/-- What reads the content of a directive keeps under watch. -/
def ReadsContent (W : Watch) (read : ReadBody) (c : Call) : Prop :=
  ∀ parent s, W.Roomy s.doc parent → W.Keeps s (c.readContent read parent)

/-- What reads the bodies that a directive hands on keeps under watch. -/
def Serves (W : Watch) (read : ReadBody) (c : Call) (d : Directive) : Prop :=
  ∀ file site body, c.Hands W.origin d file site body → ∀ s, W.Roomy s.doc site.parent →
    W.Keeps s (read.pick file site body)

/-- The children of a node that is neither a topic nor a list may be put
    elsewhere. -/
theorem Holds.fit_children {W : Watch} {d : Document} (hd : W.Holds d) {p : NodeId} {k : Kind}
    (hk : (d.node p).kind = k) (htopic : k ≠ .topic) (hlist : k.isList = false) :
    W.Fit d .container (d.forest.children p) := by
  subst hk
  exact fun hstrict _ hi => (hd.accounted hstrict).mayHang_of_mem_children htopic hlist hi

end Watch

open Watch

namespace Call

variable {W : Watch} {s : ParseState} {d : Document} {read : ReadBody} {α : Type} (c : Call)

/-! ## Shared steps -/

section Shared

/-- A value that is missing is a complaint without messages. -/
theorem answers_valueOr (x : Option α) {e : Complaint} (he : e.messages = []) :
    W.Answers s (valueOr x e) fun a _ => x = some a := by
  cases x with
  | some a => exact .pure rfl
  | none =>
    refine .throw ?_
    rw [he]
    exact .nil s.doc _

/-- A directive without content may complain, with nothing to be put
    anywhere. -/
theorem answers_requireContent : W.Answers s c.requireContent fun _ _ => True :=
  .ite (fun _ => .pure trivial) fun _ => .throw (.nil s.doc _)

/-- The same goes for a directive outside a substitution definition. -/
theorem answers_requireSubstitution : W.Answers s c.requireSubstitution fun _ _ => True :=
  .ite (fun _ => .pure trivial) fun _ => .throw (.nil s.doc _)

/-- The node around a directive is looked at. -/
theorem meets_inSidebar : W.Keeps s (Parse.build c.inSidebar) :=
  Parse.meets_build (P := fun _ _ => True) (Build.meets_node (.pure trivial))

/-- A directive in a wrong place complains likewise. -/
theorem answers_requireSection : W.Answers s c.requireSection fun _ _ => True := by
  refine .bind (.lift c.meets_inSidebar) fun inside t _ _ => ?_
  exact .ite (fun _ => .pure trivial) fun _ => .throw (.nil t.doc _)

/-- A node is given an attribute. -/
theorem meets_setAttr (i : NodeId) (key value : String) :
    W.Keeps s (Parse.build (Build.setAttr i key value)) :=
  Parse.meets_build (Build.meets_setAttr i key value)

/-- Nodes that may stand in a container are put below a node with room for
    them. -/
theorem meets_append {p : NodeId} {ns : List NodeId} (hp : W.Roomy s.doc p)
    (hns : W.Fit s.doc .container ns) : W.Keeps s (Parse.build (Build.append p ns)) :=
  Parse.meets_build (Build.meets_append_roomy hp hns)

variable {c} (hsite : W.Tends c.site)

include hsite

/-- A message may stand in any container, too. -/
theorem meets_report (level : Level) (text : String) (quote : Bool) :
    W.Meets d (c.report level text quote) fun msg e => W.Fit e .container [msg] :=
  Site.meets_raise hsite _ _ _ _

/-- The node of a directive, over nodes that may stand there. -/
theorem meets_element {k : Kind} {n : Node} (hk : n.kind = k) (hpending : k ≠ .pending)
    (hlist : k.isList = false) {children : List NodeId} (h : W.Fit d k children) :
    W.Meets d (c.element n children) fun made e =>
      W.Made e k c.site.source made.1 ∧ W.Fit e .container made.2 := by
  -- Classes change neither the kind nor the source of the node.
  have hmade : ∀ m : Node, m.kind = k → m.source = c.site.source →
      W.Meets d (Build.element m children) fun i e =>
        W.Made e k c.site.source i ∧ (e.node i).source = c.site.source := by
    rintro m rfl hsource
    rw [← hsource]
    exact .also (Build.meets_element (fun _ => ⟨hpending, hlist⟩) h)
      fun i e hrun => Build.element_source hrun
  have hclasses : ∀ (m : Node), m.kind = k → m.source = c.site.source → ∀ classes : String,
      (if classes = "" then m else m.setAttr "classes" classes).kind = k ∧
        (if classes = "" then m else m.setAttr "classes" classes).source = c.site.source := by
    intro m hkind hsource classes
    split
    · exact ⟨hkind, hsource⟩
    · exact ⟨hkind, hsource⟩
  obtain ⟨hkind, hsource⟩ :=
    hclasses { n with line := c.line, source := c.site.source } hk rfl (c.option "class")
  simp only [element]
  cases c.option? "name" with
  | none => exact .bind (hmade _ hkind hsource) fun i e _ hi => .pure ⟨hi.1, .nil e _⟩
  | some name =>
    refine .bind (hmade _ hkind hsource) fun i e _ hi => ?_
    refine .bind (Build.meets_noteTarget true hi.1.inside hi.2 hsite.hears) fun complaints f hef h => ?_
    exact .pure ⟨hef.made hi.1, h⟩

/-- A title holds phrases; its messages are for some container. -/
theorem meets_inlineTitle (kind : Kind) (hkind : kind.isRoomy = true) (hpending : kind ≠ .pending)
    (text : String) :
    W.Meets s (c.inlineTitle kind text) fun made t =>
      W.Made t.doc kind "" made.1 ∧ W.Fit t.doc .container made.2 := by
  refine .bind (Parse.meets_inlineParse hsite _ _) fun made t _ hmade => ?_
  have hlist := Kind.isList_of_isRoomy hkind
  exact .bind (Parse.meets_build (Build.meets_element (fun _ => ⟨hpending, hlist⟩)
    (hmade.nodes.phrases hlist))) fun i u htu hi => .pure ⟨hi, htu.fit hmade.messages⟩

omit hsite in
/-- A pending node may stand in a topic, and elsewhere if it is not for a table
    of contents. -/
theorem meets_pending (pass : Pass) (options : List (String × Data.Value))
    (hpass : pass ∈ Pass.delayed) :
    W.Meets d (c.pending pass options) fun i e =>
      W.Fit e .topic [i] ∧ (pass.kind ≠ Pass.contents.kind → W.Fit e .container [i]) :=
  Build.meets_pending _ _ _ fun _ => List.mem_map_of_mem hpass

omit hsite in
/-- The nodes of the content may be put anywhere. -/
theorem meets_contentNodes (hread : W.ReadsContent read c) :
    W.Meets s (c.contentNodes read) fun ns t => W.Fit t.doc .container ns := by
  refine .bind (Parse.meets_build (Build.meets_element (fun _ => ⟨nofun, rfl⟩) (.nil _ _)))
    fun box t _ hbox => ?_
  refine .bind (hread box t (hbox.roomy rfl)) fun _ u htu _ => .start fun hu => ?_
  have hdoc : W.Holds u.doc := ⟨hu.usual, hu.origin, hu.accounted, fun _ => trivial⟩
  exact .pure (hdoc.fit_children (htu.made hbox).kind nofun rfl)

end Shared

/-! ## Boxes -/

section Boxes

variable {c} (hsite : W.Tends c.site) (hread : W.ReadsContent read c)

include hsite

include hread in
/-- An admonition stands in a container, over what its content gives. -/
theorem yields_admonition (type : String) : W.Yields s (c.admonition read type) := by
  refine .bind c.answers_requireContent fun _ t _ _ => ?_
  refine .bind (.build (meets_element (k := .admonition) hsite rfl nofun rfl (.nil _ _)))
    fun (i, complaints) u _ hmade => ?_
  refine .bind (.lift (meets_setAttr i _ _)) fun _ v huv _ => ?_
  refine .bind (.lift (hread i v ((huv.made hmade.1).roomy rfl))) fun _ w hvw _ => ?_
  exact .pure ((huv.trans hvw).fit (.cons (hmade.1.fit rfl) hmade.2))

include hread in
/-- The title of an admonition is its first child. -/
theorem yields_titledAdmonition : W.Yields s (c.titledAdmonition read) := by
  refine .bind c.answers_requireContent fun _ t _ _ => ?_
  refine .bind (.lift (meets_inlineTitle hsite .title rfl nofun _)) fun (title, messages) u _ htitle => ?_
  refine .bind (.build (meets_element (k := .admonition) hsite rfl nofun rfl (htitle.1.fit rfl)))
    fun (i, complaints) v huv hmade => ?_
  refine .bind (.lift (meets_setAttr i _ _)) fun _ w hvw _ => ?_
  refine .bind (.lift (meets_append ((hvw.made hmade.1).roomy rfl)
    ((huv.trans hvw).fit htitle.2))) fun _ x hwx _ => ?_
  have hvx := hvw.trans hwx
  refine .bind (.lift (hread i x ((hvx.made hmade.1).roomy rfl))) fun _ y hxy _ => ?_
  exact .pure ((hvx.trans hxy).fit (.cons (hmade.1.fit rfl) hmade.2))

/-- A title is put below a node that has room for it; its messages are handed
    up. -/
theorem meets_addTitle {i : NodeId} (hi : W.Roomy s.doc i) (kind : Kind) (hkind : kind.isRoomy = true)
    (hheld : Kind.container.mayHold kind = true) (hpending : kind ≠ .pending)
    (text : Option String) :
    W.Meets s (c.addTitle i kind text) fun ns t => W.Fit t.doc .container ns := by
  cases text with
  | none => exact .pure (.nil s.doc _)
  | some text =>
    refine .bind (meets_inlineTitle hsite kind hkind hpending text)
      fun (title, messages) t hst htitle => ?_
    refine .bind (meets_append (hst.roomy hi) (htitle.1.fit hheld)) fun _ u htu _ => ?_
    exact .pure (htu.fit htitle.2)

include hread in
/-- A topic or a sidebar has its titles before its content. -/
theorem yields_pseudoSection {kind : Kind} (hkind : kind.isRoomy = true)
    (hheld : Kind.container.mayHold kind = true) (hpending : kind ≠ .pending) :
    W.Yields s (c.pseudoSection read kind) := by
  refine .bind (.lift c.meets_inSidebar) fun inside t _ _ => .guard (.nil t.doc _) fun _ => ?_
  refine .bind c.answers_requireSection fun _ u _ _ => ?_
  refine .bind c.answers_requireContent fun _ v _ _ => ?_
  refine .bind (.build (meets_element hsite rfl hpending (Kind.isList_of_isRoomy hkind) (.nil _ _)))
    fun (i, complaints) w _ hmade => ?_
  have hroomy : W.Roomy w.doc i := hmade.1.roomy hkind
  refine .bind (.lift (meets_addTitle hsite hroomy .title rfl rfl nofun _)) fun titles x hwx htitles => ?_
  refine .bind (.lift (meets_addTitle hsite (hwx.roomy hroomy) .subtitle rfl rfl nofun _))
    fun subtitles y hxy hsubtitles => ?_
  have hwy := hwx.trans hxy
  refine .bind (.lift (meets_append (hwy.roomy hroomy)
    (((hwy.fit hmade.2).append (hxy.fit htitles)).append hsubtitles))) fun _ z hyz _ => ?_
  have hwz := hwy.trans hyz
  refine .bind (.lift (hread i z (hwz.roomy hroomy))) fun _ z' hzz' _ => ?_
  exact .pure ((hwz.trans hzz').fit (hmade.1.fit hheld))

include hread in
/-- A quotation stands in a container, over its content. -/
theorem yields_quotation (style : String) : W.Yields s (c.quotation read style) := by
  refine .bind c.answers_requireContent fun _ t _ _ => ?_
  refine .bind (.build (meets_element (k := .blockQuote) hsite rfl nofun rfl (.nil _ _)))
    fun (i, _) u _ hmade => ?_
  refine .bind (.lift (meets_setAttr i _ _)) fun _ v huv _ => ?_
  refine .bind (.lift (hread i v ((huv.made hmade.1).roomy rfl))) fun _ w hvw _ => ?_
  exact .pure ((huv.trans hvw).fit (hmade.1.fit rfl))

include hread in
/-- A compound does, too. -/
theorem yields_compound : W.Yields s (c.compound read) := by
  refine .bind c.answers_requireContent fun _ t _ _ => ?_
  refine .bind (.build (meets_element (k := .compound) hsite rfl nofun rfl (.nil _ _)))
    fun (i, complaints) u _ hmade => ?_
  refine .bind (.lift (hread i u (hmade.1.roomy rfl))) fun _ v huv _ => ?_
  exact .pure (huv.fit (.cons (hmade.1.fit rfl) hmade.2))

omit hsite in
/-- An argument that gives no class is a complaint. -/
theorem answers_classArgument : W.Answers s c.classArgument fun _ _ => True := by
  simp only [classArgument]
  split
  · exact .pure trivial
  · exact .throw (.nil s.doc _)

include hread in
/-- The content of a container is read after its classes are set. -/
theorem yields_container : W.Yields s (c.container read) := by
  refine .bind c.answers_requireContent fun _ t _ _ => ?_
  refine .bind (.build (meets_element (k := .container) hsite rfl nofun rfl (.nil _ _)))
    fun (i, complaints) u _ hmade => ?_
  have hrest : ∀ v, W.Leads u v →
      W.Yields v (do c.readContent read i; return i :: complaints) := fun v huv => by
    refine .bind (.lift (hread i v ((huv.made hmade.1).roomy rfl))) fun _ w hvw _ => ?_
    exact .pure ((huv.trans hvw).fit (.cons (hmade.1.fit rfl) hmade.2))
  refine .ite (fun _ => ?_) fun _ => .start fun hu => hrest u ((W.regime ParseState).refl hu)
  refine .bind answers_classArgument fun classes v huv _ => ?_
  refine .bind (.lift (meets_setAttr i _ _)) fun _ w hvw _ => ?_
  exact hrest w (huv.trans hvw)

include hread in
/-- A header or a footer stands where the directive does. -/
theorem yields_decoration {kind : Kind} (hkind : kind.isRoomy = true)
    (hheld : Kind.container.mayHold kind = true) (hpending : kind ≠ .pending) :
    W.Yields s (c.decoration read kind) := by
  refine .bind c.answers_requireContent fun _ t _ _ => ?_
  refine .bind (.build (meets_element hsite rfl hpending (Kind.isList_of_isRoomy hkind) (.nil _ _)))
    fun (i, _) u _ hmade => ?_
  refine .bind (.lift (hread i u (hmade.1.roomy hkind))) fun _ v huv _ => ?_
  exact .pure (huv.fit (hmade.1.fit hheld))

omit hsite in
include hread in
/-- The nodes of the content are put where the directive stands, with their
    classes. -/
theorem yields_classes : W.Yields s (c.classes read) := by
  refine .bind answers_classArgument fun classes t _ _ => ?_
  refine .ite (fun _ => ?_) fun _ => ?_
  · refine .bind (.build (meets_pending .classAttribute _ (by decide))) fun i u _ hi => ?_
    exact .pure (hi.2 (by decide))
  refine .bind (.lift (meets_contentNodes hread)) fun nodes u _ hnodes => ?_
  refine .bind (.forM fun i _ v _ => .node (.lift (meets_setAttr i _ _))) fun _ v huv _ => ?_
  exact .pure (huv.fit hnodes)

end Boxes

/-! ## Literal text and rubrics -/

section Literal

variable {c} (hsite : W.Tends c.site)

include hsite

/-- Code holds a leaf of text. -/
theorem yields_code : W.Yields s c.code := by
  refine .bind c.answers_requireContent fun _ t _ _ => .guard (.nil t.doc _) fun _ => ?_
  refine .bind (.build (Build.meets_leaf _)) fun text u _ htext => ?_
  refine .bind (.build (meets_element (k := .literalBlock) hsite rfl nofun rfl (htext.fit rfl)))
    fun (i, complaints) v _ hmade => ?_
  have hnodes : W.Fit v.doc .container (i :: complaints) := .cons (hmade.1.fit rfl) hmade.2
  cases c.argument? with
  | none => exact .bind (.lift (meets_setAttr i _ _)) fun _ w hvw _ => .pure (hvw.fit hnodes)
  | some language =>
    refine .bind (.lift (meets_setAttr i _ _)) fun _ w hvw _ => ?_
    refine .bind (.lift (meets_setAttr i _ _)) fun _ x hwx _ => ?_
    exact .pure ((hvw.trans hwx).fit hnodes)

/-- So does each block of a formula. -/
theorem yields_math : W.Yields s c.math := by
  refine .bind c.answers_requireContent fun _ t _ _ => ?_
  refine .bind (.mapM (P := fun ns t => W.Fit t.doc .container ns) (fun hst h => hst.fit h)
    fun block _ u _ => ?_) fun made u _ hmade => .pure (.flatten hmade)
  refine .bind (.build (Build.meets_leaf _)) fun text v _ htext => ?_
  refine .bind (.build (meets_element (k := .mathBlock) hsite rfl nofun rfl (htext.fit rfl)))
    fun (i, complaints) w _ hmade => ?_
  exact .pure (.cons (hmade.1.fit rfl) hmade.2)

/-- A literal block may hold phrases. -/
theorem yields_parsedLiteral : W.Yields s c.parsedLiteral := by
  refine .bind c.answers_requireContent fun _ t _ _ => ?_
  refine .bind (.lift (Parse.meets_inlineParse hsite _ _)) fun made u _ hmade => ?_
  refine .bind (.build (meets_element (k := .literalBlock) hsite rfl nofun rfl
    (hmade.nodes.phrases rfl))) fun (i, complaints) v huv hi => ?_
  refine .bind (.lift (meets_setAttr i _ _)) fun _ w hvw _ => ?_
  exact .pure (.append (.cons (hvw.fit (hi.1.fit rfl)) ((huv.trans hvw).fit hmade.messages))
    (hvw.fit hi.2))

/-- A rubric holds phrases, too. -/
theorem yields_rubric : W.Yields s c.rubric := by
  refine .bind (.lift (Parse.meets_inlineParse hsite _ _)) fun made t _ hmade => ?_
  refine .bind (.build (meets_element (k := .rubric) hsite rfl nofun rfl (hmade.nodes.phrases rfl)))
    fun (i, complaints) u htu hi => ?_
  exact .pure (.append (.cons (hi.1.fit rfl) (htu.fit hmade.messages)) hi.2)

end Literal

/-! ## Images and figures -/

section Images

variable {c} (hsite : W.Tends c.site)

omit hsite in
/-- An alignment that is unknown is a complaint. -/
theorem answers_requireAlignment (alignments : List String) :
    W.Answers s (c.requireAlignment alignments) fun _ _ => True := by
  simp only [requireAlignment]
  cases c.option? "align" with
  | none => exact .pure trivial
  | some align => exact .ite (fun _ => .pure trivial) fun _ => .throw (.nil s.doc _)

include hsite

/-- An image, or a reference around one, may stand in a line. -/
theorem answers_makeImage (alignments : List String) :
    W.Yields s (c.makeImage alignments) := by
  refine .bind (answers_requireAlignment alignments) fun _ t _ _ => ?_
  refine .bind (.build (meets_element (k := .image) hsite rfl nofun rfl (.nil _ _)))
    fun (i, complaints) u _ hmade => ?_
  refine .bind (.lift (meets_setAttr i _ _)) fun _ v huv _ => ?_
  refine .bind (.forM fun key _ w _ => ?_) fun _ w hvw _ => ?_
  · cases c.option? key with
    | none => exact .pure trivial
    | some value => exact .lift (meets_setAttr i _ _)
  have huw := huv.trans hvw
  cases c.option? "target" with
  | none => exact .pure (huw.fit (.cons (hmade.1.fit rfl) hmade.2))
  | some target =>
    have hkind : (c.imageReference target).kind = .reference := by
      simp only [imageReference]
      split <;> rfl
    refine .bind (.build (Build.meets_element_as hkind nofun rfl (huw.fit (hmade.1.fit rfl))))
      fun ref x hwx href => ?_
    exact .pure (.cons (href.fit rfl) ((huw.trans hwx).fit hmade.2))

omit hsite in
/-- The nodes after a caption go to a container in the figure. -/
theorem meets_addLegend {figure : NodeId} {source : String} (hfigure : W.Made d .figure source figure)
    {nodes : List NodeId} (h : W.Fit d .container nodes) :
    W.Meets d (addLegend figure nodes) fun ns e => W.Fit e .container ns := by
  refine .ite (fun _ => .pure (hfigure.fit rfl)) fun _ => ?_
  refine .bind (Build.meets_element (fun _ => ⟨nofun, rfl⟩) h) fun legend e hde hlegend => ?_
  refine .bind (Build.meets_append_roomy ((hde.made hfigure).roomy rfl) (hlegend.fit rfl))
    fun _ f hef _ => .pure ((hde.trans hef).fit (hfigure.fit rfl))

/-- The children of the first paragraph go to the caption, and nowhere else. -/
theorem meets_fillFigure {figure : NodeId} {source : String} (hfigure : W.Made d .figure source figure)
    {nodes : List NodeId} (h : W.Fit d .container nodes) :
    W.Meets d (c.fillFigure figure nodes) fun ns e => W.Fit e .container ns := by
  cases nodes with
  | nil => exact .pure (hfigure.fit rfl)
  | cons first rest =>
    have hrest : W.Fit d .container rest := h.sublist (List.subset_cons_self _ _)
    refine Build.meets_node (.ite (fun hparagraph => .start fun hd => ?_) fun _ =>
      .ite (fun _ => meets_addLegend hfigure hrest) fun _ => ?_)
    · have hkids := hd.fit_children (p := first) hparagraph nofun rfl
      refine .bind (Build.meets_element (fun _ => ⟨nofun, rfl⟩) (hkids.roomy rfl))
        fun caption e hde hcaption => ?_
      refine .bind (Build.meets_append_roomy ((hde.made hfigure).roomy rfl) (hcaption.fit rfl))
        fun _ f hef _ => ?_
      exact meets_addLegend ((hde.trans hef).made hfigure) ((hde.trans hef).fit hrest)
    · refine .bind (meets_report hsite _ _ _) fun msg e hde hmsg => ?_
      exact .pure (.cons (hde.fit (hfigure.fit rfl)) hmsg)

/-- A figure stands in a container, over the image and what follows it. -/
theorem yields_figure (hread : W.ReadsContent read c) : W.Yields s (c.figure read) := by
  let bare : Call := { c with options := c.options.erase "align" }
  refine .bind (answers_makeImage (c := bare) hsite _) fun inner t _ hinner => ?_
  have hkind : c.figureNode.kind = .figure := by
    have hset : ∀ (n : Node) (classes : String), n.kind = .figure →
        (if c.option "figclass" = "" then n else n.setAttr "classes" classes).kind = .figure := by
      intro n classes hn
      split
      · exact hn
      · exact hn
    refine hset _ _ ?_
    split <;> rfl
  refine .bind (.build (Build.meets_element_as hkind nofun rfl (hinner.roomy rfl)))
    fun figure u _ hfigure => ?_
  refine .ite (fun _ => .pure (hfigure.fit rfl)) fun _ => ?_
  refine .bind (.lift (meets_contentNodes hread)) fun nodes v huv hnodes => ?_
  exact .build (meets_fillFigure hsite (huv.made hfigure) hnodes)

end Images

/-! ## Text from files -/

section Files

variable {c} (hsite : W.Tends c.site)

omit hsite in
/-- The document is known to depend on a file before the file is read. -/
theorem meets_readFile (path : String) :
    W.Meets s (c.readFile path)
      fun answer _ => answer = c.site.env.readText path (c.option "encoding") := by
  have hnote : W.Keeps s (Parse.modifyDocument (·.addDependency path)) :=
    Parse.meets_build (x := modify (·.addDependency path)) (P := fun _ _ => True)
      (Build.meets_modify rfl rfl rfl rfl rfl fun _ _ => .inl)
  exact .bind hnote fun _ t _ _ => .pure rfl

omit hsite in
/-- The text of a file is the one that the file gives, and there is no address
    beside it. -/
theorem answers_fileText :
    W.Answers s c.fileText fun text _ => c.has "url" = false ∧
      c.site.env.readText c.tablePath (c.option "encoding") = .ok text := by
  simp only [fileText]
  refine .guard (.nil s.doc _) fun hurl => ?_
  refine .bind (.lift (meets_readFile _)) fun answer t _ hanswer => ?_
  cases answer with
  | ok text => exact .pure ⟨by simpa using hurl, hanswer.symm⟩
  | error e => exact .throw (.nil t.doc _)

omit hsite in
/-- Raw text is given in one way or there is a complaint. -/
theorem answers_rawText : W.Answers s c.rawText fun _ _ => True := by
  refine .ite (fun _ => .guard (.nil s.doc _) fun _ => .pure trivial) fun _ => ?_
  refine .ite (fun _ => .bind answers_fileText fun _ _ _ _ => .pure trivial) fun _ => ?_
  refine .ite (fun _ => .pure trivial) fun _ => ?_
  exact .bind c.answers_requireContent fun _ _ _ _ => .pure trivial

include hsite

/-- Raw text is a leaf in a node that holds nothing else. -/
theorem yields_raw : W.Yields s c.raw := by
  refine .bind answers_rawText fun text t _ _ => ?_
  refine .bind (.build (Build.meets_leaf _)) fun leaf u _ hleaf => ?_
  refine .bind (.build (meets_element (k := .raw) hsite rfl nofun rfl (hleaf.fit rfl)))
    fun (i, _) v _ hmade => ?_
  refine .bind (.lift (meets_setAttr i _ _)) fun _ w hvw _ => ?_
  cases c.option? "url" with
  | none => exact .pure (hvw.fit (hmade.1.fit rfl))
  | some url =>
    refine .bind (.lift (meets_setAttr i _ _)) fun _ x hwx _ => ?_
    exact .pure ((hvw.trans hwx).fit (hmade.1.fit rfl))

/-- Text that is included as it stands is a leaf, too. -/
theorem meets_verbatim (path : String) (text : List Char) :
    W.Meets s (c.verbatim path text) fun ns t => W.Fit t.doc .container ns := by
  refine .bind (Parse.meets_build (Build.meets_leaf _)) fun leaf t _ hleaf => ?_
  refine .bind (Parse.meets_build (meets_element (k := .literalBlock) hsite rfl nofun rfl
    (hleaf.fit rfl))) fun (i, complaints) u _ hmade => ?_
  have hnodes : W.Fit u.doc .container (i :: complaints) := .cons (hmade.1.fit rfl) hmade.2
  refine .bind (Parse.meets_build (Build.meets_update i (fun _ => rfl) (fun _ => rfl) (fun _ => rfl)
    fun hk => absurd hmade.1.kind hk)) fun _ v huv _ => ?_
  cases c.option? "code" with
  | none => exact .pure (huv.fit hnodes)
  | some language =>
    refine .bind (meets_setAttr i _ _) fun _ w hvw _ => ?_
    refine .bind (meets_setAttr i _ _) fun _ x hwx _ => ?_
    exact .pure (((huv.trans hvw).trans hwx).fit hnodes)

omit hsite in
/-- Tabs that cannot be expanded stop the parse rather than the directive. -/
theorem answers_expanded (x : Option α) : W.Answers s (expanded x) fun a _ => x = some a := by
  cases x with
  | some a => exact .pure rfl
  | none => exact .lift (.throw fun _ => ⟨.refl _, nofun⟩)

omit hsite in
/-- Complaints about the file come alone. -/
theorem messages_eq_nil {e : Complaint} (h : ∀ n, e.Fits .any n) : e.messages = [] := by
  refine List.eq_nil_iff_forall_not_mem.mpr fun i hi => ?_
  exact Nat.lt_irrefl i ((h (i + 1)).messages i hi)

/-- An include gives no nodes: what the file holds is read to where the
    directive stands. -/
theorem yields_includeFile (hparent : W.Roomy s.doc c.site.parent)
    (hserves : W.Serves read c (.standard .includeFile)) : W.Yields s (c.includeFile read) := by
  refine .start fun hs => .get ?_
  have horigin : s.doc.origin = W.origin := hs.origin
  refine .bind (.ofExcept fun e he => messages_eq_nil fun n => c.fits_includePath he)
    fun path t hst hpath => ?_
  refine .bind (.lift (meets_readFile path)) fun file u htu hfile => ?_
  refine .bind (.ofExcept fun e he => messages_eq_nil fun n => c.fits_includedText he)
    fun text v huv htext => ?_
  rw [hfile] at htext
  rw [← Document.origin_source, horigin] at hpath
  refine .ite (fun _ => ?_) fun hplain => ?_
  · exact .bind (answers_expanded _) fun shown w _ _ => .lift (meets_verbatim hsite path shown)
  · refine .bind (answers_expanded _) fun lines w hvw hlines => ?_
    rw [← Document.origin_tabWidth, horigin] at hlines
    have hsw := ((hst.trans htu).trans huv).trans hvw
    refine .bind (.lift (Site.meets_container (hsw.roomy hparent))) fun parent x _ hroomy => ?_
    have hhands : c.Hands W.origin (.standard .includeFile) (some ⟨.included, path⟩)
        (c.includedSite path parent) ⟨0, lines⟩ :=
      .included hpath htext (Bool.eq_false_iff.mpr hplain) hlines parent
    exact .bind (.lift (hserves _ _ _ hhands x hroomy)) fun _ y _ _ => .pure (.nil y.doc _)

end Files

/-! ## Substitutions -/

section Substitutions

variable {c} (hsite : W.Tends c.site)

/-- What replaces a reference may be put anywhere. -/
theorem fit_replacement (hd : W.Holds d) {paragraph : Option NodeId}
    (hparagraph : ∀ p ∈ paragraph, (d.node p).kind = .paragraph) {messages : List NodeId}
    (hmessages : W.Fit d .container messages) {nodes : List NodeId}
    (hnodes : W.Fit d .container nodes) {result : List NodeId}
    (h : replacement d.forest paragraph messages nodes = some result) :
    W.Fit d .container result := by
  induction nodes generalizing paragraph messages with
  | nil =>
    obtain rfl := Option.some.inj h
    refine hmessages.append ?_
    cases paragraph with
    | none => exact .nil d _
    | some p =>
      exact hd.fit_children (hparagraph p rfl) nofun rfl
  | cons i rest ih =>
    have hi : W.Fit d .container [i] := hnodes.sublist (by simp)
    have hrest : W.Fit d .container rest := hnodes.sublist (List.subset_cons_self _ _)
    simp only [replacement] at h
    split at h
    · rename_i hfirst
      refine ih (fun p hp => ?_) hmessages hrest h
      cases hp
      simp only [Bool.and_eq_true, decide_eq_true_eq] at hfirst
      exact hfirst.2
    · split at h
      · exact ih hparagraph (hmessages.append hi) hrest h
      · cases h

include hsite

/-- What replaces a reference is taken out of its paragraph. -/
theorem yields_replace (hread : W.ReadsContent read c) : W.Yields s (c.replace read) := by
  refine .bind c.answers_requireSubstitution fun _ t _ _ => ?_
  refine .bind c.answers_requireContent fun _ u _ _ => ?_
  refine .bind (.lift (meets_contentNodes hread)) fun nodes v _ hnodes => .start fun hv => .get ?_
  cases hresult : replacement v.doc.forest none [] nodes with
  | some result =>
    have hdoc : W.Holds v.doc := ⟨hv.usual, hv.origin, hv.accounted, fun _ => trivial⟩
    exact .pure (fit_replacement hdoc (by simp) (.nil _ _) hnodes hresult)
  | none => exact .bind (.build (meets_report hsite _ _ _)) fun msg w _ hmsg => .pure hmsg

omit hsite in
/-- The characters of some codes are a leaf of text. -/
theorem yields_unicode : W.Yields s c.unicode := by
  refine .bind c.answers_requireSubstitution fun _ t _ _ => ?_
  refine .bind (.mapM (P := fun _ _ => True) (fun _ h => h) fun code _ u _ => ?_) fun texts u _ _ => ?_
  · split
    · exact .pure trivial
    · exact .throw (.nil u.doc _)
  · exact .bind (.build (Build.meets_leaf _)) fun i v _ hi => .pure (hi.fit rfl)

omit hsite in
/-- So is a date. -/
theorem yields_date : W.Yields s c.date := by
  refine .bind c.answers_requireSubstitution fun _ t _ _ => ?_
  exact .bind (.build (Build.meets_leaf _)) fun i u _ hi => .pure (hi.fit rfl)

end Substitutions

/-! ## Settings of the document -/

section Settings

variable {c} (hsite : W.Tends c.site)

include hsite

/-- The message about a role that is not known goes with the complaint. -/
theorem answers_unknownRole (name : String) :
    W.Answers s (c.unknownRole name) fun e t => W.Fit t.doc .container e.messages :=
  .bind (.build (Site.meets_raise hsite _ _ _ _)) fun _ _ _ hnote => .pure hnote

/-- The base of a new role makes text in a line. -/
theorem answers_baseRole (name : String) :
    W.Answers s (c.baseRole name) fun r _ => W.strict → r.isPhrase = true := by
  refine .ite (fun _ => .pure fun _ => rfl) fun _ => ?_
  refine .bind (.lift (Site.meets_role? hsite name)) fun r t _ hr => ?_
  cases r with
  | some r => exact .pure (hr r rfl)
  | none => exact .bind (answers_unknownRole hsite name) fun e u _ he => .throw he

omit hsite in
/-- A role is defined that makes text in a line. -/
theorem meets_setRole (name : String) {r : Role} (hr : W.strict → r.isPhrase = true) :
    W.Keeps s (modify fun s : ParseState => { s with roles := s.roles.set name r }) := by
  refine .modify fun hs => ⟨⟨hs.usual, hs.origin, hs.accounted, fun hstrict => ?_⟩, .refl _, .refl _,
    fun _ => .refl _⟩
  have horderly : s.Orderly := hs.orderly hstrict
  refine ⟨fun other role hget => ?_, horderly.sections⟩
  by_cases hother : other = name
  · rw [hother, Data.Table.get?_set_self] at hget
    obtain rfl := Option.some.inj hget
    exact hr hstrict
  · rw [Data.Table.get?_set_of_ne _ _ hother] at hget
    exact horderly.roles other role hget

/-- A role is built on a known one and touches no node. -/
theorem yields_defineRole : W.Yields s c.defineRole := by
  simp only [defineRole]
  refine .guard (.nil s.doc _) fun _ => ?_
  split
  · refine .bind (answers_baseRole hsite _) fun base t _ hbase => ?_
    split
    · exact .throw (.nil t.doc _)
    · refine .bind (.lift (meets_setRole _ fun hstrict => ?_)) fun _ u _ _ => .pure (.nil u.doc _)
      have := hbase hstrict
      cases base <;> exact this
  · exact .throw (.nil s.doc _)

/-- The default role is known, so it is one of the application's. -/
theorem yields_defaultRole : W.Yields s c.defaultRole := by
  have hset : ∀ (name : String) (t : ParseState),
      W.Keeps t (Parse.modifyDocument ({ · with defaultRole := name })) := fun name t =>
    Parse.meets_build (x := modify ({ · with defaultRole := name })) (P := fun _ _ => True)
      (Build.meets_modify rfl rfl rfl rfl rfl fun _ _ => .inl)
  simp only [defaultRole]
  cases c.argument? with
  | none => exact .bind (.lift (hset "" s)) fun _ t _ _ => .pure (.nil t.doc _)
  | some shown =>
    refine .bind (.lift (Site.meets_role? hsite _)) fun r t _ _ => .ite (fun _ => ?_) fun _ => ?_
    · exact .bind (answers_unknownRole hsite shown) fun e u _ he =>
        .bind (P := fun _ _ => False) (.throw he) fun _ _ _ h => h.elim
    · exact .bind (.lift (hset _ t)) fun _ u _ _ => .pure (.nil u.doc _)

omit hsite in
/-- The title of a document is an attribute of its root. -/
theorem yields_title : W.Yields s c.title :=
  .get (.bind (.lift (meets_setAttr _ _ _)) fun _ t _ _ => .pure (.nil t.doc _))

/-- A tag for a field stands where the field list did. -/
theorem meets_metadataTag (field : NodeId) :
    W.Meets d (c.metadataTag field) fun ns e => W.Fit e .container ns := by
  refine Build.meets_node ?_
  dsimp only
  split
  · refine Build.meets_asText (.ite (fun _ => ?_) fun _ => ?_)
    · refine .bind (Build.meets_raise fun _ hspot => hsite.hears _ fun hne =>
        Build.place_source hspot hne) fun msg e _ hmsg => .pure hmsg.1
    · refine .bind (Build.meets_element_as (k := .metadata) rfl nofun rfl (.nil d _)) fun i e _ hi => ?_
      exact .pure (hi.fit rfl)
  · exact .pure (.nil d _)

/-- By the nodes: messages stay, fields become tags, and anything else is an
    error. -/
theorem meets_metadataTags {nodes : List NodeId} (h : W.Fit d .container nodes) :
    W.Meets d (c.metadataTags nodes) fun ns e => W.Fit e .container ns := by
  induction nodes generalizing d with
  | nil => exact .pure (.nil d _)
  | cons i rest ih =>
    have hi : W.Fit d .container [i] := h.sublist (by simp)
    have hrest : W.Fit d .container rest := h.sublist (List.subset_cons_self _ _)
    refine Build.meets_node ?_
    split
    · exact .bind (ih hrest) fun tags e hde htags => .pure (.cons (hde.fit hi) htags)
    · refine .bind (.mapM (P := fun ns e => W.Fit e .container ns) (fun hst h => hst.fit h)
        fun field _ e _ => meets_metadataTag hsite field) fun tags e hde htags => ?_
      refine .bind (ih (hde.fit hrest)) fun more f hef hmore => ?_
      exact .pure ((hef.fit (.flatten htags)).append hmore)
    · exact .bind (meets_report hsite _ _ _) fun msg e _ hmsg => .pure hmsg

/-- The tags are made of the content that was read. -/
theorem yields_metadata (hread : W.ReadsContent read c) : W.Yields s (c.metadata read) := by
  refine .bind c.answers_requireContent fun _ t _ _ => ?_
  refine .bind (.lift (meets_contentNodes hread)) fun nodes u _ hnodes => ?_
  exact .build (meets_metadataTags hsite hnodes)

/-- A topic has room for a title. -/
theorem meets_contentsTitle {topic : NodeId} (htopic : W.Roomy s.doc topic) :
    W.Meets s (c.contentsTitle topic) fun made t => W.Fit t.doc .container made.2 := by
  simp only [contentsTitle]
  cases c.argument? with
  | some text =>
    refine .bind (Parse.meets_inlineParse hsite _ _) fun made t hst hmade => ?_
    refine .bind (Parse.meets_build (Build.meets_element_as (k := .title) rfl (by decide) rfl
      (hmade.nodes.phrases rfl))) fun title u htu htitle => ?_
    refine .bind (meets_append ((hst.trans htu).roomy htopic) (htitle.fit rfl)) fun _ v huv _ => ?_
    exact .pure ((htu.trans huv).fit hmade.messages)
  | none =>
    refine .ite (fun _ => .pure (.nil s.doc _)) fun _ => ?_
    refine .bind (Parse.meets_build (Build.meets_textElement _ fun _ => by decide))
      fun title t hst htitle => ?_
    exact .bind (meets_append (hst.roomy htopic) (htitle.fit rfl)) fun _ u _ _ => .pure (.nil u.doc _)

omit hsite in
/-- A table of contents is named for its title only if the name is free, so
    there is nothing to complain about. -/
theorem meets_nameContents {topic : NodeId} (htopic : topic < d.forest.size) (title : String) :
    W.Meets d (nameContents topic title) fun ms e => W.Fit e .container ms := by
  refine .get (.ite (fun _ => .pure (.nil d _)) fun hfree => ?_)
  have hnone : d.names.get? (normalizeName title) = none := by
    have hlookup : (d.lookup (normalizeName title)).isSome = false := by
      simp only [Bool.or_eq_true, decide_eq_true_eq, not_or, Bool.not_eq_true] at hfree
      exact hfree.2
    simpa [Document.lookup] using hlookup
  refine .bind (.also (C := fun _ e => e.names = d.names ∧ (e.node topic).names = [normalizeName title])
    (Build.meets_update topic (fun _ => rfl) (fun _ => rfl) (fun _ => rfl) fun _ => rfl) ?_)
    fun _ e _ he => ?_
  · rintro _ e ⟨⟩
    refine ⟨rfl, ?_⟩
    rw [Document.node, Forest.get_modify_self htopic]
  obtain ⟨-, hnames, hnode⟩ := he
  refine Build.meets_node ?_
  rw [hnode, List.mapM_cons]
  refine .bind (P := fun mss f => ∀ ms ∈ mss, W.Fit f .container ms) ?_
    fun mss f _ hmss => .pure (.flatten hmss)
  refine .bind (Build.meets_noteName_of_free topic false (hnames ▸ hnone)) fun ms f _ hms => ?_
  refine .bind (P := fun rest _ => rest = []) (.pure rfl) fun rest g _ hrest => .pure ?_
  rw [hms, hrest]
  exact List.forall_mem_singleton.mpr (.nil g _)

/-- The pending node of a table of contents stands in its topic. -/
theorem yields_contents : W.Yields s c.contents := by
  refine .bind c.answers_requireSection fun _ t _ _ => ?_
  refine .bind (.build (Build.meets_element_as (k := .topic) rfl nofun rfl (.nil _ _)))
    fun topic u _ htopic => ?_
  refine .bind (.lift (meets_contentsTitle hsite (htopic.roomy rfl)))
    fun (title, messages) v huv hmessages => ?_
  refine .bind (.build (meets_nameContents (huv.made htopic).inside title))
    fun complaints w hvw hcomplaints => ?_
  refine .bind (.build (meets_pending .contents _ (by decide))) fun pending x hwx hpending => ?_
  have hux := (huv.trans hvw).trans hwx
  refine .bind (.build (Build.meets_append_made (hux.made htopic) rfl hpending.1)) fun _ y hxy _ => ?_
  have hwy := hwx.trans hxy
  exact .pure (.append (.cons ((hux.trans hxy).fit (htopic.fit rfl)) ((hvw.trans hwy).fit hmessages))
    (hwy.fit hcomplaints))

omit hsite in
/-- The pending node for the numbers may stand in any container. -/
theorem yields_sectionNumbers : W.Yields s c.sectionNumbers :=
  .bind (.build (meets_pending .sectionNumbers _ (by decide))) fun _ _ _ hpending =>
    .pure (hpending.2 (by decide))

end Settings

/-! ## Tables -/

section Tables

variable {c} (hsite : W.Tends c.site)

include hsite in
/-- A table has at most one title. -/
theorem meets_tableTitle :
    W.Meets s c.tableTitle fun made t => W.Fit t.doc .container made.1 ∧ made.1.Nodup ∧
      W.Fit t.doc .container made.2 := by
  simp only [tableTitle]
  cases c.argument? with
  | none => exact .pure ⟨.nil s.doc _, List.nodup_nil, .nil s.doc _⟩
  | some text =>
    exact .bind (meets_inlineTitle hsite .title rfl (by decide) _) fun made t _ h =>
      .pure ⟨h.1.fit rfl, List.nodup_singleton _, h.2⟩

/-- A title is put first into a table, which is taken out of the content. -/
theorem meets_titleTable {table : NodeId} (htable : W.Fit d .container [table])
    (hkind : (d.node table).kind = .table) {title : List NodeId} (htitle : W.Fit d .container title)
    (hnodup : title.Nodup) :
    W.Keeps d (Build.edit fun f => (f.detach table).insert table 0 title) := by
  have hbare : ∀ i, (((d.forest.detach table).insert table 0 title).get i).bare = (d.node i).bare :=
    fun i => (Forest.bare_insert _ _ _ _ _).trans (Forest.bare_detach _ _ _)
  have hsize : ((d.forest.detach table).insert table 0 title).size = d.forest.size := by
    rw [Forest.size_insert, Forest.size_detach]
  let e : Document := { d with forest := d.forest.detach table }
  have hchanges : d.Changes e := by
    refine ⟨Nat.le_of_eq (Forest.size_detach _ _).symm, rfl, fun i _ => ?_, fun i _ _ => ?_,
      fun _ _ h => h⟩
    · exact Forest.kind_of_bare (Forest.bare_detach _ _ _)
    · exact Forest.source_of_bare (Forest.bare_detach _ _ _)
  have hinside : W.strict → table < e.forest.size := fun hstrict =>
    Nat.lt_of_lt_of_le (htable hstrict table (List.mem_singleton_self _)).inside hchanges.size
  have hkind' : W.strict → (e.node table).kind = .table := fun hstrict =>
    (hchanges.kind table (htable hstrict table (List.mem_singleton_self _)).inside).trans hkind
  have hhang : W.Fit e .table title := (htitle.roomy rfl).changes hchanges
  refine Build.meets_edit (Nat.le_of_eq hsize.symm) (fun i _ => Forest.kind_of_bare (hbare i))
    (fun i _ _ => Forest.source_of_bare (hbare i)) (fun hstrict haccounted => ?_)
    fun hstrict haccounted => .of_size hsize fun i _ hitem => ?_
  · refine (haccounted.detach table).insert (hinside hstrict) hnodup ?_ 0
    rw [hkind' hstrict]
    exact hhang hstrict
  · have hlinked : e.forest.Linked := (haccounted.detach table).proper.linked
    have htitled : i ∉ title := fun hmem =>
      Kind.ne_listItem_of_mayHold rfl (htitle hstrict i hmem).fits hitem
    have hne : i ≠ table := by
      rintro rfl
      exact absurd (hkind.symm.trans hitem) nofun
    rw [(Forest.rehung_insert hlinked (hinside hstrict)
      (fun c hc => (hhang hstrict c hc).inside) 0).parent, if_neg htitled, Forest.parent?_detach,
      if_neg hne]

include hsite

/-- The one table of the content stays where it was read to, with a title
    before its rows. -/
theorem yields_table (hread : W.ReadsContent read c) : W.Yields s (c.table read) := by
  simp only [table]
  refine .ite (fun _ => .bind (.build (meets_report hsite _ _ _)) fun msg t _ hmsg => .pure hmsg)
    fun _ => ?_
  refine .bind (.lift (meets_tableTitle hsite)) fun title t _ htitle => ?_
  refine .bind (.lift (meets_contentNodes hread)) fun nodes u htu hnodes => ?_
  split
  · rename_i table
    refine .node (.guard (.nil u.doc _) fun hkind => ?_)
    refine .bind (.build (meets_titleTable hnodes (by simpa using hkind) (htu.fit htitle.1) htitle.2.1))
      fun _ v huv _ => ?_
    refine .bind (.build (Build.meets_update table (fun _ => rfl) (fun _ => rfl) (fun _ => rfl)
      fun _ => rfl)) fun _ w hvw _ => ?_
    have huw := huv.trans hvw
    exact .pure (.cons (huw.fit hnodes) ((htu.trans huw).fit htitle.2.2))
  · exact .throw (.nil u.doc _)

omit hsite in
/-- A shape that does not fit is a complaint. -/
theorem answers_requireShape (x : Dimensions) (widths : List Nat) (columns : Nat) :
    W.Answers s (c.requireShape x widths columns) fun _ _ => True := by
  simp only [requireShape]
  split
  · exact .throw (.nil s.doc _)
  · exact .pure trivial

/-- By the rows: each is put below the table with its cells. -/
theorem meets_buildTable {title : List NodeId} (htitle : W.Fit d .container title) (x : Dimensions)
    {rows : List (List NodeId)} (hrows : ∀ cells ∈ rows, W.Fit d .container cells) :
    W.Meets d (c.buildTable title x rows) fun i e => W.Fit e .container [i] := by
  refine .bind (meets_element (k := .table) hsite rfl nofun rfl (.nil d _)) fun (table, _) e hde hmade => ?_
  refine .bind (Build.meets_append_roomy (hmade.1.roomy rfl) (hde.fit htitle)) fun _ f hef _ => ?_
  refine .bind (.forM fun p hmem g hfg => ?_) fun _ g hfg _ => .pure ((hef.trans hfg).fit (hmade.1.fit rfl))
  obtain ⟨cells, k⟩ := p
  have heg := hef.trans hfg
  have hcells := (hde.trans heg).fit (hrows cells (List.fst_mem_of_mem_zipIdx hmem))
  have hrow : ∀ (header : Prop) [Decidable header] (n : Node), n.kind = .row →
      (if header then n.setAttr "header" "true" else n).kind = .row := by
    intro header _ n hn
    split
    · exact hn
    · exact hn
  refine .bind (Build.meets_element_as (hrow _ _ rfl) nofun rfl (hcells.roomy rfl))
    fun row g' hgg' hrow => ?_
  exact Build.meets_append_roomy (((heg.trans hgg').made hmade.1).roomy rfl) (hrow.fit rfl)

omit hsite in
/-- Values that cannot be told apart are a complaint. -/
theorem answers_readValues (text : List Char) :
    W.Answers s (c.readValues text) fun rows _ => c.values? text = some rows :=
  answers_valueOr _ rfl

omit hsite in
/-- The header is of the text of its own option. -/
theorem answers_headerValues :
    W.Answers s c.headerValues fun rows _ => c.OfTexts (· ∈ c.ownTexts) rows := by
  simp only [headerValues]
  split
  · rename_i h hheader
    exact (answers_readValues _).mono fun rows _ _ hrows =>
      c.ofTexts_values? (by simp [ownTexts, hheader]) hrows
  · exact .pure fun _ h => by cases h

omit hsite in
/-- The text of the values is the content of the table or that of its
    file. -/
theorem answers_valueText :
    W.Answers s c.valueText fun text _ => c.content.isEmpty = false ∧ text ∈ c.ownTexts ∨
      c.content.isEmpty = true ∧ c.has "file" = true ∧ c.has "url" = false ∧
        c.site.env.readText c.tablePath (c.option "encoding") = .ok text := by
  simp only [valueText]
  refine .ite (fun hcontent => .guard (.nil s.doc _) fun _ => .pure (.inl ?_)) fun hcontent => ?_
  · have hfull : c.content.isEmpty = false := by simpa using hcontent
    exact ⟨hfull, by simp [ownTexts, hfull]⟩
  refine .ite (fun hfile => ?_) fun _ => ?_
  · exact answers_fileText.mono fun text _ _ htext => .inr ⟨by simpa using hcontent, hfile, htext⟩
  exact .guard (.nil s.doc _) fun _ => .throw (.nil s.doc _)

omit hsite in
/-- A cell is read as a body of its own. -/
theorem meets_readCell {read : Site → Body → Parse Unit} {text : List Char}
    (hread : Text.isBlank text = false → ∀ parent t, W.Roomy t.doc parent →
      W.Keeps t (read (c.site.within parent) ⟨c.contentOffset, Text.splitOn '\n' text⟩)) :
    W.Meets s (c.readCell read text) fun i t => W.Fit t.doc .container [i] := by
  refine .bind (Parse.meets_build (Build.meets_element_as (k := .entry) rfl nofun rfl (.nil _ _)))
    fun entry t _ hentry => ?_
  refine .ite (fun hblank => ?_) fun _ => .pure (hentry.fit rfl)
  refine .bind (hread (by simpa using hblank) entry t (hentry.roomy rfl)) fun _ u htu _ => ?_
  exact .pure (htu.fit (hentry.fit rfl))

omit hsite in
/-- The cells of a row, if its values are read well. -/
theorem meets_readRow {read : Site → Body → Parse Unit} (columns : Nat) {row : List (List Char)}
    (hread : ∀ value ∈ row, Text.isBlank value = false → ∀ parent t, W.Roomy t.doc parent →
      W.Keeps t (read (c.site.within parent) ⟨c.contentOffset, Text.splitOn '\n' value⟩)) :
    W.Meets s (c.readRow read columns row) fun ns t => W.Fit t.doc .container ns := by
  refine .mono (.mapM (P := fun i t => W.Fit t.doc .container [i]) (fun hst h => hst.fit h)
    fun value hvalue t _ => meets_readCell fun hblank => ?_) fun ns t _ h => .of_forall h
  rcases List.mem_append.mp hvalue with hrow | hempty
  · exact hread value hrow hblank
  · rw [(List.mem_replicate.mp hempty).2] at hblank
    cases hblank

/-- Each value is handed on as one of the content or of the file of the
    table. -/
theorem yields_csvTable (hserves : W.Serves read c (.standard .csvTable)) :
    W.Yields s (c.csvTable read) := by
  have hrows : ∀ (texts : List Char → Prop) (file : Option OpenFile),
      (∀ text value, texts text → c.Values text value → ∀ parent,
        c.Hands W.origin (.standard .csvTable) file (c.site.within parent)
          ⟨c.contentOffset, Text.splitOn '\n' value⟩) →
      ∀ {rows : List (List (List Char))}, c.OfTexts texts rows → ∀ columns t,
        W.Answers t (rows.mapM fun row => liftM (c.readRow (read.pick file) columns row))
          fun cells u => ∀ row ∈ cells, W.Fit u.doc .container row := by
    intro texts file hands rows hofTexts columns t
    refine .mapM (fun hst h => hst.fit h) fun row hrow u _ => .lift (meets_readRow columns
      fun value hvalue hblank parent v hroomy => ?_)
    obtain ⟨text, htext, hfound⟩ := hofTexts row hrow value hvalue hblank
    exact hserves file _ _ (hands text value htext hfound parent) v hroomy
  refine .bind answers_valueText fun text t _ htext => ?_
  refine .bind (.lift (meets_tableTitle hsite)) fun (title, messages) u _ htitle => ?_
  refine .bind answers_headerValues fun header v huv hheader => ?_
  refine .bind (answers_readValues text) fun values w hvw hvalues => .guard (.nil w.doc _) fun _ => ?_
  refine .bind (answers_requireShape _ _ _) fun _ x hwx _ => ?_
  refine .bind (hrows (· ∈ c.ownTexts) none (fun _ _ hown hfound => .cell hown hfound) hheader _ x)
    fun top y hxy htop => ?_
  refine .bind (P := fun cells z => ∀ row ∈ cells, W.Fit z.doc .container row) ?_
    fun below z hyz hbelow => ?_
  · rcases htext with ⟨hfull, hown⟩ | ⟨hempty, hfile, hurl, hreadable⟩
    · simp only [hfull, Bool.false_eq_true, if_false]
      exact hrows (· ∈ c.ownTexts) none (fun _ _ hown hfound => .cell hown hfound)
        (c.ofTexts_values? hown hvalues) _ y
    · simp only [hempty, if_true]
      refine hrows (text = ·) (some ⟨.cells, c.tablePath⟩) ?_ (c.ofTexts_values? rfl hvalues) _ y
      rintro _ value rfl hfound
      exact .filed hempty hfile hurl hreadable hfound
  have huz := (((huv.trans hvw).trans hwx).trans hxy).trans hyz
  have htop' : ∀ row ∈ top, W.Fit z.doc .container row := fun row hrow => hyz.fit (htop row hrow)
  refine .bind (.build (meets_buildTable hsite (huz.fit htitle.1) _
    (List.forall_mem_append.mpr ⟨htop', hbelow⟩))) fun table z' hzz' htable => ?_
  exact .pure (.cons htable ((huz.trans hzz').fit htitle.2.2))

omit hsite in
/-- The nodes in the cells of a list may be put anywhere. -/
theorem fit_listCells (hd : W.Holds d) {nodes : List NodeId} {rows : List (List (List NodeId))}
    (h : listCells d.forest nodes = .ok rows) :
    ∀ row ∈ rows, ∀ cell ∈ row, W.Fit d .container cell := by
  obtain ⟨_, items, _, rfl, -, -, hitems, rfl⟩ := listCells_ok h
  intro row hrow cell hcell hstrict
  obtain ⟨_, hmem, rfl⟩ := List.mem_map.mp hrow
  obtain ⟨kid, hkid, rfl⟩ := List.mem_map.mp hcell
  obtain ⟨_, -, inner, -, hkind, rfl⟩ := (hitems _ hmem).list
  have haccounted : d.Accounted := hd.accounted hstrict
  have hitem := haccounted.kind_of_mem_list (congrArg Kind.isList hkind) hkid
  exact hd.fit_children hitem nofun rfl hstrict

/-- The nodes of each cell are put below an entry. -/
theorem yields_listedTable {title messages : List NodeId} (htitle : W.Fit s.doc .container title)
    (hmessages : W.Fit s.doc .container messages) {rows : List (List (List NodeId))}
    (hrows : ∀ row ∈ rows, ∀ cell ∈ row, W.Fit s.doc .container cell) :
    W.Yields s (c.listedTable title messages rows) := by
  refine .bind (P := fun cells t => ∀ row ∈ cells, W.Fit t.doc .container row)
    (.mapM (P := fun row t => W.Fit t.doc .container row) (fun hst h => hst.fit h)
      fun row hrow t hst => .mono (.mapM (P := fun i t => W.Fit t.doc .container [i])
        (fun hst h => hst.fit h) fun cell hcell u htu => ?_) fun ns u _ h => .of_forall h)
    fun cells t hst hcells => ?_
  · have hcell := (hst.trans htu).fit (hrows row hrow cell hcell)
    refine .mono (.build (Build.meets_element_as (k := .entry) rfl nofun rfl (hcell.roomy rfl)))
      fun i v _ hi => ?_
    exact hi.fit rfl
  refine .bind (answers_requireShape _ _ _) fun _ u htu _ => ?_
  have hsu := hst.trans htu
  refine .bind (.build (meets_buildTable hsite (hsu.fit htitle) _ fun row hrow =>
    htu.fit (hcells row hrow))) fun table v huv htable => ?_
  exact .pure (.cons htable ((hsu.trans huv).fit hmessages))

/-- The cells are looked up in the forest that reading the content left. -/
theorem yields_listTable (hread : W.ReadsContent read c) : W.Yields s (c.listTable read) := by
  simp only [listTable]
  refine .guard (.nil s.doc _) fun _ => ?_
  refine .bind (.lift (meets_tableTitle hsite)) fun title t _ htitle => ?_
  refine .bind (.lift (meets_contentNodes hread)) fun nodes u htu hnodes => .start fun hu => .get ?_
  cases hcells : listCells u.doc.forest nodes with
  | error e => exact .throw (.nil u.doc _)
  | ok rows =>
    have hdoc : W.Holds u.doc := ⟨hu.usual, hu.origin, hu.accounted, fun _ => trivial⟩
    exact yields_listedTable hsite (htu.fit htitle.1) (htu.fit htitle.2.2) (fit_listCells hdoc hcells)

end Tables

/-! ## Any directive -/

section Any

variable {c} (hsite : W.Tends c.site)

include hsite

/-- By the directives: each answers with what its own kind of node may hold. -/
theorem yields_runStandard (hparent : W.Roomy s.doc c.site.parent) (std : StandardDirective)
    (hserves : W.Serves read c (.standard std)) : W.Yields s (c.runStandard read std) := by
  have hread : std.readsContent = true → W.ReadsContent read c := fun hreads parent t hroomy =>
    hserves none _ _ (.content (d := .standard std) hreads parent) t hroomy
  cases std with
  | admonition type => exact yields_admonition hsite (hread rfl) type
  | titledAdmonition => exact yields_titledAdmonition hsite (hread rfl)
  | image => exact answers_makeImage hsite _
  | figure => exact yields_figure hsite (hread rfl)
  | code => exact yields_code hsite
  | math => exact yields_math hsite
  | parsedLiteral => exact yields_parsedLiteral hsite
  | topic => exact yields_pseudoSection hsite (hread rfl) rfl rfl nofun
  | sidebar => exact yields_pseudoSection hsite (hread rfl) rfl rfl nofun
  | rubric => exact yields_rubric hsite
  | quotation style => exact yields_quotation hsite (hread rfl) style
  | compound => exact yields_compound hsite (hread rfl)
  | container => exact yields_container hsite (hread rfl)
  | contents => exact yields_contents hsite
  | sectionNumbers => exact yields_sectionNumbers
  | targetNotes => exact .pure (.nil s.doc _)
  | header => exact yields_decoration hsite (hread rfl) rfl rfl nofun
  | footer => exact yields_decoration hsite (hread rfl) rfl rfl nofun
  | includeFile => exact yields_includeFile hsite hparent hserves
  | raw => exact yields_raw hsite
  | replace => exact yields_replace hsite (hread rfl)
  | unicode => exact yields_unicode
  | date => exact yields_date
  | classes => exact yields_classes (hread rfl)
  | defineRole => exact yields_defineRole hsite
  | defaultRole => exact yields_defaultRole hsite
  | title => exact yields_title
  | metadata => exact yields_metadata hsite (hread rfl)
  | table => exact yields_table hsite (hread rfl)
  | csvTable => exact yields_csvTable hsite hserves
  | listTable => exact yields_listTable hsite (hread rfl)

omit hsite in
/-- A directive that an application added, by what it answers, is for a watch
    that is not strict. -/
theorem yields_give (hlax : ¬W.strict) (shown : String) (custom : CustomDirective)
    (hserves : W.Serves read c (.custom custom)) :
    W.Yields s (c.give read shown (custom.behaviour.answer c.toDirectiveUse)) := by
  have hfit : ∀ (d : Document) (k : Kind) (ns : List NodeId), W.Fit d k ns := fun _ _ _ hstrict =>
    absurd hstrict hlax
  have hread : custom.behaviour.answer c.toDirectiveUse = .nested → W.ReadsContent read c :=
    fun hnested parent t hroomy => hserves none _ _
      (.content (by simp only [Directive.readsContent, hnested]) parent) t hroomy
  cases hanswer : custom.behaviour.answer c.toDirectiveUse with
  | fail reason => exact .lift (.throw fun _ => ⟨.refl _, fun _ h => by simp [failure] at h⟩)
  | abort reason => exact .lift (.throw fun _ => ⟨.refl _, fun _ h => by cases h⟩)
  | complain level message => exact .throw (.nil s.doc _)
  | pending kind priority options =>
    refine .bind (.build (Build.meets_pending _ _ _ fun hstrict => absurd hstrict hlax))
      fun i t _ _ => .pure (hfit _ _ _)
  | nested =>
    refine .bind c.answers_requireContent fun _ t _ _ => ?_
    refine .bind (.build (Build.meets_element_as (k := .compound) rfl (by decide) rfl (.nil _ _)))
      fun i u _ hi => ?_
    exact .bind (.lift (hread hanswer i u (hi.roomy rfl))) fun _ v _ _ => .pure (hfit _ _ _)
  | container attributes =>
    refine .bind (.build (Build.meets_element (fun hstrict => absurd hstrict hlax) (hfit _ _ _)))
      fun i t _ _ => .pure (hfit _ _ _)

/-- **Directives keep under watch**, whichever they are. -/
theorem yields_run (hparent : W.Roomy s.doc c.site.parent) (shown : String) (directive : Directive)
    (hbuiltin : W.strict → ∀ custom, directive ≠ .custom custom)
    (hserves : W.Serves read c directive) : W.Yields s (c.run read shown directive) := by
  cases directive with
  | standard std => exact yields_runStandard hsite hparent std hserves
  | ignored => exact .pure (.nil s.doc _)
  | custom custom =>
    exact yields_give (fun hstrict => hbuiltin hstrict custom rfl) shown custom hserves

end Any

end Call

end MarkupLint
