import MarkupLint.Proofs.Handing
import MarkupLint.Proofs.Pledge

/-! # Directives keep their pledge

    One lemma for each directive: run at one place in any two worlds, it
    gives the same new nodes or the same complaint, unless the document
    comes to depend on a file that the worlds do not have alike.  A
    directive leaves the open sections alone, but for one that includes a
    file where sections may start. -/

namespace MarkupLint

open Discipline

variable {v w : World} {L : License} {n : Nat} {keep : Prop}

/-- A directive gives nodes that are new, the same in both worlds. -/
abbrev Gives (v w : World) (L : License) (n : Nat) (keep : Prop) (x y : Run (List NodeId)) : Prop :=
  Pledge v w L n keep (AllNew n) x y

/-- A pass with some options may be asked for. -/
def License.Grants (L : License) (pass : Pass) (options : List (String × Data.Value)) : Prop :=
  ∀ target, L.requests ⟨pass.kind, pass.priority, target, options⟩

/-- Every stop, every level and every pass is allowed. -/
structure License.Free (L : License) : Prop where
  stops : ∀ e, L.stops e
  levels : ∀ l, L.levels l
  requests : ∀ r, L.requests r

/-- The license that allows everything is free. -/
theorem License.free_any : License.any.Free :=
  ⟨fun _ => trivial, fun _ => trivial, fun _ => trivial⟩

/-- So is one for a single document. -/
theorem License.free_anyOf (o : Origin) : (License.anyOf o).Free :=
  ⟨fun _ => trivial, fun _ => trivial, fun _ => trivial⟩

namespace Call

/-- The use of a directive in a world. -/
def under (c : Call) (w : World) : Call := { c with site := c.site.under w }

@[simp] theorem under_option? (c : Call) (key : String) : (c.under w).option? key = c.option? key :=
  rfl

@[simp] theorem under_has (c : Call) (key : String) : (c.under w).has key = c.has key := rfl

@[simp] theorem under_argument? (c : Call) : (c.under w).argument? = c.argument? := rfl

@[simp] theorem under_content (c : Call) : (c.under w).content = c.content := rfl

@[simp] theorem under_contentOffset (c : Call) : (c.under w).contentOffset = c.contentOffset := rfl

/-- The tabs of the text that is included can be expanded: in all of the text
    if it is included as it stands, and otherwise in every line. -/
def Expands (c : Call) (about : Origin → Prop) : Prop :=
  ∀ o path text, about o → c.includePath o.source = .ok path →
    c.includedText path (c.site.env.readText path (c.option "encoding")) = .ok text →
    (c.isVerbatim = true → (expandTabs? (c.tabWidth o.tabWidth) text).isSome) ∧
      (c.isVerbatim = false → (splitLines? (c.tabWidth o.tabWidth) text).isSome)

/-- A positive width that can be written out will do for any text. -/
theorem expands_of_tabWidth {c : Call} {about : Origin → Prop}
    (h : ∀ o, about o → 0 < c.tabWidth o.tabWidth ∧ c.tabWidth o.tabWidth ≤ longestRun) :
    c.Expands about :=
  fun o _ _ ho _ _ => ⟨fun _ => expandTabs?_isSome fun _ => h o ho,
    fun _ => splitLines?_isSome fun _ => h o ho⟩

/-- What a directive that an application added answers is allowed. -/
def AnswerLicensed (L : License) : DirectiveAnswer → Prop
  | .fail _ => ∀ reason, L.stops (.failed reason)
  | .abort _ => ∀ reason, L.stops (.aborted reason)
  | .complain level _ => L.levels level
  | .pending kind priority options => ∀ target, L.requests ⟨kind, priority, target, options⟩
  | .nested | .container _ => True

/-- What a directive does is allowed. -/
def Licensed (L : License) (c : Call) : Directive → Prop
  | .standard .includeFile => L.stops .fault ∨ c.Expands L.about
  | .standard .contents => L.Grants .contents c.optionValues
  | .standard .sectionNumbers => L.Grants .sectionNumbers c.optionValues
  | .standard .classes => ∀ options, L.Grants .classAttribute options
  | .standard _ | .ignored => True
  | .custom d => AnswerLicensed L (d.behaviour.answer c.toDirectiveUse)

/-- Where every level and every pass is allowed, and every stop of a step that
    comes to an end, any directive may be used. -/
theorem licensed_of_stops (hstops : ∀ e, e ≠ .exhausted → e ≠ .endless → L.stops e)
    (hlevels : ∀ l, L.levels l) (hrequests : ∀ r, L.requests r) (c : Call) (d : Directive) :
    c.Licensed L d := by
  unfold Licensed
  split
  · exact .inl (hstops _ (by decide) (by decide))
  · exact fun _ => hrequests _
  · exact fun _ => hrequests _
  · exact fun _ _ => hrequests _
  · trivial
  · trivial
  · unfold AnswerLicensed
    split
    · exact fun _ => hstops _ (by simp) (by simp)
    · exact fun _ => hstops _ (by simp) (by simp)
    · exact hlevels _
    · exact fun _ => hrequests _
    · trivial
    · trivial

/-- With a free license everything is allowed. -/
theorem licensed_of_free (hfree : L.Free) (c : Call) (d : Directive) : c.Licensed L d :=
  licensed_of_stops (fun e _ _ => hfree.stops e) hfree.levels hfree.requests c d

/-- No section may start in what a directive hands on to be read. -/
def Calm (L : License) (c : Call) (d : Directive) : Prop :=
  ∀ o file site body, L.about o → c.Hands o d file site body → site.titles = false

/-- Sections may start in a body that is handed on only if it is included
    where they may. -/
theorem Hands.titles {c : Call} {o : Origin} {d : Directive} {file : Option OpenFile} {site : Site}
    {body : Body} (h : c.Hands o d file site body) :
    site.titles = false ∨ d = .standard .includeFile ∧ site.titles = c.site.titles := by
  cases h with
  | content | cell | filed => exact .inl rfl
  | included => exact .inr ⟨rfl, rfl⟩

/-- Where no section may start, none starts in what is handed on either. -/
theorem calm_of_titles {c : Call} (h : c.site.titles = false) (d : Directive) : c.Calm L d :=
  fun _ _ _ _ _ hhands => hhands.titles.elim id fun hincluded => hincluded.2.trans h

/-- What two readers make of the content keeps a contract. -/
def ReadsContent (v w : World) (L : License) (n : Nat) (keep : Prop) (read read' : ReadBody)
    (c : Call) : Prop :=
  ∀ parent, Contract (growing v w L n keep) Anything ((c.under v).readContent read parent)
    ((c.under w).readContent read' parent)

/-- What two readers make of the bodies that a directive hands on keeps a
    contract, and leaves the open sections alone where none may start. -/
def Served (v w : World) (L : License) (n : Nat) (keep : Prop) (read read' : ReadBody) (c : Call)
    (d : Directive) : Prop :=
  ∀ o file site body, L.about o → (c.under v).Hands o d file site body →
    (keep → site.titles = false) →
    Contract (growing v w L n keep) Anything (read.pick file site body)
      (read'.pick file (site.under w) body)

/-! ## Shared steps -/

section Shared

variable (c : Call)

/-- Whether there is content does not depend on the world. -/
theorem pledge_requireContent :
    Pledge v w L n keep Anything (c.under v).requireContent (c.under w).requireContent :=
  .ite (fun _ => .pure trivial) fun _ => .throw (.nil n rfl L.error)

/-- Nor does whether a substitution is being defined. -/
theorem pledge_requireSubstitution :
    Pledge v w L n keep Anything (c.under v).requireSubstitution (c.under w).requireSubstitution :=
  .ite (fun _ => .pure trivial) fun _ => .throw (.nil n rfl L.error)

/-- The kind of the node around a directive is the same in both worlds. -/
theorem grow_inSidebar :
    Contract (growing v w L n keep) Anything (Parse.build (c.under v).inSidebar)
      (Parse.build (c.under w).inSidebar) := by
  refine Parse.grow_build (Build.contract_node fun a b hab => ?_)
  rw [hab.kind]
  exact .pure trivial

/-- So is whether a directive stands where a section may. -/
theorem pledge_requireSection :
    Pledge v w L n keep Anything (c.under v).requireSection
      (c.under w).requireSection := by
  refine .bind (.lift c.grow_inSidebar) fun inside _ => ?_
  exact .ite (fun _ => .pure trivial) fun _ => .throw (.nil n rfl L.error)

/-- A message with the lines of a directive is of an allowed level. -/
theorem grow_report (level : Level) (text : String) (quote : Bool)
    (hlevel : L.levels level) :
    Contract (growing v w L n keep) (n ≤ ·) (Parse.build ((c.under v).report level text quote))
      (Parse.build ((c.under w).report level text quote)) :=
  c.site.grow_raise _ _ _ _ hlevel

/-- The node of a directive, over nodes that are new. -/
theorem hang_element (a : Node) {children : List NodeId} (h : AllNew n children) :
    Contract (hanging v w L n) (fun made => n ≤ made.1 ∧ AllNew n made.2)
      ((c.under v).element a children) ((c.under w).element a children) := by
  simp only [element, under_option?]
  cases c.option? "name" with
  | none => exact .bind (Build.hang_element (.refl _) h) fun i hi => .pure ⟨hi, .nil n⟩
  | some name =>
    refine .bind (Build.hang_element (.refl _) h) fun i hi => ?_
    refine .bind (.hang (P := AllNew) (fun _ => Build.aside_noteTarget i true)
      fun _ _ hnm hm => hm.mono hnm) fun complaints hcomplaints => ?_
    exact .pure ⟨hi, hcomplaints⟩

/-- The same node, as a step of parsing. -/
theorem grow_element (a : Node) {children : List NodeId} (h : AllNew n children) :
    Contract (growing v w L n keep) (fun made => n ≤ made.1 ∧ AllNew n made.2)
      (Parse.build ((c.under v).element a children))
      (Parse.build ((c.under w).element a children)) :=
  Parse.grow_build (c.hang_element a h)

/-- The inline markup of a title gives new nodes and new messages. -/
theorem grow_inlineTitle (kind : Kind) (text : String) :
    Contract (growing v w L n keep) (fun made => n ≤ made.1 ∧ AllNew n made.2)
      ((c.under v).inlineTitle kind text) ((c.under w).inlineTitle kind text) := by
  refine .bind (Parse.grow_inlineParse c.site _ _) fun made hmade => ?_
  refine .bind (Parse.grow_build (Build.hang_element (.refl _) hmade.1)) fun i hi => ?_
  exact .pure ⟨hi, hmade.2⟩

/-- A pending node is new, and its pass has to be granted. -/
theorem grow_pending (pass : Pass) (options : List (String × Data.Value))
    (hgrants : L.Grants pass options) :
    Contract (growing v w L n keep) (n ≤ ·) (Parse.build ((c.under v).pending pass options))
      (Parse.build ((c.under w).pending pass options)) :=
  Parse.grow_new fun _ => Build.aside_pending _ _ _ _ hgrants

/-- A node is given an attribute. -/
theorem grow_setAttr (i : NodeId) (key value : String) :
    Contract (growing v w L n keep) Anything (Parse.build (Build.setAttr i key value))
      (Parse.build (Build.setAttr i key value)) :=
  Parse.grow_build (Build.hang_setAttr i key rfl fun _ => rfl)

/-- New nodes are put below a node. -/
theorem grow_append (p : NodeId) {ns : List NodeId} (h : AllNew n ns) :
    Contract (growing v w L n keep) Anything (Parse.build (Build.append p ns))
      (Parse.build (Build.append p ns)) :=
  Parse.grow_build (Build.hang_append p h)

variable {read read' : ReadBody} (hread : c.ReadsContent v w L n keep read read')

include hread in
/-- The nodes of the content are new. -/
theorem grow_contentNodes :
    Contract (growing v w L n keep) (AllNew n) ((c.under v).contentNodes read)
      ((c.under w).contentNodes read') := by
  refine .bind (Parse.grow_build (Build.hang_element (.refl _) (.nil n))) fun box hbox => ?_
  refine .bind (hread box) fun _ _ => ?_
  refine Parse.grow_node fun a b hkids hab => ?_
  rw [hab.children]
  exact .pure (hkids hbox)

end Shared

/-! ## Boxes -/

section Boxes

variable (c : Call) {read read' : ReadBody} (hread : c.ReadsContent v w L n keep read read')

include hread in
/-- An admonition holds its content; complaints about its name follow it. -/
theorem gives_admonition (type : String) :
    Gives v w L n keep ((c.under v).admonition read type) ((c.under w).admonition read' type) := by
  refine .bind c.pledge_requireContent fun _ _ => ?_
  refine .bind (.lift (c.grow_element _ (.nil n))) fun (i, complaints) hmade => ?_
  refine .bind (.lift (grow_setAttr i _ _)) fun _ _ => ?_
  refine .bind (.lift (hread i)) fun _ _ => ?_
  exact .pure (.cons hmade.1 hmade.2)

include hread in
/-- One with a title of its own takes the messages of the title in. -/
theorem gives_titledAdmonition :
    Gives v w L n keep ((c.under v).titledAdmonition read) ((c.under w).titledAdmonition read') := by
  refine .bind c.pledge_requireContent fun _ _ => ?_
  refine .bind (.lift (c.grow_inlineTitle _ _)) fun (title, messages) htitle => ?_
  refine .bind (.lift (c.grow_element _ (.one htitle.1))) fun (i, complaints) hmade => ?_
  refine .bind (.lift (grow_setAttr i _ _)) fun _ _ => ?_
  refine .bind (.lift (grow_append i htitle.2)) fun _ _ => ?_
  refine .bind (.lift (hread i)) fun _ _ => ?_
  exact .pure (.cons hmade.1 hmade.2)

/-- A title is read and added if there is one; its messages are handed up. -/
theorem grow_addTitle (i : NodeId) (kind : Kind) (text : Option String) :
    Contract (growing v w L n keep) (AllNew n) ((c.under v).addTitle i kind text)
      ((c.under w).addTitle i kind text) := by
  cases text with
  | none => exact .pure (.nil n)
  | some text =>
    refine .bind (c.grow_inlineTitle _ _) fun (title, messages) htitle => ?_
    exact .bind (grow_append i (.one htitle.1)) fun _ _ => .pure htitle.2

include hread in
/-- A topic or a sidebar: a box with titles, in which no section may start. -/
theorem gives_pseudoSection (kind : Kind) :
    Gives v w L n keep ((c.under v).pseudoSection read kind)
      ((c.under w).pseudoSection read' kind) := by
  refine .bind (.lift c.grow_inSidebar) fun inside _ => .guard (.nil n rfl L.error) fun _ => ?_
  refine .bind c.pledge_requireSection fun _ _ => ?_
  refine .bind c.pledge_requireContent fun _ _ => ?_
  refine .bind (.lift (c.grow_element _ (.nil n))) fun (i, complaints) hmade => ?_
  refine .bind (.lift (c.grow_addTitle i _ _)) fun titleMessages htitle => ?_
  refine .bind (.lift (c.grow_addTitle i _ _)) fun subtitleMessages hsubtitle => ?_
  refine .bind (.lift (grow_append i ((hmade.2.append htitle).append hsubtitle))) fun _ _ => ?_
  refine .bind (.lift (hread i)) fun _ _ => ?_
  exact .pure (.one hmade.1)

include hread in
/-- An epigraph, highlights or a pull quote is its content in a box. -/
theorem gives_quotation (style : String) :
    Gives v w L n keep ((c.under v).quotation read style) ((c.under w).quotation read' style) := by
  refine .bind c.pledge_requireContent fun _ _ => ?_
  refine .bind (.lift (c.grow_element _ (.nil n))) fun (i, _) hmade => ?_
  refine .bind (.lift (grow_setAttr i _ _)) fun _ _ => ?_
  refine .bind (.lift (hread i)) fun _ _ => ?_
  exact .pure (.one hmade.1)

include hread in
/-- A compound is its content in a box, too. -/
theorem gives_compound :
    Gives v w L n keep ((c.under v).compound read) ((c.under w).compound read') := by
  refine .bind c.pledge_requireContent fun _ _ => ?_
  refine .bind (.lift (c.grow_element _ (.nil n))) fun (i, complaints) hmade => ?_
  refine .bind (.lift (hread i)) fun _ _ => ?_
  exact .pure (.cons hmade.1 hmade.2)

/-- The argument of a directive is the same in both worlds. -/
theorem pledge_classArgument :
    Pledge v w L n keep Anything (c.under v).classArgument (c.under w).classArgument := by
  simp only [classArgument, argument, under_argument?]
  split
  · exact .pure trivial
  · exact .throw (.nil n rfl L.error)

include hread in
/-- A container has classes only if it has an argument. -/
theorem gives_container :
    Gives v w L n keep ((c.under v).container read) ((c.under w).container read') := by
  refine .bind c.pledge_requireContent fun _ _ => ?_
  refine .bind (.lift (c.grow_element _ (.nil n))) fun (i, complaints) hmade => ?_
  refine .ite (fun _ => ?_) fun _ => ?_
  · refine .bind c.pledge_classArgument fun classes _ => ?_
    refine .bind (.lift (grow_setAttr i _ _)) fun _ _ => ?_
    refine .bind (.lift (hread i)) fun _ _ => ?_
    exact .pure (.cons hmade.1 hmade.2)
  · refine .bind (.lift (hread i)) fun _ _ => ?_
    exact .pure (.cons hmade.1 hmade.2)

include hread in
/-- A header or a footer is its content in a box. -/
theorem gives_decoration (kind : Kind) :
    Gives v w L n keep ((c.under v).decoration read kind) ((c.under w).decoration read' kind) := by
  refine .bind c.pledge_requireContent fun _ _ => ?_
  refine .bind (.lift (c.grow_element _ (.nil n))) fun (i, _) hmade => ?_
  refine .bind (.lift (hread i)) fun _ _ => ?_
  exact .pure (.one hmade.1)

include hread in
/-- Without content the classes wait for the next element; otherwise they are
    set on each node of the content. -/
theorem gives_classes (hgrants : ∀ options, L.Grants .classAttribute options) :
    Gives v w L n keep ((c.under v).classes read) ((c.under w).classes read') := by
  refine .bind c.pledge_classArgument fun classes _ => ?_
  refine .ite (fun _ => .bind (.lift (c.grow_pending _ _ (hgrants _))) fun i hi => .pure (.one hi))
    fun _ => ?_
  refine .bind (.lift (c.grow_contentNodes hread)) fun nodes hnodes => ?_
  refine .bind (.forM fun i _ => .node fun a b _ hab => ?_) fun _ _ => .pure hnodes
  rw [hab.attr? (by decide) (by decide)]
  exact .lift (grow_setAttr i _ _)

end Boxes

/-! ## Literal text and rubrics -/

section Literal

variable (c : Call)

/-- Code is one leaf of text, with the language as an attribute if one is
    named. -/
theorem gives_code : Gives v w L n keep (c.under v).code (c.under w).code := by
  refine .bind c.pledge_requireContent fun _ _ => .guard (.nil n rfl L.error) fun _ => ?_
  refine .bind (.lift (Parse.grow_new fun _ => Build.aside_leaf _)) fun text htext => ?_
  refine .bind (.lift (c.grow_element _ (.one htext))) fun (i, complaints) hmade => ?_
  simp only [under_argument?]
  cases c.argument? with
  | none =>
    refine .bind (.lift (grow_setAttr i _ _)) fun _ _ => ?_
    exact .pure (.cons hmade.1 hmade.2)
  | some language =>
    refine .bind (.lift (grow_setAttr i _ _)) fun _ _ => ?_
    refine .bind (.lift (grow_setAttr i _ _)) fun _ _ => ?_
    exact .pure (.cons hmade.1 hmade.2)

/-- Each block of a formula is a node of its own. -/
theorem gives_math : Gives v w L n keep (c.under v).math (c.under w).math := by
  refine .bind c.pledge_requireContent fun _ _ => ?_
  refine .bind (.mapM (P := AllNew n) fun block _ => ?_) fun made hmade => ?_
  · refine .bind (.lift (Parse.grow_new fun _ => Build.aside_leaf _)) fun text htext => ?_
    refine .bind (.lift (c.grow_element _ (.one htext))) fun (i, complaints) hmade => ?_
    exact .pure (.cons hmade.1 hmade.2)
  · exact .pure (.flatten hmade)

/-- The inline markup of a literal block is read, its lines are kept. -/
theorem gives_parsedLiteral :
    Gives v w L n keep (c.under v).parsedLiteral (c.under w).parsedLiteral := by
  refine .bind c.pledge_requireContent fun _ _ => ?_
  refine .bind (.lift (Parse.grow_inlineParse c.site _ _)) fun made hmade => ?_
  refine .bind (.lift (c.grow_element _ hmade.1)) fun (i, complaints) hi => ?_
  refine .bind (.lift (grow_setAttr i _ _)) fun _ _ => ?_
  exact .pure (.append (.cons hi.1 hmade.2) hi.2)

/-- A rubric is its argument, read as inline markup. -/
theorem gives_rubric : Gives v w L n keep (c.under v).rubric (c.under w).rubric := by
  refine .bind (.lift (Parse.grow_inlineParse c.site _ _)) fun made hmade => ?_
  refine .bind (.lift (c.grow_element _ hmade.1)) fun (i, complaints) hi => ?_
  exact .pure (.append (.cons hi.1 hmade.2) hi.2)

end Literal

/-! ## Images and figures -/

section Images

variable (c : Call)

/-- An alignment is looked for in a list that no world changes. -/
theorem pledge_requireAlignment (alignments : List String) :
    Pledge v w L n keep Anything ((c.under v).requireAlignment alignments)
      ((c.under w).requireAlignment alignments) := by
  simp only [requireAlignment, under_option?]
  cases c.option? "align" with
  | none => exact .pure trivial
  | some align => exact .ite (fun _ => .pure trivial) fun _ => .throw (.nil n rfl L.error)

/-- An image that leads somewhere stands in a new reference. -/
theorem gives_makeImage (alignments : List String) :
    Gives v w L n keep ((c.under v).makeImage alignments) ((c.under w).makeImage alignments) := by
  refine .bind (c.pledge_requireAlignment alignments) fun _ _ => ?_
  refine .bind (.lift (c.grow_element _ (.nil n))) fun (i, complaints) hmade => ?_
  refine .bind (.lift (grow_setAttr i _ _)) fun _ _ => ?_
  simp only [under_option?]
  refine .bind (.forM fun key _ => ?_) fun _ _ => ?_
  · cases c.option? key with
    | none => exact .pure trivial
    | some value => exact .lift (grow_setAttr i _ _)
  · cases c.option? "target" with
    | none => exact .pure (.cons hmade.1 hmade.2)
    | some target =>
      refine .bind (.lift (Parse.grow_build (Build.hang_element (.refl _) (.one hmade.1))))
        fun ref href => ?_
      exact .pure (.cons href hmade.2)

/-- What follows the caption of a figure goes to a legend, if anything does. -/
theorem hang_addLegend {figure : NodeId} (hfigure : n ≤ figure) {nodes : List NodeId}
    (h : AllNew n nodes) :
    Contract (hanging v w L n) (AllNew n) (addLegend figure nodes) (addLegend figure nodes) := by
  refine .ite (fun _ => .pure (.one hfigure)) fun _ => ?_
  refine .bind (Build.hang_element (.refl _) h) fun legend hlegend => ?_
  exact .bind (Build.hang_append figure (.one hlegend)) fun _ _ => .pure (.one hfigure)

/-- The first node of a figure becomes its caption, is an empty comment, or is
    an error; the rest is the legend. -/
theorem hang_fillFigure {figure : NodeId} (hfigure : n ≤ figure) {nodes : List NodeId}
    (h : AllNew n nodes) :
    Contract (hanging v w L n) (AllNew n) ((c.under v).fillFigure figure nodes)
      ((c.under w).fillFigure figure nodes) := by
  cases nodes with
  | nil => exact .pure (.one hfigure)
  | cons first rest =>
    obtain ⟨hfirst, hrest⟩ := List.forall_mem_cons.mp h
    refine Build.hang_node fun a b hkids hab => ?_
    rw [hab.kind, hab.children, hab.line]
    refine .ite (fun _ => ?_) fun _ => .ite (fun _ => ?_) fun _ => ?_
    · refine .bind (Build.hang_element (.refl _) (hkids hfirst)) fun caption hcaption => ?_
      refine .bind (Build.hang_append figure (.one hcaption)) fun _ _ => ?_
      exact hang_addLegend hfigure hrest
    · exact hang_addLegend hfigure hrest
    · refine .bind (.hang (P := fun m i => m ≤ i) (fun _ => c.site.aside_raise _ _ _ _ L.error)
        fun _ _ hnm hm => Nat.le_trans hnm hm) fun msg hmsg => ?_
      exact .pure (.cons hfigure (.one hmsg))

/-- A figure holds an image and what its content is made of. -/
theorem gives_figure {read read' : ReadBody}
    (hread : c.ReadsContent v w L n keep read read') :
    Gives v w L n keep ((c.under v).figure read) ((c.under w).figure read') := by
  let bare : Call := { c with options := c.options.erase "align" }
  refine .bind (bare.gives_makeImage _) fun inner hinner => ?_
  refine .bind (.lift (Parse.grow_build (Build.hang_element (.refl _) hinner)))
    fun figure hfigure => ?_
  refine .ite (fun _ => .pure (.one hfigure)) fun _ => ?_
  refine .bind (.lift (c.grow_contentNodes hread)) fun nodes hnodes => ?_
  exact .lift (Parse.grow_build (c.hang_fillFigure hfigure hnodes))

end Images

/-! ## Text from files -/

section Files

variable (c : Call)

/-- A file is noted before it is read, so runs part only where the worlds
    are known to differ. -/
theorem grow_readFile (path : String) :
    Contract (growing v w L n keep)
      (· = (c.under v).site.env.readText path (c.option "encoding"))
      ((c.under v).readFile path) ((c.under w).readFile path) := by
  have hsteady : ∀ d : Document, d.Steady L (d.addDependency path) := by
    intro d
    refine ⟨rfl, rfl, rfl, ⟨[], .refl _⟩, fun _ h => ?_, fun _ h => .inl h⟩
    simp only [Document.addDependency]
    split
    · exact h
    · exact List.mem_append_left _ h
  have hnote : Contract (growing v w L n keep) Anything
      (Parse.modifyDocument (·.addDependency path))
      (Parse.modifyDocument (·.addDependency path)) :=
    Parse.grow_modifyDocument _ (fun _ _ _ => rfl) (fun _ => rfl) hsteady
  by_cases hsame : v.files.read path = w.files.read path
  · have htext : (c.under v).site.env.readText path (c.option "encoding")
        = (c.under w).site.env.readText path (c.option "encoding") := by
      show v.files.readText c.site.env.conventions.decoders path _
        = w.files.readText c.site.env.conventions.decoders path _
      simp only [FileTree.readText, hsame]
    refine .bind hnote fun _ _ => ?_
    show Contract (growing v w L n keep) _
      (pure ((c.under v).site.env.readText path (c.option "encoding")))
      (pure ((c.under w).site.env.readText path (c.option "encoding")))
    rw [← htext]
    exact .pure rfl
  · intro s t hst hready
    obtain ⟨hgrown, -, -⟩ := hnote s t hst hready
    refine ⟨hgrown, rfl, .spoiled ⟨path, ?_, hsame⟩⟩
    show path ∈ (s.doc.addDependency path).dependencies
    simp only [Document.addDependency]
    split
    · assumption
    · exact List.mem_append_right _ (List.mem_singleton_self path)

/-- The text of a file is the one that the first world has. -/
theorem pledge_fileText :
    Pledge v w L n keep
      (fun text => c.has "url" = false ∧
        (c.under v).site.env.readText c.tablePath (c.option "encoding") = .ok text)
      (c.under v).fileText (c.under w).fileText := by
  simp only [fileText]
  refine .guard (.nil n rfl L.error) fun hurl => ?_
  refine .bind (.lift (c.grow_readFile _)) fun answer hanswer => ?_
  cases answer with
  | ok text => exact .pure ⟨by simpa using hurl, hanswer.symm⟩
  | error e => exact .throw (.nil n rfl L.severe)

/-- Raw text is given in one way only: by a file, an address or the content. -/
theorem pledge_rawText :
    Pledge v w L n keep Anything (c.under v).rawText (c.under w).rawText := by
  refine .ite (fun _ => .guard (.nil n rfl L.error) fun _ => .pure trivial) fun _ => ?_
  refine .ite (fun _ => .bind c.pledge_fileText fun _ _ => .pure trivial) fun _ => ?_
  refine .ite (fun _ => .pure trivial) fun _ => ?_
  exact .bind c.pledge_requireContent fun _ _ => .pure trivial

/-- Raw text is one leaf, so a file shows up in the document as a dependency
    only. -/
theorem gives_raw : Gives v w L n keep (c.under v).raw (c.under w).raw := by
  refine .bind c.pledge_rawText fun text _ => ?_
  refine .bind (.lift (Parse.grow_new fun _ => Build.aside_leaf _)) fun leaf hleaf => ?_
  refine .bind (.lift (c.grow_element _ (.one hleaf))) fun (i, _) hmade => ?_
  refine .bind (.lift (grow_setAttr i _ _)) fun _ _ => ?_
  simp only [under_option?]
  cases c.option? "url" with
  | none => exact .pure (.one hmade.1)
  | some url => exact .bind (.lift (grow_setAttr i _ _)) fun _ _ => .pure (.one hmade.1)

/-- Text that is included as it stands is one leaf. -/
theorem grow_verbatim (path : String) (text : List Char) :
    Contract (growing v w L n keep) (AllNew n) ((c.under v).verbatim path text)
      ((c.under w).verbatim path text) := by
  refine .bind (Parse.grow_new fun _ => Build.aside_leaf _) fun leaf hleaf => ?_
  refine .bind (c.grow_element _ (.one hleaf)) fun (i, complaints) hmade => ?_
  refine .bind (Parse.grow_build (Build.hang_update i ?_ (fun _ => rfl) fun _ => rfl))
    fun _ _ => ?_
  · exact fun _ _ _ => ⟨rfl, rfl, rfl, rfl⟩
  simp only [under_option?]
  cases c.option? "code" with
  | none => exact .pure (.cons hmade.1 hmade.2)
  | some language =>
    refine .bind (grow_setAttr i _ _) fun _ _ => ?_
    exact .bind (grow_setAttr i _ _) fun _ _ => .pure (.cons hmade.1 hmade.2)

/-- If tabs cannot be expanded, the document stops, and has to be allowed
    to. -/
theorem pledge_expanded {α : Type} (x : Option α) (h : L.stops .fault ∨ x.isSome) :
    Pledge v w L n keep (x = some ·) (expanded x) (expanded x) := by
  cases x with
  | some a => exact .pure rfl
  | none => exact .lift (.throw fun _ => .inl (h.resolve_right (by simp)))

/-- A path that is missing or leads round a circle is a severe error or a
    warning. -/
theorem fits_includePath {document : String} {e : Complaint}
    (h : c.includePath document = .error e) : e.Fits L n := by
  simp only [includePath] at h
  split at h
  · cases h
    exact .nil n rfl L.severe
  · split at h
    · cases h
      exact .nil n rfl L.warning
    · cases h

/-- A marker that is not found is a severe error. -/
theorem fits_besideMarker {option : String} {side : List Char × List Char → List Char}
    {text : List Char} {e : Complaint} (h : c.besideMarker option side text = .error e) :
    e.Fits L n := by
  simp only [besideMarker] at h
  split at h
  · cases h
  · split at h
    · cases h
    · cases h
      exact .nil n rfl L.severe

/-- The second marker is looked for in what the first one leaves. -/
theorem fits_selectMarked {text : List Char} {e : Complaint}
    (h : c.selectMarked text = .error e) : e.Fits L n := by
  simp only [selectMarked, bind, Except.bind] at h
  split at h
  · cases h
    exact c.fits_besideMarker ‹_›
  · exact c.fits_besideMarker h

/-- So is a file that cannot be read or decoded. -/
theorem fits_includedText {path : String} {x : Except SourceError (List Char)} {e : Complaint}
    (h : c.includedText path x = .error e) : e.Fits L n := by
  cases x with
  | ok text => exact c.fits_selectMarked h
  | error err =>
    simp only [includedText] at h
    split at h
    · cases h
      exact .nil n rfl L.severe
    · cases h
      exact .nil n rfl L.severe

/-- An include gives nothing itself. The lines of the file are handed on, the
    same ones in both worlds, unless the document was found to depend on a file
    that differs. -/
theorem gives_includeFile {read read' : ReadBody}
    (hserved : c.Served v w L n keep read read' (.standard .includeFile))
    (hcalm : keep → (c.under v).Calm L (.standard .includeFile))
    (htabs : L.stops .fault ∨ (c.under v).Expands L.about) :
    Gives v w L n keep ((c.under v).includeFile read) ((c.under w).includeFile read') := by
  refine .get ?_
  rintro s _ ⟨_, ⟨forest, halt, hlike, hsooner⟩, rfl⟩ ⟨-, -, habout⟩
  refine .bind (.ofExcept fun e he => (c.under v).fits_includePath he) fun path hpath => ?_
  refine .bind (.lift (c.grow_readFile path)) fun file hfile => ?_
  refine .bind (.ofExcept fun e he => (c.under v).fits_includedText he) fun text htext => ?_
  rw [hfile] at htext
  rw [← Document.origin_source] at hpath
  have hexpandable : L.stops .fault ∨
      (c.isVerbatim = true → (expandTabs? (c.tabWidth s.doc.tabWidth) text).isSome) ∧
        (c.isVerbatim = false → (splitLines? (c.tabWidth s.doc.tabWidth) text).isSome) :=
    htabs.imp_right fun hexpands => hexpands _ _ _ habout hpath htext
  refine .ite (fun hverbatim => ?_) fun hplain => ?_
  · refine .bind (pledge_expanded _ (hexpandable.imp_right fun h => h.1 hverbatim)) fun shown _ => ?_
    exact .lift (c.grow_verbatim path shown)
  · have hplain : c.isVerbatim = false := Bool.eq_false_iff.mpr hplain
    refine .bind (pledge_expanded _ (hexpandable.imp_right fun h => h.2 hplain)) fun lines hlines => ?_
    refine .bind (.lift c.site.grow_container) fun parent _ => ?_
    rw [← Document.origin_tabWidth] at hlines
    have hhands : (c.under v).Hands s.doc.origin (.standard .includeFile)
        (some ⟨.included, path⟩) ((c.under v).includedSite path parent) ⟨0, lines⟩ :=
      .included hpath htext hplain hlines parent
    have hbody := hserved s.doc.origin _ _ _ habout hhands fun hkeep =>
      hcalm hkeep _ _ _ _ habout hhands
    exact .bind (.lift hbody) fun _ _ => .pure (.nil n)

end Files

/-! ## Substitutions -/

section Substitutions

variable (c : Call)

/-- What replaces a reference is told by the kinds of the nodes. -/
theorem replacement_alike {same : Prop} {f g : Forest} (h : f.Alike same g) (paragraph : Option NodeId)
    (messages nodes : List NodeId) :
    replacement g paragraph messages nodes = replacement f paragraph messages nodes := by
  induction nodes generalizing paragraph messages with
  | nil =>
    have hkids : g.children = f.children := funext h.children
    simp only [replacement, hkids]
  | cons i rest ih => simp only [replacement, h.kind, ih]

/-- What replaces a reference is new. -/
theorem replacement_new {f : Forest} (hf : f.Closed n) {paragraph : Option NodeId}
    (hparagraph : ∀ p ∈ paragraph, n ≤ p) {messages : List NodeId} (hmessages : AllNew n messages)
    {nodes : List NodeId} (hnodes : AllNew n nodes) {result : List NodeId}
    (h : replacement f paragraph messages nodes = some result) : AllNew n result := by
  induction nodes generalizing paragraph messages with
  | nil =>
    obtain rfl := Option.some.inj h
    refine hmessages.append ?_
    cases paragraph with
    | none => exact .nil n
    | some p => exact hf p (hparagraph p rfl)
  | cons i rest ih =>
    obtain ⟨hi, hrest⟩ := List.forall_mem_cons.mp hnodes
    simp only [replacement] at h
    split at h
    · exact ih (fun p hp => by cases hp; exact hi) hmessages hrest h
    · split at h
      · exact ih hparagraph (hmessages.append (.one hi)) hrest h
      · cases h

/-- The content of a replacement is one paragraph; anything else is
    reported. -/
theorem gives_replace {read read' : ReadBody}
    (hread : c.ReadsContent v w L n keep read read') :
    Gives v w L n keep ((c.under v).replace read) ((c.under w).replace read') := by
  refine .bind c.pledge_requireSubstitution fun _ _ => ?_
  refine .bind c.pledge_requireContent fun _ _ => ?_
  refine .bind (.lift (c.grow_contentNodes hread)) fun nodes hnodes => .get ?_
  rintro s _ ⟨_, ⟨forest, halt, hlike, hsooner⟩, rfl⟩ hready
  simp only [replacement_alike hlike]
  cases hresult : replacement s.doc.forest none [] nodes with
  | some result => exact .pure (replacement_new hready.2.1 (by simp) (.nil n) hnodes hresult)
  | none => exact .bind (.lift (c.grow_report _ _ _ L.error)) fun msg hmsg => .pure (.one hmsg)

/-- Each code is a character or the directive is refused. -/
theorem gives_unicode : Gives v w L n keep (c.under v).unicode (c.under w).unicode := by
  refine .bind c.pledge_requireSubstitution fun _ _ => ?_
  refine .bind (.mapM (P := Anything) fun code _ => ?_) fun texts _ => ?_
  · split
    · exact .pure trivial
    · exact .throw (.nil n rfl L.error)
  · exact .bind (.lift (Parse.grow_new fun _ => Build.aside_leaf _)) fun i hi => .pure (.one hi)

/-- A date has one shade in both worlds, and is the same if the clocks are. -/
theorem gives_date : Gives v w L n keep (c.under v).date (c.under w).date := by
  refine .bind c.pledge_requireSubstitution fun _ _ => ?_
  refine .bind (.lift (Parse.grow_new fun _ => Build.aside_leaf_shade ?_ fun hclock => ?_))
    fun i hi => .pure (.one hi)
  · exact Shade.of_lookAlike (c.site.env.conventions.date_alike _ _ _)
  · have hsame : (c.under v).site.env.clock = (c.under w).site.env.clock := hclock
    rw [hsame]
    rfl

end Substitutions

/-! ## Settings of the document -/

section Settings

variable (c : Call)

/-- A role that is not known is reported, whatever becomes of the directive. -/
theorem pledge_unknownRole (name : String) :
    Pledge v w L n keep (·.Fits L n) ((c.under v).unknownRole name)
      ((c.under w).unknownRole name) :=
  .bind (.lift (c.site.grow_raise _ _ _ _ L.info)) fun _ hnote =>
    .pure ⟨.one hnote, L.error⟩

/-- A role is built on one that is known. -/
theorem pledge_baseRole (name : String) :
    Pledge v w L n keep Anything ((c.under v).baseRole name)
      ((c.under w).baseRole name) := by
  refine .ite (fun _ => .pure trivial) fun _ => ?_
  refine .bind (.lift (c.site.grow_role? name)) fun r _ => ?_
  cases r with
  | some r => exact .pure trivial
  | none => exact .bind (c.pledge_unknownRole name) fun e he => .throw he

/-- A role that is defined is kept with the roles of the parse, in no node. -/
theorem gives_defineRole : Gives v w L n keep (c.under v).defineRole (c.under w).defineRole := by
  simp only [defineRole]
  refine .guard (.nil n rfl L.error) fun _ => ?_
  simp only [under_content, under_contentOffset]
  split
  · refine .bind (c.pledge_baseRole _) fun base _ => ?_
    split
    · exact .throw (.nil n rfl L.error)
    · refine .bind (.modify ?_) fun _ _ => .pure (.nil n)
      rintro s _ ⟨d, hd, rfl⟩ _
      exact ⟨⟨.refl n _, .refl _, fun _ => ⟨rfl, rfl⟩⟩, ⟨d, hd, rfl⟩, [], .refl _ _⟩
  · exact .throw (.nil n rfl L.error)

/-- The default role is set only if it is known. -/
theorem gives_defaultRole :
    Gives v w L n keep (c.under v).defaultRole (c.under w).defaultRole := by
  have hset : ∀ name : String, Contract (growing v w L n keep) Anything
      (Parse.modifyDocument ({ · with defaultRole := name }))
      (Parse.modifyDocument ({ · with defaultRole := name })) := fun name =>
    Parse.grow_modifyDocument _ (fun _ _ _ => rfl) (fun _ => rfl) fun _ => .same rfl rfl rfl rfl rfl rfl
  simp only [defaultRole, under_argument?]
  cases c.argument? with
  | none => exact .bind (.lift (hset "")) fun _ _ => .pure (.nil n)
  | some shown =>
    refine .bind (.lift (c.site.grow_role? _)) fun r _ => .ite (fun _ => ?_) fun _ => ?_
    · exact .bind (c.pledge_unknownRole shown) fun e he =>
        .bind (P := fun _ => False) (.throw he) fun _ h => h.elim
    · exact .bind (.lift (hset _)) fun _ _ => .pure (.nil n)

/-- A title is an attribute of the root. -/
theorem gives_title : Gives v w L n keep (c.under v).title (c.under w).title := by
  refine .get ?_
  rintro s _ ⟨_, ⟨forest, halt, hlike, hsooner⟩, rfl⟩ _
  exact .bind (.lift (grow_setAttr _ _ _)) fun _ _ => .pure (.nil n)

/-- The tag for a field repeats its text, of one shade in both worlds. -/
theorem aside_metadataTag (field : NodeId) :
    Contract (aside v w L n) (AllNew n) ((c.under v).metadataTag field)
      ((c.under w).metadataTag field) := by
  refine Build.contract_node fun a b hab => ?_
  rw [hab.kind, hab.children, hab.line]
  split
  · rename_i _ _ _ body _ hkind _
    rw [hab.value (by rw [hkind]; decide)]
    refine Build.contract_asText fun s t hst hsame => ?_
    have hempty : String.ofList (Text.trim s.toList) = "" ↔
        String.ofList (Text.trim t.toList) = "" := by
      rw [Shade.trim_eq_empty_iff, Shade.trim_eq_empty_iff, hst]
    by_cases hs : String.ofList (Text.trim s.toList) = ""
    · dsimp only
      rw [if_pos hs, if_pos (hempty.mp hs)]
      exact .bind (Build.aside_raise _ _ _ L.info) fun msg hmsg => .pure (.one hmsg)
    · dsimp only
      rw [if_neg hs, if_neg (mt hempty.mpr hs)]
      -- The tag repeats the text of its field, in which the runs may differ.
      refine .bind (Build.aside_element (.setAttr (.refl _) ?_ fun hclock => ?_) (.nil n))
        fun i hi => .pure (.one hi)
      · rfl
      · rw [hsame hclock]
  · exact .pure (.nil n)

/-- By the nodes: messages stay, fields become tags, and the first node that is
    neither is an error. -/
theorem hang_metadataTags {nodes : List NodeId} (h : AllNew n nodes) :
    Contract (hanging v w L n) (AllNew n) ((c.under v).metadataTags nodes)
      ((c.under w).metadataTags nodes) := by
  induction nodes with
  | nil => exact .pure (.nil n)
  | cons i rest ih =>
    obtain ⟨hi, hrest⟩ := List.forall_mem_cons.mp h
    refine Build.contract_node fun a b hab => ?_
    rw [hab.kind, hab.children]
    split
    · exact .bind (ih hrest) fun tags htags => .pure (.cons hi htags)
    · refine .bind (.mapM fun field _ => .hang (P := AllNew) (fun _ => c.aside_metadataTag field)
        fun _ _ hnm hm => hm.mono hnm) fun tags htags => ?_
      exact .bind (ih hrest) fun more hmore => .pure (.append (.flatten htags) hmore)
    · refine .bind (.hang (P := fun m i => m ≤ i) (fun _ => c.site.aside_raise _ _ _ _ L.error)
        fun _ _ hnm hm => Nat.le_trans hnm hm) fun msg hmsg => ?_
      exact .pure (.one hmsg)

/-- The fields of metadata are read as a field list first. -/
theorem gives_metadata {read read' : ReadBody}
    (hread : c.ReadsContent v w L n keep read read') :
    Gives v w L n keep ((c.under v).metadata read) ((c.under w).metadata read') := by
  refine .bind c.pledge_requireContent fun _ _ => ?_
  refine .bind (.lift (c.grow_contentNodes hread)) fun nodes hnodes => ?_
  exact .lift (Parse.grow_build (c.hang_metadataTags hnodes))

/-- A table of contents has the title that it is given, or a usual one unless
    it is local. -/
theorem grow_contentsTitle (topic : NodeId) :
    Contract (growing v w L n keep) (fun made => AllNew n made.2) ((c.under v).contentsTitle topic)
      ((c.under w).contentsTitle topic) := by
  simp only [contentsTitle, under_argument?]
  cases c.argument? with
  | some text =>
    refine .bind (Parse.grow_inlineParse c.site _ _) fun made hmade => ?_
    refine .bind (Parse.grow_build (Build.hang_element (.refl _) hmade.1)) fun title htitle => ?_
    exact .bind (grow_append topic (.one htitle)) fun _ _ => .pure hmade.2
  | none =>
    refine .ite (fun _ => .pure (.nil n)) fun _ => ?_
    refine .bind (Parse.grow_new fun _ => Build.aside_textElement _ _) fun title htitle => ?_
    exact .bind (grow_append topic (.one htitle)) fun _ _ => .pure (.nil n)

/-- A table of contents is a target by its title unless that is taken. -/
theorem hang_nameContents (topic : NodeId) (title : String) :
    Contract (hanging v w L n) (AllNew n) (nameContents topic title) (nameContents topic title) := by
  refine .get ?_
  rintro d _ ⟨forest, halt, hlike, hsooner⟩ _
  refine .ite (fun _ => .pure (.nil n)) fun _ => ?_
  refine .bind (Build.hang_update topic ?_ (fun _ => rfl) fun _ => rfl) fun _ _ => ?_
  · exact fun _ _ _ => ⟨rfl, rfl, rfl, rfl⟩
  · exact .hang (P := AllNew) (fun _ => Build.aside_noteTarget _ _) fun _ _ hnm hm => hm.mono hnm

/-- The list itself is left to a pass; here is its topic and a pending node. -/
theorem gives_contents (hgrants : L.Grants .contents c.optionValues) :
    Gives v w L n keep (c.under v).contents (c.under w).contents := by
  refine .bind c.pledge_requireSection fun _ _ => ?_
  refine .bind (.lift (Parse.grow_build (Build.hang_element (.refl _) (.nil n))))
    fun topic htopic => ?_
  refine .bind (.lift (c.grow_contentsTitle topic)) fun (title, messages) hmessages => ?_
  refine .bind (.lift (Parse.grow_build (hang_nameContents topic title)))
    fun complaints hcomplaints => ?_
  refine .bind (.lift (c.grow_pending _ _ hgrants)) fun pending hpending => ?_
  refine .bind (.lift (grow_append topic (.one hpending))) fun _ _ => ?_
  exact .pure (.append (.cons htopic hmessages) hcomplaints)

/-- Numbering is left to a pass, too. -/
theorem gives_sectionNumbers (hgrants : L.Grants .sectionNumbers c.optionValues) :
    Gives v w L n keep (c.under v).sectionNumbers (c.under w).sectionNumbers :=
  .bind (.lift (c.grow_pending _ _ hgrants)) fun _ hpending => .pure (.one hpending)

end Settings

/-! ## Tables -/

section Tables

variable (c : Call)

/-- The title of a table is its argument. -/
theorem grow_tableTitle :
    Contract (growing v w L n keep) (fun made => AllNew n made.1 ∧ AllNew n made.2)
      (c.under v).tableTitle (c.under w).tableTitle := by
  simp only [tableTitle, under_argument?]
  cases c.argument? with
  | none => exact .pure ⟨.nil n, .nil n⟩
  | some text =>
    exact .bind (c.grow_inlineTitle _ _) fun (title, messages) h => .pure ⟨.one h.1, h.2⟩

/-- A title goes before the rows of a table. -/
theorem hang_titleTable {table : NodeId} (htable : n ≤ table) {title : List NodeId}
    (htitle : AllNew n title) :
    Contract (hanging v w L n) Anything
      (Build.edit fun f => (f.detach table).insert table 0 title)
      (Build.edit fun f => (f.detach table).insert table 0 title) :=
  Build.contract_edit (fun _ _ => (Forest.Grows.detach htable).trans (.insert table 0 htitle))
    fun h => (h.detach table).insert table 0 title

/-- A table directive takes the one table in its content and gives it a
    title. -/
theorem gives_table {read read' : ReadBody}
    (hread : c.ReadsContent v w L n keep read read') :
    Gives v w L n keep ((c.under v).table read) ((c.under w).table read') := by
  simp only [table]
  refine .ite (fun _ => .bind (.lift (c.grow_report _ _ _ L.warning)) fun msg hmsg => .pure (.one hmsg))
    fun _ => ?_
  refine .bind (.lift c.grow_tableTitle) fun (title, messages) htitle => ?_
  refine .bind (.lift (c.grow_contentNodes hread)) fun nodes hnodes => ?_
  dsimp only
  split
  · rename_i table
    have htable : n ≤ table := hnodes table (List.mem_singleton_self table)
    refine .node fun a b _ hab => ?_
    rw [hab.kind]
    refine .guard (.nil n rfl L.error) fun _ => ?_
    refine .bind (.lift (Parse.grow_build (hang_titleTable htable htitle.1))) fun _ _ => ?_
    refine .bind (.lift (Parse.grow_build
      (Build.hang_update table ?_ (fun _ => rfl) fun _ => rfl))) fun _ _ => ?_
    · exact fun _ _ _ => ⟨rfl, rfl, rfl, rfl⟩
    · exact .pure (.cons htable htitle.2)
  · exact .throw (.nil n rfl L.error)

/-- The shape of a table is worked out from counts alone. -/
theorem pledge_requireShape (d : Dimensions) (widths : List Nat) (columns : Nat)
    :
    Pledge v w L n keep Anything (c.requireShape d widths columns) (c.requireShape d widths columns) := by
  simp only [requireShape]
  split
  · exact .throw (.nil n rfl L.error)
  · exact .pure trivial

/-- By the rows: each is a node over its cells. -/
theorem hang_buildTable {title : List NodeId} (htitle : AllNew n title) (d : Dimensions)
    {rows : List (List NodeId)} (hrows : ∀ cells ∈ rows, AllNew n cells) :
    Contract (hanging v w L n) (n ≤ ·) ((c.under v).buildTable title d rows)
      ((c.under w).buildTable title d rows) := by
  refine .bind (c.hang_element _ (.nil n)) fun (table, _) hmade => ?_
  refine .bind (Build.hang_append table htitle) fun _ _ => ?_
  refine .bind (.forM fun p hmem => ?_) fun _ _ => .pure hmade.1
  obtain ⟨cells, k⟩ := p
  have hcells : AllNew n cells := hrows cells (List.fst_mem_of_mem_zipIdx hmem)
  refine .bind (Build.hang_element (.refl _) hcells) fun row hrow => ?_
  exact Build.hang_append table (.one hrow)

/-- Values that cannot be told apart are refused. -/
theorem pledge_readValues (text : List Char) :
    Pledge v w L n keep (c.values? text = some ·) (c.readValues text) (c.readValues text) := by
  simp only [readValues, valueOr]
  cases c.values? text with
  | some rows => exact .pure rfl
  | none => exact .throw (.nil n rfl L.error)

/-- A value that is not blank is one of some texts. -/
def OfTexts (c : Call) (texts : List Char → Prop) (rows : List (List (List Char))) : Prop :=
  ∀ row ∈ rows, ∀ value ∈ row, Text.isBlank value = false →
    ∃ text, texts text ∧ c.Values text value

/-- The values of a text are of that text. -/
theorem ofTexts_values? {texts : List Char → Prop} {text : List Char} (htext : texts text)
    {rows : List (List (List Char))} (h : c.values? text = some rows) : c.OfTexts texts rows :=
  fun row hrow _ hvalue hblank => ⟨text, htext, rows, h, ⟨row, hrow, hvalue⟩, hblank⟩

/-- The header of a table is of the text of its own option. -/
theorem pledge_headerValues :
    Pledge v w L n keep (c.OfTexts (· ∈ c.ownTexts)) c.headerValues c.headerValues := by
  simp only [headerValues]
  split
  · rename_i h hheader
    refine Contract.mono (c.pledge_readValues _) fun answer hanswer => ?_
    cases answer with
    | error e => exact hanswer
    | ok rows => exact c.ofTexts_values? (by simp [ownTexts, hheader]) hanswer
  · exact .pure fun _ h => by cases h

/-- The text of the values is the content of the table or that of its
    file. -/
theorem pledge_valueText :
    Pledge v w L n keep
      (fun text => c.content.isEmpty = false ∧ text ∈ c.ownTexts ∨
        c.content.isEmpty = true ∧ c.has "file" = true ∧ c.has "url" = false ∧
          (c.under v).site.env.readText c.tablePath (c.option "encoding") = .ok text)
      (c.under v).valueText (c.under w).valueText := by
  simp only [valueText]
  refine .ite (fun hcontent => .guard (.nil n rfl L.error) fun _ => .pure (.inl ?_)) fun hcontent => ?_
  · have hfull : c.content.isEmpty = false := by simpa using hcontent
    exact ⟨hfull, by simp [ownTexts, hfull]⟩
  refine .ite (fun hfile => ?_) fun _ => ?_
  · refine Contract.mono c.pledge_fileText fun answer hanswer => ?_
    cases answer with
    | error e => exact hanswer
    | ok text => exact .inr ⟨by simpa using hcontent, hfile, hanswer⟩
  exact .guard (.nil n rfl L.warning) fun _ => .throw (.nil n rfl L.warning)

/-- A cell is read as a body of its own unless it is blank. -/
theorem grow_readCell {read read' : Site → Body → Parse Unit} {text : List Char}
    (hread : Text.isBlank text = false → ∀ parent,
      Contract (growing v w L n keep) Anything
        (read ((c.under v).site.within parent) ⟨c.contentOffset, Text.splitOn '\n' text⟩)
        (read' ((c.under w).site.within parent) ⟨c.contentOffset, Text.splitOn '\n' text⟩)) :
    Contract (growing v w L n keep) (n ≤ ·) ((c.under v).readCell read text)
      ((c.under w).readCell read' text) := by
  refine .bind (Parse.grow_build (Build.hang_element (.refl _) (.nil n))) fun entry hentry => ?_
  refine .ite (fun hblank => ?_) fun _ => .pure hentry
  refine .bind (hread (by simpa using hblank) entry) fun _ _ => ?_
  exact .pure hentry

/-- The cells of a row, if its values are read well. -/
theorem grow_readRow {read read' : Site → Body → Parse Unit} (columns : Nat)
    {row : List (List Char)}
    (hread : ∀ value ∈ row, Text.isBlank value = false → ∀ parent,
      Contract (growing v w L n keep) Anything
        (read ((c.under v).site.within parent) ⟨c.contentOffset, Text.splitOn '\n' value⟩)
        (read' ((c.under w).site.within parent) ⟨c.contentOffset, Text.splitOn '\n' value⟩)) :
    Contract (growing v w L n keep) (AllNew n) ((c.under v).readRow read columns row)
      ((c.under w).readRow read' columns row) := by
  refine .mapM fun value hvalue => c.grow_readCell fun hblank => ?_
  rcases List.mem_append.mp hvalue with hrow | hempty
  · exact hread value hrow hblank
  · rw [(List.mem_replicate.mp hempty).2] at hblank
    cases hblank

/-- The rows of the header and then the others, each value of the content or of
    the file that the table names. -/
theorem gives_csvTable {read read' : ReadBody}
    (hserved : c.Served v w L n keep read read' (.standard .csvTable)) (habout : ∃ o, L.about o) :
    Gives v w L n keep ((c.under v).csvTable read) ((c.under w).csvTable read') := by
  obtain ⟨o, ho⟩ := habout
  have hrows : ∀ (texts : List Char → Prop) (file : Option OpenFile),
      (∀ text value, texts text → c.Values text value → ∀ parent,
        (c.under v).Hands o (.standard .csvTable) file ((c.under v).site.within parent)
          ⟨c.contentOffset, Text.splitOn '\n' value⟩) →
      ∀ {rows : List (List (List Char))}, c.OfTexts texts rows → ∀ columns,
        Pledge v w L n keep (fun cells => ∀ row ∈ cells, AllNew n row)
          (rows.mapM fun row => liftM ((c.under v).readRow (read.pick file) columns row))
          (rows.mapM fun row => liftM ((c.under w).readRow (read'.pick file) columns row)) := by
    intro texts file hands rows hofTexts columns
    refine .mapM fun row hrow => .lift (c.grow_readRow columns fun value hvalue hblank parent => ?_)
    obtain ⟨text, htext, hfound⟩ := hofTexts row hrow value hvalue hblank
    exact hserved o file _ _ ho (hands text value htext hfound parent) fun _ => rfl
  refine .bind c.pledge_valueText fun text htext => ?_
  refine .bind (.lift c.grow_tableTitle) fun (title, messages) htitle => ?_
  refine .bind c.pledge_headerValues fun header hheader => ?_
  refine .bind (c.pledge_readValues text) fun values hvalues => .guard (.nil n rfl L.error) fun _ => ?_
  refine .bind (c.pledge_requireShape _ _ _) fun _ _ => ?_
  refine .bind (hrows (· ∈ c.ownTexts) none (fun _ _ hown hfound => .cell hown hfound) hheader _)
    fun top htop => ?_
  refine .bind (P := fun cells => ∀ row ∈ cells, AllNew n row) ?_ fun below hbelow => ?_
  · rcases htext with ⟨hfull, hown⟩ | ⟨hempty, hfile, hurl, hreadable⟩
    · simp only [under_content, hfull, Bool.false_eq_true, if_false]
      exact hrows (· ∈ c.ownTexts) none (fun _ _ hown hfound => .cell hown hfound)
        (c.ofTexts_values? hown hvalues) _
    · simp only [under_content, hempty, if_true]
      refine hrows (text = ·) (some ⟨.cells, c.tablePath⟩) ?_ (c.ofTexts_values? rfl hvalues) _
      rintro _ value rfl hfound
      exact .filed hempty hfile hurl hreadable hfound
  refine .bind (.lift (Parse.grow_build (c.hang_buildTable htitle.1 _
    (List.forall_mem_append.mpr ⟨htop, hbelow⟩)))) fun table htable => ?_
  exact .pure (.cons htable htitle.2)

/-- The rows of a list are told by kinds and children. -/
theorem listRows_alike {same : Prop} {f g : Forest} (h : f.Alike same g) (columns : Option Nat) (k : Nat)
    (items : List NodeId) : listRows g columns k items = listRows f columns k items := by
  induction items generalizing columns k with
  | nil => rfl
  | cons item rest ih => simp only [listRows, h.children, h.kind, ih]

/-- So are the cells. -/
theorem listCells_alike {same : Prop} {f g : Forest} (h : f.Alike same g) (nodes : List NodeId) :
    listCells g nodes = listCells f nodes := by
  have hkids : g.children = f.children := funext h.children
  simp only [listCells, h.kind, listRows_alike h, hkids]

/-- A row that is read off some items: one of them has a list and nothing
    else, and its items are the cells. -/
structure IsListed (f : Forest) (items : List NodeId) (columns : Nat) (row : List NodeId) : Prop where
  length : row.length = columns
  list : ∃ item ∈ items, ∃ list, f.children item = [list] ∧ (f.get list).kind = .bulletList ∧
    f.children list = row

/-- Every item is read as a row, and all rows are as long as the first: by
    induction on the items. -/
theorem listRows_ok {f : Forest} {columns : Option Nat} {k : Nat} {items : List NodeId}
    {rows : List (List NodeId)} (h : listRows f columns k items = .ok rows) :
    rows.length = items.length ∧ ∃ n, (∀ m, columns = some m → m = n) ∧
      ∀ row ∈ rows, IsListed f items n row := by
  induction items generalizing columns k rows with
  | nil =>
    cases h
    exact ⟨rfl, columns.getD 0, fun m hm => by rw [hm]; rfl, List.forall_mem_nil _⟩
  | cons item rest ih =>
    simp only [listRows] at h
    split at h
    · rename_i list hkids
      split at h
      · cases h
      · rename_i hkind
        split at h
        · cases h
        · rename_i hlength
          cases hmore : listRows f (some (columns.getD (f.children list).length)) (k + 1) rest with
          | error e =>
            rw [hmore] at h
            cases h
          | ok more =>
            rw [hmore] at h
            cases h
            obtain ⟨hcount, n, hn, hrows⟩ := ih hmore
            obtain rfl := hn _ rfl
            refine ⟨congrArg (· + 1) hcount, _, fun m hm => by rw [hm]; rfl,
              List.forall_mem_cons.mpr ⟨⟨not_not.mp hlength, item, List.mem_cons_self, list, hkids,
                not_not.mp hkind, rfl⟩, fun row hrow => ⟨(hrows row hrow).length, ?_⟩⟩⟩
            obtain ⟨item', hmem, hlist⟩ := (hrows row hrow).list
            exact ⟨item', List.mem_cons_of_mem _ hmem, hlist⟩
    · cases h

/-- The cells of a list are read off the items of the one list that there is. -/
theorem listCells_ok {f : Forest} {nodes : List NodeId} {rows : List (List (List NodeId))}
    (h : listCells f nodes = .ok rows) :
    ∃ (list : NodeId) (items : List (List NodeId)) (columns : Nat), nodes = [list] ∧
      (f.get list).kind = .bulletList ∧ items.length = (f.children list).length ∧
      (∀ row ∈ items, IsListed f (f.children list) columns row) ∧ rows = items.map (·.map f.children) := by
  simp only [listCells] at h
  split at h
  · rename_i list
    split at h
    · rename_i hkind
      cases hrows : listRows f none 1 (f.children list) with
      | error e =>
        rw [hrows] at h
        cases h
      | ok items =>
        rw [hrows] at h
        cases h
        obtain ⟨hcount, columns, -, hitems⟩ := listRows_ok hrows
        exact ⟨list, items, columns, rfl, hkind, hcount, hitems, rfl⟩
    · cases h
  · cases h

/-- The nodes in the cells of a list are new. -/
theorem listCells_new {f : Forest} (hf : f.Closed n) {nodes : List NodeId}
    (hnodes : AllNew n nodes) {rows : List (List (List NodeId))}
    (h : listCells f nodes = .ok rows) : ∀ row ∈ rows, ∀ cell ∈ row, AllNew n cell := by
  obtain ⟨list, items, columns, rfl, -, -, hitems, rfl⟩ := listCells_ok h
  intro row hrow cell hcell
  obtain ⟨_, hmem, rfl⟩ := List.mem_map.mp hrow
  obtain ⟨kid, hkid, rfl⟩ := List.mem_map.mp hcell
  obtain ⟨item, hitem, inner, hinner, -, rfl⟩ := (hitems _ hmem).list
  have hnew : n ≤ item := hf list (hnodes list (List.mem_singleton_self list)) item hitem
  exact hf kid (hf inner (hf item hnew inner (by simp [hinner])) kid hkid)

/-- The cells of a list become the entries of a table. -/
theorem gives_listedTable {title messages : List NodeId} (htitle : AllNew n title)
    (hmessages : AllNew n messages) {rows : List (List (List NodeId))}
    (hrows : ∀ row ∈ rows, ∀ cell ∈ row, AllNew n cell) :
    Gives v w L n keep ((c.under v).listedTable title messages rows)
      ((c.under w).listedTable title messages rows) := by
  refine .bind (.mapM (P := AllNew n) fun row hrow => .mapM fun cell hcell =>
    .lift (Parse.grow_build (Build.hang_element (.refl _) (hrows row hrow cell hcell))))
    fun cells hcells => ?_
  refine .bind (c.pledge_requireShape _ _ _) fun _ _ => ?_
  refine .bind (.lift (Parse.grow_build (c.hang_buildTable htitle _ hcells))) fun table htable => ?_
  exact .pure (.cons htable hmessages)

/-- A table that is written as a list has the rows of that list. -/
theorem gives_listTable {read read' : ReadBody}
    (hread : c.ReadsContent v w L n keep read read') :
    Gives v w L n keep ((c.under v).listTable read) ((c.under w).listTable read') := by
  simp only [listTable]
  refine .guard (.nil n rfl L.error) fun _ => ?_
  refine .bind (.lift c.grow_tableTitle) fun (title, messages) htitle => ?_
  refine .bind (.lift (c.grow_contentNodes hread)) fun nodes hnodes => .get ?_
  rintro s _ ⟨_, ⟨forest, halt, hlike, hsooner⟩, rfl⟩ hready
  simp only [listCells_alike hlike]
  cases hcells : listCells s.doc.forest nodes with
  | error e => exact .throw (.nil n rfl L.error)
  | ok rows => exact c.gives_listedTable htitle.1 htitle.2 (listCells_new hready.2.1 hnodes hcells)

end Tables

/-! ## Any directive -/

/-- Readers that serve a directive which reads its content read it well. -/
theorem Served.content {read read' : ReadBody} {c : Call} {d : Directive}
    (h : c.Served v w L n keep read read' d) (habout : ∃ o, L.about o)
    (hreads : d.readsContent c.toDirectiveUse = true) : c.ReadsContent v w L n keep read read' := by
  obtain ⟨o, ho⟩ := habout
  exact fun parent => h o none _ _ ho (.content (c := c.under v) hreads parent) fun _ => rfl

/-- By the directives: each reads its content, includes a file, or does
    neither. -/
theorem gives_runStandard {read read' : ReadBody} (c : Call) (d : StandardDirective)
    (hserved : c.Served v w L n keep read read' (.standard d)) (habout : ∃ o, L.about o)
    (hcalm : keep → (c.under v).Calm L (.standard d))
    (hlicensed : (c.under v).Licensed L (.standard d)) :
    Gives v w L n keep ((c.under v).runStandard read d) ((c.under w).runStandard read' d) := by
  have hread := hserved.content habout
  cases d with
  | admonition type => exact c.gives_admonition (hread rfl) type
  | titledAdmonition => exact c.gives_titledAdmonition (hread rfl)
  | image => exact c.gives_makeImage _
  | figure => exact c.gives_figure (hread rfl)
  | code => exact c.gives_code
  | math => exact c.gives_math
  | parsedLiteral => exact c.gives_parsedLiteral
  | topic => exact c.gives_pseudoSection (hread rfl) _
  | sidebar => exact c.gives_pseudoSection (hread rfl) _
  | rubric => exact c.gives_rubric
  | quotation style => exact c.gives_quotation (hread rfl) style
  | compound => exact c.gives_compound (hread rfl)
  | container => exact c.gives_container (hread rfl)
  | contents => exact c.gives_contents hlicensed
  | sectionNumbers => exact c.gives_sectionNumbers hlicensed
  | targetNotes => exact .pure (.nil n)
  | header => exact c.gives_decoration (hread rfl) _
  | footer => exact c.gives_decoration (hread rfl) _
  | includeFile => exact c.gives_includeFile hserved hcalm hlicensed
  | raw => exact c.gives_raw
  | replace => exact c.gives_replace (hread rfl)
  | unicode => exact c.gives_unicode
  | date => exact c.gives_date
  | classes => exact c.gives_classes (hread rfl) hlicensed
  | defineRole => exact c.gives_defineRole
  | defaultRole => exact c.gives_defaultRole
  | title => exact c.gives_title
  | metadata => exact c.gives_metadata (hread rfl)
  | table => exact c.gives_table (hread rfl)
  | csvTable => exact c.gives_csvTable hserved habout
  | listTable => exact c.gives_listTable (hread rfl)

/-- A directive that an application added, by what it answers. -/
theorem gives_give {read read' : ReadBody} (c : Call) (shown : String) (d : CustomDirective)
    (hserved : c.Served v w L n keep read read' (.custom d)) (habout : ∃ o, L.about o)
    (hlicensed : AnswerLicensed L (d.behaviour.answer c.toDirectiveUse)) :
    Gives v w L n keep
      ((c.under v).give read shown (d.behaviour.answer (c.under v).toDirectiveUse))
      ((c.under w).give read' shown (d.behaviour.answer (c.under w).toDirectiveUse)) := by
  have hread : d.behaviour.answer c.toDirectiveUse = .nested →
      c.ReadsContent v w L n keep read read' := fun hnested =>
    hserved.content habout (by simp only [Directive.readsContent, hnested])
  -- The answer looks at the use alone, which is the same in both worlds.
  show Gives v w L n keep ((c.under v).give read shown (d.behaviour.answer c.toDirectiveUse))
    ((c.under w).give read' shown (d.behaviour.answer c.toDirectiveUse))
  cases hanswer : d.behaviour.answer c.toDirectiveUse with
  | fail reason =>
    rw [hanswer] at hlicensed
    exact .lift (.throw fun _ => .inl (hlicensed _))
  | abort reason =>
    rw [hanswer] at hlicensed
    exact .lift (.throw fun _ => .inl (hlicensed _))
  | complain level message =>
    rw [hanswer] at hlicensed
    exact .throw ⟨.nil n, hlicensed⟩
  | pending kind priority options =>
    rw [hanswer] at hlicensed
    refine .bind (.lift (Parse.grow_new fun _ => Build.aside_pending _ _ _ _ hlicensed))
      fun i hi => ?_
    exact .pure (.one hi)
  | nested =>
    refine .bind c.pledge_requireContent fun _ _ => ?_
    refine .bind (.lift (Parse.grow_build (Build.hang_element (.refl _) (.nil n)))) fun i hi => ?_
    refine .bind (.lift (hread hanswer i)) fun _ _ => ?_
    exact .pure (.one hi)
  | container attributes =>
    refine .bind (.lift (Parse.grow_build (Build.hang_element (.refl _) (.nil n)))) fun i hi => ?_
    exact .pure (.one hi)

/-- **Directives keep their pledge**, whichever they are. -/
theorem gives_run {read read' : ReadBody} (c : Call) (shown : String) (d : Directive)
    (hserved : c.Served v w L n keep read read' d)
    (hcalm : keep → (c.under v).Calm L d) (hlicensed : (c.under v).Licensed L d) :
    Gives v w L n keep ((c.under v).run read shown d) ((c.under w).run read' shown d) := by
  intro s t hst hready
  refine (show Gives v w L n keep _ _ from ?_) s t hst hready
  cases d with
  | standard d => exact c.gives_runStandard d hserved ⟨_, hready.2.2⟩ hcalm hlicensed
  | ignored => exact .pure (.nil n)
  | custom d => exact c.gives_give shown d hserved ⟨_, hready.2.2⟩ hlicensed

end Call

end MarkupLint
