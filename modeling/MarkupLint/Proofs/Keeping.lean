import MarkupLint.Proofs.Nesting
import MarkupLint.Proofs.Running

/-! # Bodies under watch

    One lemma for each kind of block: it keeps under watch if the bodies
    that it hands on are read under watch.  So does a body, and with it all
    the bodies within it that come from no file: by induction on how deep
    they nest. -/

namespace MarkupLint

open Watch

variable {W : Watch} {s : ParseState} {d : Document} {read : ReadBody} {site : Site}

/-! ## Steps of parsing -/

namespace Parse

/-- Looking at a node leaves the document as it is. -/
theorem meets_node {α : Type} {i : NodeId} {f : Node → Parse α} {Q : α → ParseState → Prop}
    (h : W.Meets s (f (s.doc.node i)) Q) : W.Meets s (build (Build.node i) >>= f) Q := h

/-- The outline is changed, and the sections that are open now hold nodes of
    any kind. -/
theorem meets_outline {a : ParseState → ParseState} (hdoc : (a s).doc = s.doc)
    (hroles : (a s).roles = s.roles)
    (hsections : ∀ i ∈ (a s).sections, i ∈ s.sections ∨ W.Roomy s.doc i) :
    W.Keeps s (modify a) := by
  refine .modify fun hs => ?_
  have hsame : HasDocument.document (a s) = s.doc := hdoc
  have horderly : W.strict → (a s).Orderly := fun hstrict =>
    have hs' : s.Orderly := hs.orderly hstrict
    { roles := fun name r hget => by
        rw [hroles] at hget
        exact hs'.roles name r hget
      sections := fun i hi => by
        rw [hdoc]
        exact (hsections i hi).elim (hs'.sections i) fun hroomy => hroomy hstrict }
  exact {
    holds := {
      usual := hsame ▸ hs.usual
      origin := hsame ▸ hs.origin
      accounted := fun hstrict => hsame ▸ hs.accounted hstrict
      orderly := horderly }
    changes := hsame ▸ .refl _
    heard := hsame ▸ .refl _
    listed := fun _ => hsame ▸ .refl _ }

end Parse

namespace Site

variable (hsite : W.Tends site)

/-! ## Explicit markup -/

section Markup

variable (lines : List Line) (line : Nat)

/-- A comment is a node that any body may hold. -/
theorem meets_comment :
    W.Meets d (site.comment lines line) fun i e => W.Fit e .container [i] :=
  (Build.meets_textElement_as (k := .comment) rfl _ nofun rfl).mono fun _ _ _ hi => hi.fit rfl

include hsite

/-- A target with its name, and what noting the name gives. -/
theorem meets_makeTarget (name : Option (List Char)) :
    W.Meets d (site.makeTarget name lines line) fun ns e => W.Fit e .container ns := by
  have hnamed : ∀ n : Node, n.kind = .target → n.source = site.source →
      W.Meets d (do
        let target ← Build.element n
        if name.isNone then return [target]
        return target :: (← Build.noteTarget target true)) fun ns e => W.Fit e .container ns := by
    intro n hkind hsource
    refine .bind (Build.meets_element_as hkind nofun rfl (.nil d _)) fun target e _ htarget => ?_
    rw [hsource] at htarget
    refine .ite (fun _ => .pure (htarget.fit rfl)) fun _ => ?_
    refine .bind (Build.meets_noteTarget true htarget.inside (htarget.source nofun) hsite.hears)
      fun complaints f hef hcomplaints => ?_
    exact .pure (.cons (hef.fit (htarget.fit rfl)) hcomplaints)
  simp only [makeTarget]
  cases Pattern.reference? (lines.map Text.squeeze).flatten with
  | some other => exact hnamed _ rfl rfl
  | none => exact hnamed _ rfl rfl

/-- A target that is written well, or the warning about it. -/
theorem meets_hyperlinkTarget :
    W.Meets d (site.hyperlinkTarget lines line) fun ns e => W.Fit e .container ns := by
  simp only [hyperlinkTarget]
  split
  · refine .bind (meets_raise hsite _ _ _ _) fun warning e _ hwarning => ?_
    refine .bind (meets_comment _ _) fun comment f hef hcomment => ?_
    exact .pure (.cons hcomment (hef.fit hwarning))
  · exact meets_makeTarget hsite _ _ _

end Markup

/-- What reads the bodies that a block hands on keeps under watch. -/
def Attended (W : Watch) (read : ReadBody) (site : Site) (block : Block) : Prop :=
  ∀ file site' body, site.Hands W.origin block file site' body → ∀ s, W.Roomy s.doc site'.parent →
    W.Keeps s (read.pick file site' body)

section Directives

variable (hparent : W.Roomy s.doc site.parent)

include hsite

include hparent in
/-- A directive gives what its call is held to; an unknown one, messages. -/
theorem meets_directive (name : String) (body : List Line) (line : Nat) (markup substitution : String)
    (hserves : ∀ d c, site.callIn? name body line markup substitution = some (d, c) →
      W.Serves read c d) :
    W.Meets s (site.directive read name body line markup substitution)
      fun ns t => W.Fit t.doc .container ns := by
  have hraise : ∀ (t : ParseState) (level : Level) (text : String) (literal : Option String),
      W.Meets t (Parse.build (site.raise level line text literal))
        fun msg t => W.Fit t.doc .container [msg] := fun t level text literal =>
    Parse.meets_build (meets_raise hsite level line text literal)
  simp only [directive]
  cases hd : site.env.directive? name with
  | none =>
    refine .bind (hraise s _ _ _) fun note t _ hnote => ?_
    refine .bind (hraise t _ _ _) fun complaint u htu hcomplaint => ?_
    exact .pure (.cons (htu.fit hnote) hcomplaint)
  | some d =>
    dsimp only
    cases hblock : d.spec.read body (line - 1) with
    | error e => exact .bind (hraise s _ _ _) fun complaint t _ h => .pure h
    | ok block =>
      have hcall := hserves d (site.call block name line markup substitution)
        (by simp only [callIn?, hd, hblock])
      have hrun := Call.yields_run (c := site.call block name line markup substitution) hsite hparent
        name d (fun hstrict custom hcustom => (hsite.builtin hstrict).directives name custom
          (by rw [hd, hcustom])) hcall
      refine .bind hrun fun answer t _ hanswer => ?_
      cases hanswer with
      | gives h => exact .pure h
      | complains h =>
        exact .bind (hraise t _ _ _) fun complaint u htu hcomplaint =>
          .pure ((htu.fit h).append hcomplaint)

omit hsite in
/-- Nodes that stand inside a line are text in a line. -/
theorem meets_divide {nodes : List NodeId} (h : W.Fit s.doc .container nodes) :
    W.Meets s (divide nodes) fun made t =>
      W.Fit t.doc .inline made.1 ∧ W.Fit t.doc .container made.2 := by
  refine .get (.pure ?_)
  rw [List.partition_eq_filter_filter]
  refine ⟨fun hstrict i hi => ?_, h.sublist (List.filter_subset_self _)⟩
  obtain ⟨hmem, hkind⟩ := List.mem_filter.mp hi
  have hphrase : (s.doc.node i).kind.isPhrase = true := by
    show (s.doc.forest.get i).kind.isPhrase = true
    simp [Kind.isPhrase, hkind]
  exact { h hstrict i hmem with
    fits := Kind.mayHold_of_isPhrase rfl hphrase
    topical := fun hwait => by cases (h hstrict i hmem).topical hwait }

include hparent in
/-- The nodes of a definition stand inside a line or anywhere. -/
theorem meets_definitionNodes (name : String) (body : List Line) (line : Nat) (markup : String)
    (hserves : ∀ d c, site.callAt? body line markup name = some (d, c) → W.Serves read c d) :
    W.Meets s (site.definitionNodes read name body line markup) fun made t =>
      W.Fit t.doc .inline made.1 ∧ W.Fit t.doc .container made.2 := by
  simp only [callAt?] at hserves
  simp only [definitionNodes]
  cases htext : directiveText? body with
  | none =>
    refine .bind (Parse.meets_inlineParse hsite _ _) fun made t _ hmade => ?_
    exact .pure ⟨hmade.nodes, hmade.messages⟩
  | some found =>
    obtain ⟨directiveName, text⟩ := found
    rw [htext] at hserves
    exact .bind (meets_directive hsite hparent _ _ _ _ _ hserves) fun nodes t _ hnodes =>
      meets_divide hnodes

/-- A definition is noted; one with nothing in it is a message. -/
theorem meets_defineSubstitution (name : String) (line : Nat) (markup : String)
    {made : List NodeId × List NodeId} (hinline : W.Fit s.doc .inline made.1)
    (hothers : W.Fit s.doc .container made.2) :
    W.Meets s (site.defineSubstitution name line markup made)
      fun ns t => W.Fit t.doc .container ns := by
  refine .bind (Parse.meets_build (Build.meets_element_as (k := .substitutionDefinition) rfl nofun rfl
    (hinline.phrases rfl))) fun definition t hst hdefinition => ?_
  refine Parse.meets_node (.ite (fun _ => ?_) fun _ => ?_)
  · refine .bind (Parse.meets_build (meets_raise hsite _ _ _ _)) fun complaint u htu hcomplaint => ?_
    exact .pure (((hst.trans htu).fit hothers).append hcomplaint)
  · refine .bind (Parse.meets_build (Build.meets_noteSubstitution _ hdefinition.kind
      (hdefinition.source nofun) hsite.hears)) fun complaints u htu hcomplaints => ?_
    exact .pure (((hst.trans htu).fit hothers).append
      (.cons (htu.fit (hdefinition.fit rfl)) hcomplaints))

include hparent

/-- By the call that the definition holds, if it is written well. -/
theorem meets_substitutionDefinition (lines : List Line) (line : Nat) (markup : String)
    (hserves : ∀ name body, definition? lines = some (name, body) →
      ∀ d c, site.callAt? body line markup name = some (d, c) → W.Serves read c d) :
    W.Meets s (site.substitutionDefinition read lines line markup)
      fun ns t => W.Fit t.doc .container ns := by
  cases lines with
  | nil => exact .pure (.nil s.doc _)
  | cons first rest =>
    simp only [definition?] at hserves
    simp only [substitutionDefinition]
    cases hname : Pattern.substitution? first with
    | none =>
      refine .bind (Parse.meets_build (meets_raise hsite _ _ _ _)) fun warning t _ hwarning => ?_
      refine .bind (Parse.meets_build (meets_comment _ line)) fun comment u htu hcomment => ?_
      exact .pure (.cons hcomment (htu.fit hwarning))
    | some found =>
      obtain ⟨name, width⟩ := found
      rw [hname] at hserves
      refine .ite (fun _ => ?_) fun _ => ?_
      · exact .bind (Parse.meets_build (meets_raise hsite _ _ _ _)) fun complaint t _ h => .pure h
      refine .bind (meets_definitionNodes hsite hparent _ _ _ _ (hserves _ _ rfl))
        fun made t _ hmade => meets_defineSubstitution hsite _ _ _ hmade.1 hmade.2

/-- The nodes of explicit markup may stand in any container. -/
theorem meets_explicit (lines : List Line) (line : Nat) (markup : String)
    (hserves : ∀ d c, site.call? lines line markup = some (d, c) → W.Serves read c d) :
    W.Meets s (site.explicit read lines line markup) fun ns t => W.Fit t.doc .container ns := by
  simp only [call?] at hserves
  refine .ite (fun _ => ?_) fun hunder => .ite (fun hbar => ?_) fun hbar => ?_
  · exact Parse.meets_build (meets_hyperlinkTarget hsite lines line)
  · rw [if_neg hunder] at hserves
    refine meets_substitutionDefinition hsite hparent lines line markup fun name body hdefinition => ?_
    simpa only [directiveLines, definedName, hbar, if_true, hdefinition, Option.map_some,
      Option.getD_some] using hserves
  · rw [if_neg hunder, directiveLines, definedName, if_neg hbar, if_neg hbar, callAt?] at hserves
    cases htext : directiveText? lines with
    | none => exact .bind (Parse.meets_build (meets_comment lines line)) fun comment t _ h => .pure h
    | some found =>
      obtain ⟨name, body⟩ := found
      rw [htext] at hserves
      exact meets_directive hsite hparent _ _ _ _ _ hserves

end Directives

/-! ## Paragraphs and sections -/

section Blocks

include hsite

/-- A problem is one message. -/
theorem meets_complain (p : Problem) :
    W.Meets d (site.complain p) fun i e => W.Fit e .container [i] :=
  meets_raise hsite _ _ _ _

/-- An indented line after a paragraph is one message. -/
theorem meets_strayMessages (stray : Option Nat) :
    W.Meets d (site.strayMessages stray) fun ns e => W.Fit e .container ns := by
  cases stray with
  | none => exact .pure (.nil d _)
  | some next => exact .bind (meets_raise hsite _ _ _ _) fun i e _ hi => .pure hi

omit hsite in
/-- What fits into bodies goes into the node that the site writes to. -/
theorem meets_add (hparent : W.Roomy s.doc site.parent) {nodes : List NodeId}
    (h : W.Fit s.doc .container nodes) : W.Keeps s (site.add nodes) :=
  .bind (meets_container hparent) fun _ _ hst hp => Call.meets_append hp (hst.fit h)

/-- A complaint that is repeated is one message in the end. -/
theorem meets_repeatShortage (p : Problem) (count : Nat) :
    W.Meets s (site.repeatShortage p count) fun ns t => W.Fit t.doc .container ns := by
  induction count generalizing s with
  | zero => exact .bind (Parse.meets_build (meets_complain hsite p)) fun i t _ hi => .pure hi
  | succ count ih => exact .bind (Parse.meets_build (meets_complain hsite p)) fun _ t _ _ => ih

/-- What is short about a title is complained about, if anything is. -/
theorem meets_shortageMessages (p : Option Problem) (count : Nat) :
    W.Meets s (site.shortageMessages p count) fun ns t => W.Fit t.doc .container ns := by
  cases p with
  | none => exact .pure (.nil s.doc _)
  | some p => exact meets_repeatShortage hsite p count

/-- A section takes its title, and the messages that its name gives. -/
theorem meets_hangSection (h : Heading) {parent : NodeId} (hparent : W.Roomy s.doc parent)
    {made : Inlined} (hmade : W.Inlines s.doc made) {messages : List NodeId}
    (hmessages : W.Fit s.doc .container messages) :
    W.Keeps s (site.hangSection h parent made messages) := by
  refine .bind (Parse.meets_build (Build.meets_element_as (k := .title) rfl nofun rfl
    (hmade.nodes.phrases rfl))) fun title t hst htitle => ?_
  refine .bind (Parse.meets_build (Build.meets_element_as (k := .division) rfl nofun rfl
    (((Fit.cons (htitle.fit rfl) (hst.fit hmessages)).append (hst.fit hmade.messages)).roomy rfl)))
    fun node u htu hnode => ?_
  refine .bind (Call.meets_append ((hst.trans htu).roomy hparent) (hnode.fit rfl)) fun _ v huv _ => ?_
  have hroomy : W.Roomy v.doc node := (huv.made hnode).roomy rfl
  refine .bind (Parse.meets_outline rfl rfl fun i hi => ?_) fun _ w hvw _ => ?_
  · rcases List.mem_cons.mp hi with rfl | hi
    · exact .inr hroomy
    · exact .inl hi
  have hnode' := (huv.trans hvw).made hnode
  refine .bind (Parse.meets_build (Build.meets_noteTarget false hnode'.inside (hnode'.source nofun)
    hsite.hears)) fun complaints x hwx hcomplaints => ?_
  exact Call.meets_append ((hwx.made hnode').roomy rfl) hcomplaints

variable (hparent : W.Roomy s.doc site.parent)

include hparent

/-- A paragraph takes the inline nodes, its parent the messages behind it. -/
theorem meets_paragraph (line : Nat) (text : List Char) (stray : Option Nat) :
    W.Keeps s (site.paragraph line text stray) := by
  refine .bind (Parse.meets_build (meets_strayMessages hsite stray)) fun complaint t hst hcomplaint => ?_
  refine .ite (fun _ => ?_) fun _ => meets_add (hst.roomy hparent) hcomplaint
  refine .bind (Parse.meets_inlineParse hsite _ _) fun made u htu hmade => ?_
  refine .bind (Parse.meets_build (Build.meets_element_as (k := .paragraph) rfl nofun rfl
    (hmade.nodes.phrases rfl))) fun i v huv hi => ?_
  have hsv := (hst.trans htu).trans huv
  refine .bind (meets_add (hsv.roomy hparent) (.cons (hi.fit rfl) (huv.fit hmade.messages)))
    fun _ w hvw _ => ?_
  exact meets_add ((hsv.trans hvw).roomy hparent) (((htu.trans huv).trans hvw).fit hcomplaint)

/-- A title at a wrong level is one message. -/
theorem meets_refuseTitle (h : Heading) : W.Keeps s (site.refuseTitle h) := by
  refine .bind (meets_shortageMessages hsite _ _) fun messages t hst hmessages => ?_
  refine .bind (meets_add (hst.roomy hparent) hmessages) fun _ u htu _ => ?_
  refine .bind (Parse.meets_build (meets_raise hsite _ _ _ _)) fun i v huv hi => ?_
  exact meets_add (((hst.trans htu).trans huv).roomy hparent) hi

/-- Entering a section closes others; the new one takes the place of the
    innermost. -/
theorem meets_enterSection (h : Heading) (closed : Nat) (styles : List TitleStyle) :
    W.Keeps s (site.enterSection h closed styles) := by
  refine .bind (meets_shortageMessages hsite _ _) fun messages t hst hmessages => ?_
  refine .bind (Parse.meets_outline rfl rfl fun i hi => .inl (List.mem_of_mem_drop hi))
    fun _ u htu _ => ?_
  refine .bind (meets_container ((hst.trans htu).roomy hparent)) fun parent v huv hroomy => ?_
  refine .bind (Parse.meets_inlineParse hsite _ _) fun made w hvw hmade => ?_
  exact meets_hangSection hsite h (hvw.roomy hroomy) hmade
    (((htu.trans huv).trans hvw).fit hmessages)

/-- A title is refused or opens its section. -/
theorem meets_beginSection (h : Heading) : W.Keeps s (site.openSection h) := by
  refine .get ?_
  split
  · exact meets_refuseTitle hsite hparent h
  · exact meets_enterSection hsite hparent h _ _

/-! ## Lists -/

omit hsite in
/-- A list is opened, and it has items in the end. -/
theorem meets_list {k : Kind} {n : Node} (hk : n.kind = k) (hlist : k.isList = true)
    (hheld : Kind.container.mayHold k = true) {fill : NodeId → Parse PUnit}
    (hfill : ∀ i t, W.Roomy t.doc site.parent → W.Made t.doc k n.source i →
      W.Meets t (fill i) fun _ u => W.Filled u.doc i) :
    W.Keeps s (site.openList n >>= fill) := by
  subst hk
  have hpending : n.kind ≠ .pending := fun h => nomatch h ▸ hlist
  let d₁ : Document := { s.doc with forest := (s.doc.forest.alloc n).2 }
  let t : ParseState := { s with doc := d₁ }
  let i := s.doc.forest.size
  have hchanges : s.doc.Changes d₁ := .alloc s.doc n
  intro hs
  have hmade : W.Made t.doc n.kind n.source i := .alloc ⟨hs.usual, hs.origin, hs.accounted,
    fun _ => trivial⟩ n
  have ht : W.Holds t := ⟨hs.usual, hs.origin, fun hstrict => (hs.accounted hstrict).alloc hpending,
    fun hstrict => .changes (hs.orderly hstrict) hchanges⟩
  have hrest : W.Meets t (site.add [i] >>= fun _ => fill i) fun _ u => W.Filled u.doc i :=
    .bind (meets_add (hparent.changes hchanges) (hmade.fit hheld)) fun _ u htu _ =>
      hfill i u (htu.roomy (hparent.changes hchanges)) (htu.made hmade)
  have hends := hrest ht
  have hrun : (site.openList n >>= fill) s = (site.add [i] >>= fun _ => fill i) t := by
    simp only [openList, bind_assoc, pure_bind]
    rfl
  rw [hrun]
  generalize (site.add [i] >>= fun _ => fill i) t = result at hends
  cases hends with
  | ok leads gives =>
    exact .ok ⟨leads.holds, hchanges.trans leads.changes, leads.heard, fun hstrict =>
      .of_alloc (leads.listed hstrict) (gives hstrict)⟩ trivial
  | stop stops => exact .stop stops

omit hsite in
/-- A list that is not held to have items may be opened empty. -/
theorem meets_openList {k : Kind} {n : Node} (hk : n.kind = k) (hpending : k ≠ .pending)
    (hlist : k.isList = false) (hheld : Kind.container.mayHold k = true) :
    W.Meets s (site.openList n) fun i t => W.Made t.doc k n.source i := by
  refine .bind (Parse.meets_build (Build.meets_element_as hk hpending hlist (.nil _ _)))
    fun i t hst hi => ?_
  exact .bind (meets_add (hst.roomy hparent) (hi.fit hheld)) fun _ u htu _ => .pure (htu.made hi)

omit hparent in
/-- The remarks on a term are messages. -/
theorem meets_termNotes (item : DefinitionItem) :
    W.Meets d (site.termNotes item) fun ns e => W.Fit e .container ns := by
  refine .ite (fun _ => ?_) fun _ => .pure (.nil d _)
  exact .bind (meets_raise hsite _ _ _ _) fun i e _ hi => .pure hi

/-- By the lines, each in a node of its own. -/
theorem meets_lineBlock (line : Nat) (lines : List (Nat × List Char)) :
    W.Keeps s (site.lineBlock line lines) := by
  refine .bind (Parse.meets_build (Build.meets_element_as (k := .container) rfl nofun rfl (.nil _ _)))
    fun i t hst hi => ?_
  refine .bind (.forM fun entry _ u htu => ?_) fun _ u htu _ =>
    meets_add ((hst.trans htu).roomy hparent) ((htu.made hi).fit rfl)
  refine .bind (Parse.meets_inlineParse hsite _ _) fun made v huv hmade => ?_
  have hnodes : W.Fit v.doc .container made.nodes := hmade.nodes.phrases rfl
  exact Call.meets_append (((htu.trans huv).made hi).roomy rfl)
    (hnodes.append hmade.messages)

omit hsite hparent

/-- The bodies inside a block are read under watch. -/
def ReadsInside (W : Watch) (read : ReadBody) (site : Site) (body : Body) : Prop :=
  ∀ parent s, W.Roomy s.doc parent → W.Keeps s (read (site.within parent) body)

variable {list : NodeId} {k : Kind} {source : String} (hlist : W.Made s.doc k source list)

include hlist

/-- An item that stands nowhere is put into a list. -/
theorem meets_hangItem (hk : k.isList = true) {x : Parse NodeId}
    (hx : W.Meets s x fun i t => W.Made t.doc .listItem "" i ∧
      (W.strict → s.doc.forest.size ≤ i ∧ t.doc.forest.parent? i = none)) :
    W.Meets s (x >>= fun i => Parse.build (Build.append list [i]))
      fun _ t => W.Filled t.doc list := by
  intro hs
  have hends := hx hs
  rw [Contract.bind_run]
  generalize x s = result at hends
  cases hends with
  | stop stops => exact .stop stops
  | ok leads gives =>
    rename_i i t
    obtain ⟨hitem, hnew⟩ := gives
    have hlist' := leads.made hlist
    have hchanges : t.doc.Changes { t.doc with forest := t.doc.forest.append list [i] } :=
      .append _ _ _
    have hfit : W.Fit t.doc k [i] := hitem.fit (by simp [Kind.mayHold, hk])
    have haccounted : W.strict →
        ({ t.doc with forest := t.doc.forest.append list [i] } : Document).Accounted := by
      intro hstrict
      refine (leads.holds.accounted hstrict).append hlist'.inside fun c hc => ?_
      rw [hlist'.kind]
      exact hfit hstrict c hc
    refine .ok ⟨⟨leads.holds.usual, leads.holds.origin, haccounted, fun hstrict =>
      .changes (leads.holds.orderly hstrict) hchanges⟩, leads.changes.trans hchanges, leads.heard,
      fun hstrict => ?_⟩ fun hstrict => ?_
    · exact (leads.listed hstrict).append_orphan (hnew hstrict).1 (hnew hstrict).2
        (leads.holds.accounted hstrict).proper.linked (haccounted hstrict).proper.linked
    · exact (Forest.children_ne_nil_iff (haccounted hstrict).proper.linked).mpr
        ⟨i, Forest.parent?_append_of_mem (List.mem_singleton_self i)
          (List.forall_mem_singleton.mpr hitem.inside)⟩

/-- An item takes what its body is read to. -/
theorem meets_listItem (hk : k.isList = true) {item : ListItem}
    (hread : site.ReadsInside W read item.body) :
    W.Meets s (do
      let n ← Build.element { kind := .listItem, line := item.line }
      read (site.within n) item.body
      Build.append list [n]) fun _ t => W.Filled t.doc list := by
  have hitem : W.Meets s (do
      let n ← Build.element { kind := .listItem, line := item.line }
      read (site.within n) item.body
      return n) fun i t => W.Made t.doc .listItem "" i ∧
        (W.strict → s.doc.forest.size ≤ i ∧ t.doc.forest.parent? i = none) := by
    refine .bind (.also (C := fun i t => i = s.doc.forest.size ∧ t.doc.forest.parent? i = none)
      (Parse.meets_build (Build.meets_element_as (k := .listItem) rfl nofun rfl (.nil _ _))) ?_)
      fun i t _ hi => ?_
    · rintro _ _ ⟨⟩
      exact ⟨rfl, (Forest.parent?_alloc _ _ _).trans (Forest.parent?_of_size_le (Nat.le_refl _))⟩
    · obtain ⟨hmade, rfl, horphan⟩ := hi
      refine .bind (hread _ t (hmade.roomy rfl)) fun _ u htu _ => .pure ⟨htu.made hmade, fun hstrict =>
        ⟨Nat.le_refl _, ((htu.listed hstrict).items _ hmade.inside hmade.kind).trans horphan⟩⟩
  have hhung := meets_hangItem hlist hk hitem
  simp only [bind_assoc, pure_bind] at hhung
  exact hhung

/-- The items of a list are put into it, each one once its body is read. -/
theorem meets_listItems (hk : k.isList = true) {items : List ListItem}
    (hitems : W.strict → items ≠ []) (hread : ∀ item ∈ items, site.ReadsInside W read item.body) :
    W.Meets s (site.listItems read list items) fun _ t => W.Filled t.doc list := by
  cases items with
  | nil => exact .pure fun hstrict => absurd rfl (hitems hstrict)
  | cons item items =>
    obtain ⟨hfirst, hrest⟩ := List.forall_mem_cons.mp hread
    refine .bind (meets_listItem hlist hk hfirst) fun _ t hst hfilled => .start fun ht => ?_
    have hkeeps : W.Keeps t (site.listItems read list items) :=
      .forM fun item hitem u htu => (meets_listItem ((hst.trans htu).made hlist) hk
        (hrest item hitem)).keeps
    exact hkeeps.mono fun _ u htu _ => htu.filled ht (hst.made hlist) hk hfilled

/-- By the items: options in front, the body behind. -/
theorem meets_optionItems (hk : k.isRoomy = true) {items : List HeadedItem}
    (hread : ∀ item ∈ items, site.ReadsInside W read item.body) :
    W.Keeps s (site.optionItems read list items) := by
  refine .forM fun item hitem t hst => ?_
  refine .bind (Parse.meets_build (Build.meets_textElement_as (k := .term) rfl _ nofun rfl))
    fun term u htu hterm => ?_
  refine .bind (Parse.meets_build (Build.meets_element_as (k := .definition) rfl nofun rfl (.nil _ _)))
    fun definition v huv hdefinition => ?_
  refine .bind (Parse.meets_build (Build.meets_element_as (k := .definitionListItem) rfl nofun rfl
    (.cons (huv.fit (hterm.fit rfl)) (hdefinition.fit rfl)))) fun i w hvw hi => ?_
  have hsw := ((hst.trans htu).trans huv).trans hvw
  refine .bind (Call.meets_append ((hsw.made hlist).roomy hk) (hi.fit rfl)) fun _ x hwx _ => ?_
  exact hread item hitem definition x (((hvw.trans hwx).made hdefinition).roomy rfl)

include hsite

/-- By the items: the name in front, the body behind. -/
theorem meets_fields (hk : k.isRoomy = true) {items : List HeadedItem}
    (hread : ∀ item ∈ items, site.ReadsInside W read item.body) :
    W.Keeps s (site.fields read list items) := by
  refine .forM fun item hitem t hst => ?_
  refine .bind (Parse.meets_inlineParse hsite _ _) fun made u htu hmade => ?_
  refine .bind (Parse.meets_build (Build.meets_element_as (k := .fieldName) rfl nofun rfl
    (hmade.nodes.phrases rfl))) fun name v huv hname => ?_
  refine .bind (Parse.meets_build (Build.meets_element_as (k := .fieldBody) rfl nofun rfl (.nil _ _)))
    fun body w hvw hbody => ?_
  refine .bind (Parse.meets_build (Build.meets_element_as (k := .field) rfl nofun rfl
    (.cons (hvw.fit (hname.fit rfl)) (hbody.fit rfl)))) fun field x hwx hfield => ?_
  have hsx := (((hst.trans htu).trans huv).trans hvw).trans hwx
  refine .bind (Call.meets_append ((hsx.made hlist).roomy hk) (hfield.fit rfl)) fun _ y hxy _ => ?_
  have hwy := hwx.trans hxy
  refine .bind (Call.meets_append ((hwy.made hbody).roomy rfl)
    ((((huv.trans hvw).trans hwy)).fit hmade.messages)) fun _ z hyz _ => ?_
  exact hread item hitem body z (((hwy.trans hyz).made hbody).roomy rfl)

/-- By the items: term, remarks and definition. -/
theorem meets_definitions (hk : k.isRoomy = true) {items : List DefinitionItem}
    (hread : ∀ item ∈ items, site.ReadsInside W read item.body) :
    W.Keeps s (site.definitions read list items) := by
  refine .forM fun item hitem t hst => ?_
  refine .bind (Parse.meets_inlineParse hsite _ _) fun made u htu hmade => ?_
  refine .bind (Parse.meets_build (Build.meets_element_as (k := .term) rfl nofun rfl
    (hmade.nodes.phrases rfl))) fun term v huv hterm => ?_
  refine .bind (Parse.meets_build (meets_termNotes hsite item)) fun note w hvw hnote => ?_
  refine .bind (Parse.meets_build (Build.meets_element_as (k := .definition) rfl nofun rfl (.nil _ _)))
    fun definition x hwx hdefinition => ?_
  have hvx := hvw.trans hwx
  have hkids : W.Fit x.doc .container (term :: made.messages ++ note ++ [definition]) :=
    ((Fit.cons (hvx.fit (hterm.fit rfl)) ((huv.trans hvx).fit hmade.messages)).append
      (hwx.fit hnote)).append (hdefinition.fit rfl)
  have hnode : ∀ n : Node, n.kind = .definitionListItem →
      W.Keeps x (do
        let n ← (Build.element n (term :: made.messages ++ note ++ [definition]) : Parse _)
        (Build.append list [n] : Parse _)
        read (site.within definition) item.body) := by
    intro n hn
    refine .bind (Parse.meets_build (Build.meets_element_as hn nofun rfl (hkids.roomy rfl)))
      fun i y hxy hi => ?_
    have hsy := (((hst.trans htu).trans huv).trans hvx).trans hxy
    refine .bind (Call.meets_append ((hsy.made hlist).roomy hk) (hi.fit rfl)) fun _ z hyz _ => ?_
    exact hread item hitem definition z (((hxy.trans hyz).made hdefinition).roomy rfl)
  cases item.classifier with
  | none => exact hnode _ rfl
  | some classifier => exact hnode _ rfl

end Blocks

section Reading

variable (hsite : W.Tends site) (hparent : W.Roomy s.doc site.parent)

include hsite hparent

/-- The list, its items, and the remark on the first number. -/
theorem meets_enumeratedList (line : Nat) (start : Option (Nat × List Char)) {items : List ListItem}
    (hitems : W.strict → items ≠ []) (hread : ∀ item ∈ items, site.ReadsInside W read item.body) :
    W.Keeps s (site.enumeratedList read line start items) := by
  cases start with
  | none =>
    exact meets_list hparent (k := .enumeratedList) rfl rfl rfl fun list t _ hlist =>
      meets_listItems hlist rfl hitems hread
  | some start =>
    -- A list that does not start with one has a note about that before its items.
    refine meets_list hparent (k := .enumeratedList) rfl rfl rfl fun list t hroomy hlist => ?_
    refine .bind (Parse.meets_build (meets_raise hsite _ _ _ _)) fun note u htu hnote => ?_
    refine .bind (meets_add (htu.roomy hroomy) hnote) fun _ v huv _ => ?_
    exact meets_listItems ((htu.trans huv).made hlist) rfl hitems hread

omit hparent in
/-- A list that reading gets stuck at always stops the parser, so it is only
    watched for what it says. -/
theorem meets_stuckList (line first : Nat) : W.Keeps s (site.stuckList read line first) := by
  refine keeps_of_lax ?_ fun _ _ => ?_
  · have hlax : W.lax.Tends site := ⟨hsite.hears, False.elim⟩
    refine .bind (meets_enumeratedList hlax False.elim line _ False.elim (List.forall_mem_nil _))
      fun _ t _ _ => ?_
    refine .bind (Parse.meets_build (meets_complain hlax _)) fun msg u _ hmsg => ?_
    exact .bind (meets_add (W := W.lax) False.elim hmsg) fun _ v _ _ => .throw fun _ =>
      ⟨.refl _, nofun⟩
  · refine Parse.bind_ne_ok (fun _ => Parse.bind_ne_ok fun _ => Parse.bind_ne_ok ?_) s _ _
    exact fun _ _ _ _ h => by cases h

/-- A block keeps under watch if the bodies it hands on are read under
    watch. -/
theorem meets_eachBlock {block : Block}
    (hfilled : block.Filled ∨ ∃ line first, block = .stuckList line first)
    (hattended : site.Attended W read block) :
    W.Keeps s (site.block read block) := by
  have hadd : ∀ {x : Parse NodeId},
      W.Meets s x (fun i t => W.Fit t.doc .container [i]) → W.Keeps s (do site.add [← x]) :=
    fun hx => .bind hx fun i t hst hi => meets_add (hst.roomy hparent) hi
  have hinside : ∀ body ∈ block.bodies, site.ReadsInside W read body := fun body hbody parent s hp =>
    hattended none _ _ (.nested hbody parent) s hp
  have hitems : ∀ {α : Type} {items : List α} {f : α → Body}, block.bodies = items.map f →
      ∀ item ∈ items, site.ReadsInside W read (f item) := by
    intro α items f hbodies item hitem
    refine hinside _ ?_
    rw [hbodies]
    exact List.mem_map_of_mem hitem
  obtain hfilled | ⟨line, first, rfl⟩ := hfilled
  swap
  · exact meets_stuckList hsite line first
  cases block with
  | stuckList line first => cases hfilled
  | problem p => exact hadd (Parse.meets_build (meets_complain hsite p))
  | paragraph line text stray => exact meets_paragraph hsite hparent line text stray
  | literal line text =>
    exact hadd ((Parse.meets_build (Build.meets_textElement_as (k := .literalBlock) rfl _ nofun
      rfl)).mono fun _ _ _ hi => hi.fit rfl)
  | heading h => exact meets_beginSection hsite hparent h
  | transition line =>
    exact hadd ((Parse.meets_build (Build.meets_element_as (k := .transition) rfl nofun rfl
      (.nil _ _))).mono fun _ _ _ hi => hi.fit rfl)
  | quote line body =>
    refine .bind (Parse.meets_build (Build.meets_element_as (k := .blockQuote) rfl nofun rfl (.nil _ _)))
      fun i t hst hi => ?_
    refine .bind (meets_add (hst.roomy hparent) (hi.fit rfl)) fun _ u htu _ => ?_
    exact hinside body (List.mem_singleton_self body) i u ((htu.made hi).roomy rfl)
  | bulletList line items =>
    exact meets_list hparent (k := .bulletList) rfl rfl rfl fun list t _ hlist =>
      meets_listItems hlist rfl (fun _ => hfilled) (hitems rfl)
  | enumeratedList line start items =>
    exact meets_enumeratedList hsite hparent line start (fun _ => hfilled) (hitems rfl)
  | fieldList line items =>
    refine .bind (meets_openList hparent (k := .fieldList) rfl nofun rfl rfl) fun list t _ hlist => ?_
    exact meets_fields hsite hlist rfl (hitems rfl)
  | optionList line items =>
    refine .bind (meets_openList hparent (k := .definitionList) rfl nofun rfl rfl) fun list t _ hlist => ?_
    exact meets_optionItems hlist rfl (hitems rfl)
  | definitionList line items =>
    refine .bind (meets_openList hparent (k := .definitionList) rfl nofun rfl rfl) fun list t _ hlist => ?_
    exact meets_definitions hsite hlist rfl (hitems rfl)
  | doctest line text =>
    exact hadd ((Parse.meets_build (Build.meets_textElement_as (k := .doctestBlock) rfl _ nofun
      rfl)).mono fun _ _ _ hi => hi.fit rfl)
  | lineBlock line lines => exact meets_lineBlock hsite hparent line lines
  | table line text =>
    exact hadd ((Parse.meets_build (Build.meets_textElement_as (k := .table) rfl _ nofun
      rfl)).mono fun _ _ _ hi => hi.fit rfl)
  | explicit line lines markup =>
    refine .bind (meets_explicit hsite hparent lines line _ fun d c hcall => ?_)
      fun ns t hst hns => meets_add (hst.roomy hparent) hns
    exact fun file site' body hhands => hattended file site' body (.called hcall hhands)
  | anonymousTarget line lines =>
    exact .bind (Parse.meets_build (meets_makeTarget hsite lines line none))
      fun ns t hst hns => meets_add (hst.roomy hparent) hns

end Reading

/-! ## Bodies -/

/-- What does not come from a file is in the same text. -/
theorem Hands.source {o : Origin} {block : Block} {site' : Site} {body : Body}
    (h : site.Hands o block none site' body) : site'.source = site.source := by
  cases h with
  | nested => rfl
  | called use handed =>
    obtain ⟨name, -, -, invocation, -, rfl⟩ := call?_eq_some use
    cases handed <;> rfl

/-- A site is tended below wherever its own site is. -/
theorem Hands.tends {o : Origin} {block : Block} {site' : Site} {body : Body}
    (h : site.Hands o block none site' body) (hsite : W.Tends site) : W.Tends site' where
  hears := by
    rw [h.source]
    exact hsite.hears
  builtin hstrict := by
    rw [h.env]
    exact hsite.builtin hstrict

/-- A body keeps under watch if the bodies within it that come from files are
    read under watch: by induction on the depth. -/
theorem meets_readWithin {file : Site → Body → Parse Unit} {depth : Nat} {b : Body}
    (hfile : ∀ f site' b', Reached W.origin site b [f] site' b' →
      ∀ s, W.Roomy s.doc site'.parent → W.Keeps s (file site' b'))
    (hsite : W.Tends site) (hparent : W.Roomy s.doc site.parent) :
    W.Keeps s (site.readWithin file depth b) := by
  induction depth generalizing site b s with
  | zero => exact .throw fun _ => ⟨.refl _, nofun⟩
  | succ depth ih =>
    refine .forM fun block hblock t hst => meets_eachBlock hsite (hst.roomy hparent)
      ((b.blocks_fit site.titles _ hblock).imp (·.1) fun ⟨line, h⟩ => ⟨line, _, h⟩) ?_
    intro f site' b' hhands u hroomy
    cases f with
    | some f => exact hfile f site' b' (Reached.start.step hblock hhands) u hroomy
    | none =>
      refine ih (fun f site'' b'' hreached => ?_) (hhands.tends hsite) hroomy
      exact hfile f site'' b'' ((Reached.start.step hblock hhands).trans hreached)

end Site

end MarkupLint
