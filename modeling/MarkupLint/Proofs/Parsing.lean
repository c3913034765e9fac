import MarkupLint.Proofs.Content
import MarkupLint.Proofs.Directives
import MarkupLint.Proofs.Heading

/-! # Parsing grows a document

    One lemma for each kind of block: what the parser does with it, in any
    two worlds, grows the document in the same way, within what is allowed.
    A block leaves the open sections alone unless it starts some, which it
    does in one of two ways: it is a title, or it is explicit markup that
    includes a file where titles are allowed.  From this the same follows
    for bodies, by induction on how deep they nest, and for files, by
    induction on how many of them are inside one another. -/

namespace MarkupLint

open Discipline

variable {v w : World} {L : License} {n : Nat} {keep : Prop}

/-- A use of a directive is allowed, and leaves the open sections alone if
    they are to be kept. -/
structure Call.Fit (v : World) (L : License) (keep : Prop) (c : Call) (d : Directive) : Prop where
  calm : keep → (c.under v).Calm L d
  licensed : (c.under v).Licensed L d

/-- A use of a directive is allowed, and two readers serve it. -/
structure Call.Suits (v w : World) (L : License) (n : Nat) (keep : Prop) (read read' : ReadBody)
    (c : Call) (d : Directive) : Prop where
  fit : c.Fit v L keep d
  served : c.Served v w L n keep read read' d

namespace Site

/-- A use of a directive is the same in every world. -/
theorem call?_under (site : Site) (lines : List Line) (line : Nat) (markup : String) :
    (site.under v).call? lines line markup
      = (site.call? lines line markup).map fun found => (found.1, found.2.under v) := by
  have henv : (site.under v).env.directive? = site.env.directive? := rfl
  simp only [call?, callAt?]
  split
  · rfl
  · split
    · simp only [callIn?, henv]
      cases site.env.directive? _ with
      | none => rfl
      | some d =>
        dsimp only
        cases d.spec.read _ _ <;> rfl
    · rfl

/-- What a block does at a site is allowed: the use of a directive, or that
    reading gets stuck. -/
def Allowed (L : License) (site : Site) : Block → Prop
  | .explicit line lines markup =>
    ∀ d c, site.call? lines line (String.ofList markup) = some (d, c) → c.Licensed L d
  | .stuckList _ _ => L.stops .endless
  | _ => True

/-- Where every level and every pass is allowed, and every stop of a step that
    comes to an end, any block may stand at which reading does not get stuck. -/
theorem allowed_of_stops (hstops : ∀ e, e ≠ .exhausted → e ≠ .endless → L.stops e)
    (hlevels : ∀ l, L.levels l) (hrequests : ∀ r, L.requests r) (site : Site) {block : Block}
    (hstuck : ∀ line first, block = .stuckList line first → L.stops .endless) :
    site.Allowed L block := by
  cases block with
  | explicit line lines markup =>
    exact fun d c _ => Call.licensed_of_stops hstops hlevels hrequests c d
  | stuckList line first => exact hstuck line first rfl
  | _ => trivial

/-- With a free license everything is allowed. -/
theorem allowed_of_free (hfree : L.Free) (site : Site) (block : Block) : site.Allowed L block :=
  site.allowed_of_stops (fun e _ _ => hfree.stops e) hfree.levels hfree.requests
    fun _ _ _ => hfree.stops _

/-- What a block does at a site is allowed, and leaves the open sections
    alone if they are to be kept. -/
def Fit (v : World) (L : License) (keep : Prop) (site : Site) : Block → Prop
  | .heading _ => ¬keep
  | .explicit line lines markup =>
    ∀ d c, site.call? lines line (String.ofList markup) = some (d, c) → c.Fit v L keep d
  | .stuckList _ _ => L.stops .endless
  | _ => True

/-- Where no titles are allowed, every block leaves the open sections
    alone. -/
theorem fit_of_titles {site : Site} (h : keep → site.titles = false) {body : Body} {block : Block}
    (hblock : block ∈ site.blocks body) (hallowed : (site.under v).Allowed L block) :
    site.Fit v L keep block := by
  cases block with
  | heading head =>
    exact fun hkeep => nomatch Reader.blocks_untitled (h hkeep) _ _ _ hblock
  | explicit line lines markup =>
    intro d c hcall
    refine ⟨fun hkeep => ?_, hallowed d (c.under v) ?_⟩
    · obtain ⟨-, -, -, block, -, rfl⟩ := call?_eq_some hcall
      exact Call.calm_of_titles (h hkeep) d
    · rw [call?_under, hcall]
      rfl
  | stuckList line first => exact hallowed
  | _ => trivial

/-- What two readers make of the bodies that a block hands on keeps a
    contract, and leaves the open sections alone where none may start. -/
def Served (v w : World) (L : License) (n : Nat) (keep : Prop) (read read' : ReadBody)
    (site : Site) (block : Block) : Prop :=
  ∀ o file site' body, L.about o → (site.under v).Hands o block file site' body →
    (keep → site'.titles = false) →
    Contract (growing v w L n keep) Anything (read.pick file site' body)
      (read'.pick file (site'.under w) body)

/-- What is handed on in a world is read in that world. -/
theorem Hands.under_eq {site site' : Site} {o : Origin} {block : Block} {file : Option OpenFile}
    {body : Body} (h : (site.under v).Hands o block file site' body) : site'.under v = site' := by
  have henv : site'.env = (site.under v).env := h.env
  simp only [Site.under] at henv ⊢
  rw [henv]
  cases site'
  simp only at henv
  rw [henv]
  rfl

/-- Readers that serve explicit markup serve its directive. -/
theorem Served.call {read read' : ReadBody} {site : Site} {line : Nat} {lines : List Line}
    {markup : List Char} (h : site.Served v w L n keep read read' (.explicit line lines markup))
    {d : Directive} {c : Call}
    (hcall : site.call? lines line (String.ofList markup) = some (d, c)) :
    c.Served v w L n keep read read' d := by
  intro o file site' body ho hhands htitles
  refine h o file site' body ho (.called ?_ hhands) htitles
  rw [call?_under, hcall]
  rfl

variable (site : Site)

/-! ## Explicit markup -/

section Markup

variable (lines : List Line) (line : Nat)

/-- A comment is new. -/
theorem aside_comment :
    Contract (aside v w L n) (n ≤ ·) (site.comment lines line) (site.comment lines line) :=
  Build.aside_textElement _ _

/-- So is a target, with the messages about its name. -/
theorem aside_makeTarget (name : Option (List Char)) :
    Contract (aside v w L n) (AllNew n) (site.makeTarget name lines line)
      (site.makeTarget name lines line) := by
  refine .bind (Build.aside_element (.refl _) (.nil n)) fun target htarget => ?_
  refine .ite (fun _ => .pure (.one htarget)) fun _ => ?_
  refine .bind (Build.aside_noteTarget _ _) fun complaints hcomplaints => ?_
  exact .pure (.cons htarget hcomplaints)

/-- And what a target that is written badly leaves. -/
theorem aside_hyperlinkTarget :
    Contract (aside v w L n) (AllNew n) (site.hyperlinkTarget lines line)
      (site.hyperlinkTarget lines line) := by
  simp only [hyperlinkTarget]
  split
  · refine .bind (site.aside_raise _ _ _ _ L.warning) fun warning hwarning => ?_
    refine .bind (site.aside_comment _ _) fun comment hcomment => ?_
    exact .pure (.cons hcomment (.one hwarning))
  · exact site.aside_makeTarget _ _ _

end Markup

section Read

variable {read read' : ReadBody}

/-- What becomes of the answer of a directive is new. -/
theorem grow_answered (line : Nat) (markup : String) {answer : Except Complaint (List NodeId)}
    (hanswer : Answer L n (AllNew n) answer) :
    Contract (growing v w L n keep) (AllNew n) ((site.under v).answered line markup answer)
      ((site.under w).answered line markup answer) := by
  cases answer with
  | ok nodes => exact .pure hanswer
  | error e =>
    refine .bind (site.grow_raise _ _ _ _ hanswer.level) fun complaint hcomplaint => ?_
    exact .pure (hanswer.messages.append (.one hcomplaint))

/-- A directive grows what its call does; an unknown one grows messages. -/
theorem grow_directive (name : String) (body : List Line) (line : Nat)
    (markup substitution : String)
    (hfit : ∀ d c, site.callIn? name body line markup substitution = some (d, c) →
      c.Suits v w L n keep read read' d) :
    Contract (growing v w L n keep) (AllNew n)
      ((site.under v).directive read name body line markup substitution)
      ((site.under w).directive read' name body line markup substitution) := by
  have henv : ∀ u : World, (site.under u).env.directive? = site.env.directive? := fun _ => rfl
  simp only [directive, henv]
  cases hd : site.env.directive? name with
  | none =>
    refine .bind (site.grow_raise _ _ _ _ L.info) fun note hnote => ?_
    refine .bind (site.grow_raise _ _ _ _ L.error) fun complaint hcomplaint => ?_
    exact .pure (.cons hnote (.one hcomplaint))
  | some d =>
    dsimp only
    cases hblock : d.spec.read body (line - 1) with
    | error e => exact .bind (site.grow_raise _ _ _ _ L.error) fun complaint h => .pure (.one h)
    | ok block =>
      obtain ⟨⟨hcalm, hlicensed⟩, hserved⟩ := hfit d
        (site.call block name line markup substitution) (by simp only [callIn?, hd, hblock])
      exact .bind (Call.gives_run _ name d hserved hcalm hlicensed) fun answer hanswer =>
        site.grow_answered line markup hanswer

/-- New nodes are divided into new nodes. -/
theorem grow_divide {nodes : List NodeId} (hnodes : AllNew n nodes) :
    Contract (growing v w L n keep) (fun made => AllNew n made.1 ∧ AllNew n made.2)
      (divide nodes) (divide nodes) := by
  refine .get ?_
  rintro s _ ⟨_, ⟨forest, halt, hlike, hsooner⟩, rfl⟩ _
  have hkind : ∀ i, (forest.get i).kind = (s.doc.forest.get i).kind := fun i =>
    (hlike.node i).kind
  simp only [hkind]
  refine .pure ?_
  rw [List.partition_eq_filter_filter]
  exact ⟨fun i hi => hnodes i (List.mem_of_mem_filter hi),
    fun i hi => hnodes i (List.mem_of_mem_filter hi)⟩

/-- A definition is noted in both worlds, or refused in both. -/
theorem grow_defineSubstitution (name : String) (line : Nat) (markup : String)
    {made : List NodeId × List NodeId} (hmade : AllNew n made.1 ∧ AllNew n made.2) :
    Contract (growing v w L n keep) (AllNew n)
      ((site.under v).defineSubstitution name line markup made)
      ((site.under w).defineSubstitution name line markup made) := by
  refine .bind (Parse.grow_build (Build.hang_element (.refl _) hmade.1))
    fun definition hdefinition => ?_
  refine Parse.grow_node fun a b _ hab => ?_
  rw [hab.children]
  refine .ite (fun _ => ?_) fun _ => ?_
  · refine .bind (site.grow_raise _ _ _ _ L.warning) fun complaint hcomplaint => ?_
    exact .pure (hmade.2.append (.one hcomplaint))
  · refine .bind (Parse.grow_allNew fun _ => Build.aside_noteSubstitution _ _)
      fun complaints hcomplaints => ?_
    exact .pure (hmade.2.append (.cons hdefinition hcomplaints))

/-- What explicit markup makes of the nodes of its directive is new. -/
theorem grow_concluded (lines : List Line) (line : Nat) (markup : String) {nodes : List NodeId}
    (hnodes : AllNew n nodes) :
    Contract (growing v w L n keep) (AllNew n) ((site.under v).concluded lines line markup nodes)
      ((site.under w).concluded lines line markup nodes) :=
  .ite (fun _ => .bind (grow_divide hnodes) fun _ hmade => site.grow_defineSubstitution _ _ _ hmade)
    fun _ => .pure hnodes

/-- The nodes of a definition are new, those inside a line and the others. -/
theorem grow_definitionNodes (name : String) (body : List Line) (line : Nat) (markup : String)
    (hfit : ∀ d c, site.callAt? body line markup name = some (d, c) → c.Suits v w L n keep read read' d) :
    Contract (growing v w L n keep) (fun made => AllNew n made.1 ∧ AllNew n made.2)
      ((site.under v).definitionNodes read name body line markup)
      ((site.under w).definitionNodes read' name body line markup) := by
  simp only [callAt?] at hfit
  simp only [definitionNodes]
  cases htext : directiveText? body with
  | none =>
    refine .bind (Parse.grow_inlineParse site _ _) fun made hmade => ?_
    exact .pure hmade
  | some found =>
    obtain ⟨directiveName, text⟩ := found
    rw [htext] at hfit
    exact .bind (site.grow_directive _ _ _ _ _ hfit) fun nodes hnodes => grow_divide hnodes

/-- By the call that the definition holds, if it is written well. -/
theorem grow_substitutionDefinition (lines : List Line) (line : Nat) (markup : String)
    (hfit : ∀ name body, definition? lines = some (name, body) →
      ∀ d c, site.callAt? body line markup name = some (d, c) → c.Suits v w L n keep read read' d) :
    Contract (growing v w L n keep) (AllNew n)
      ((site.under v).substitutionDefinition read lines line markup)
      ((site.under w).substitutionDefinition read' lines line markup) := by
  cases lines with
  | nil => exact .pure (.nil n)
  | cons first rest =>
    simp only [definition?] at hfit
    simp only [substitutionDefinition]
    cases hname : Pattern.substitution? first with
    | none =>
      refine .bind (site.grow_raise _ _ _ _ L.warning) fun warning hwarning => ?_
      refine .bind (Parse.grow_new fun _ => site.aside_comment _ line) fun comment hcomment => ?_
      exact .pure (.cons hcomment (.one hwarning))
    | some found =>
      obtain ⟨name, width⟩ := found
      rw [hname] at hfit
      refine .ite (fun _ => ?_) fun _ => ?_
      · exact .bind (site.grow_raise _ _ _ _ L.warning) fun complaint h => .pure (.one h)
      refine .bind (site.grow_definitionNodes _ _ _ _ (hfit _ _ rfl)) fun made hmade => ?_
      exact site.grow_defineSubstitution _ _ _ hmade

/-- The nodes of explicit markup are new. -/
theorem grow_explicit (lines : List Line) (line : Nat) (markup : String)
    (hfit : ∀ d c, site.call? lines line markup = some (d, c) → c.Suits v w L n keep read read' d) :
    Contract (growing v w L n keep) (AllNew n) ((site.under v).explicit read lines line markup)
      ((site.under w).explicit read' lines line markup) := by
  simp only [call?] at hfit
  refine .ite (fun _ => ?_) fun hunder => .ite (fun hbar => ?_) fun hbar => ?_
  · exact Parse.grow_allNew fun _ => site.aside_hyperlinkTarget lines line
  · rw [if_neg hunder] at hfit
    refine site.grow_substitutionDefinition lines line markup fun name body hdefinition => ?_
    simpa only [directiveLines, definedName, hbar, if_true, hdefinition, Option.map_some,
      Option.getD_some] using hfit
  · rw [if_neg hunder, directiveLines, definedName, if_neg hbar, if_neg hbar, callAt?] at hfit
    cases htext : directiveText? lines with
    | none =>
      refine .bind (Parse.grow_new fun _ => site.aside_comment lines line) fun comment h => ?_
      exact .pure (.one h)
    | some found =>
      obtain ⟨name, body⟩ := found
      rw [htext] at hfit
      exact site.grow_directive _ _ _ _ _ hfit

end Read

/-! ## Paragraphs and sections -/

/-- A problem is a new message. -/
theorem grow_complain (p : Problem) :
    Contract (growing v w L n keep) (n ≤ ·) (Parse.build (site.complain p))
      (Parse.build (site.complain p)) :=
  site.grow_raise _ _ _ _ (L.severity _)

/-- So is an indented line after a paragraph. -/
theorem aside_strayMessages (stray : Option Nat) :
    Contract (aside v w L n) (AllNew n) (site.strayMessages stray) (site.strayMessages stray) := by
  cases stray with
  | none => exact .pure (.nil n)
  | some next => exact .bind (site.aside_raise _ _ _ _ L.error) fun i hi => .pure (.one hi)

/-- The inline nodes go into the new paragraph, and all of it into the
    parent. -/
theorem grow_paragraph (line : Nat) (text : List Char) (stray : Option Nat) :
    Contract (growing v w L n keep) Anything ((site.under v).paragraph line text stray)
      ((site.under w).paragraph line text stray) := by
  refine .bind (Parse.grow_allNew fun _ => site.aside_strayMessages stray)
    fun complaint hcomplaint => ?_
  refine .ite (fun _ => ?_) fun _ => site.grow_add hcomplaint
  refine .bind (Parse.grow_inlineParse site _ _) fun made hmade => ?_
  refine .bind (Parse.grow_build (Build.hang_element (.refl _) hmade.1)) fun i hi => ?_
  refine .bind (site.grow_add (.cons hi hmade.2)) fun _ _ => ?_
  exact site.grow_add hcomplaint

/-- A complaint is repeated in both worlds alike. -/
theorem grow_repeatShortage (p : Problem) (count : Nat) :
    Contract (growing v w L n keep) (AllNew n) ((site.under v).repeatShortage p count)
      ((site.under w).repeatShortage p count) := by
  induction count with
  | zero => exact .bind (site.grow_complain p) fun i hi => .pure (.one hi)
  | succ count ih => exact .bind (site.grow_complain p) fun _ _ => ih

/-- And left out in both. -/
theorem grow_shortageMessages (p : Option Problem) (count : Nat) :
    Contract (growing v w L n keep) (AllNew n) ((site.under v).shortageMessages p count)
      ((site.under w).shortageMessages p count) := by
  cases p with
  | none => exact .pure (.nil n)
  | some p => exact site.grow_repeatShortage p count

/-- A title at a wrong level is a message in the parent. -/
theorem grow_refuseTitle (h : Heading) :
    Contract (growing v w L n keep) Anything ((site.under v).refuseTitle h)
      ((site.under w).refuseTitle h) := by
  refine .bind (site.grow_shortageMessages _ _) fun messages hmessages => ?_
  refine .bind (site.grow_add hmessages) fun _ _ => ?_
  exact .bind (site.grow_raise _ _ _ _ L.severe) fun i hi => site.grow_add (.one hi)

/-- Setting what is known of the outline, which is not to be kept. -/
theorem grow_outline {a : ParseState → ParseState} (hkeep : ¬keep) (hdoc : ∀ s, (a s).doc = s.doc)
    (hcomm : ∀ s d, a { s with doc := d } = { a s with doc := d }) :
    Contract (growing v w L n keep) Anything (modify a) (modify a) := by
  refine .modify ?_
  rintro s _ ⟨d, hd, rfl⟩ _
  refine ⟨⟨?_, ?_, fun h => absurd h hkeep⟩, ⟨d, ?_, hcomm s d⟩, [], .quiet ?_ ?_⟩
  · rw [hdoc]
    exact .refl n _
  · rw [hdoc]
    exact .refl _
  · rwa [hdoc]
  · rw [hdoc]
  · rw [hdoc]

/-- A new section, under the same parent in both worlds. -/
theorem grow_hangSection (h : Heading) (parent : NodeId) {made : Inlined} (hmade : made.New n)
    {messages : List NodeId} (hmessages : AllNew n messages) (hkeep : ¬keep) :
    Contract (growing v w L n keep) Anything ((site.under v).hangSection h parent made messages)
      ((site.under w).hangSection h parent made messages) := by
  refine .bind (Parse.grow_build (Build.hang_element (.refl _) hmade.1)) fun title htitle => ?_
  refine .bind (Parse.grow_build (Build.hang_element (.refl _)
    (.cons htitle (hmessages.append hmade.2)))) fun node hnode => ?_
  refine .bind (Parse.grow_build (Build.hang_append parent (.one hnode))) fun _ _ => ?_
  refine .bind (grow_outline hkeep (fun _ => rfl) fun _ _ => rfl) fun _ _ => ?_
  refine .bind (Parse.grow_allNew fun _ => Build.aside_noteTarget node false)
    fun complaints hcomplaints => ?_
  exact Parse.grow_build (Build.hang_append node hcomplaints)

/-- A title that is admitted changes the open sections, so this is not among
    what is to be kept. -/
theorem grow_enterSection (h : Heading) (closed : Nat) (styles : List TitleStyle)
    (hkeep : ¬keep) :
    Contract (growing v w L n keep) Anything ((site.under v).enterSection h closed styles)
      ((site.under w).enterSection h closed styles) := by
  refine .bind (site.grow_shortageMessages _ _) fun messages hmessages => ?_
  refine .bind (grow_outline hkeep (fun _ => rfl) fun _ _ => rfl) fun _ _ => ?_
  refine .bind site.grow_container fun parent _ => ?_
  refine .bind (Parse.grow_inlineParse site _ _) fun made hmade => ?_
  exact site.grow_hangSection h parent hmade hmessages hkeep

/-- A title is admitted in both worlds or refused in both. -/
theorem grow_openSection (h : Heading) (hkeep : ¬keep) :
    Contract (growing v w L n keep) Anything ((site.under v).openSection h)
      ((site.under w).openSection h) := by
  refine .get ?_
  rintro s _ ⟨_, ⟨forest, halt, hlike, hsooner⟩, rfl⟩ _
  dsimp only
  split
  · exact site.grow_refuseTitle h
  · exact site.grow_enterSection h _ _ hkeep

/-! ## Lists -/

/-- A list is hung up before its items are read. -/
theorem grow_openList (a : Node) :
    Contract (growing v w L n keep) (n ≤ ·) ((site.under v).openList a)
      ((site.under w).openList a) := by
  refine .bind (Parse.grow_build (Build.hang_element (.refl _) (.nil n))) fun list hlist => ?_
  exact .bind (site.grow_add (.one hlist)) fun _ _ => .pure hlist

/-- The remarks on a term are new messages. -/
theorem aside_termNotes (item : DefinitionItem) :
    Contract (aside v w L n) (AllNew n) (site.termNotes item) (site.termNotes item) := by
  refine .ite (fun _ => ?_) fun _ => .pure (.nil n)
  exact .bind (site.aside_raise _ _ _ _ L.info) fun i hi => .pure (.one hi)

/-- By the lines, each in a new node. -/
theorem grow_lineBlock (line : Nat) (lines : List (Nat × List Char)) :
    Contract (growing v w L n keep) Anything ((site.under v).lineBlock line lines)
      ((site.under w).lineBlock line lines) := by
  refine .bind (Parse.grow_build (Build.hang_element (.refl _) (.nil n))) fun i hi => ?_
  refine .bind (.forM fun entry _ => ?_) fun _ _ => site.grow_add (.one hi)
  refine .bind (Parse.grow_inlineParse site _ _) fun made hmade => ?_
  exact Parse.grow_build (Build.hang_append i (hmade.1.append hmade.2))

section Read

variable {read read' : ReadBody}

/-- Two readers read a body inside a block well. -/
def Reads (v w : World) (L : License) (n : Nat) (keep : Prop) (read read' : ReadBody)
    (site : Site) (body : Body) : Prop :=
  ∀ parent, Contract (growing v w L n keep) Anything (read ((site.under v).within parent) body)
    (read' ((site.under w).within parent) body)

/-- By the items, whose bodies are read in both worlds. -/
theorem grow_listItems (list : NodeId) {items : List ListItem}
    (hread : ∀ item ∈ items, site.Reads v w L n keep read read' item.body) :
    Contract (growing v w L n keep) Anything ((site.under v).listItems read list items)
      ((site.under w).listItems read' list items) := by
  refine .forM fun item hitem => ?_
  refine .bind (Parse.grow_build (Build.hang_element (.refl _) (.nil n))) fun i hi => ?_
  refine .bind (hread item hitem i) fun _ _ => ?_
  exact Parse.grow_build (Build.hang_append list (.one hi))

/-- By the items: name and body. -/
theorem grow_fields (list : NodeId) {items : List HeadedItem}
    (hread : ∀ item ∈ items, site.Reads v w L n keep read read' item.body) :
    Contract (growing v w L n keep) Anything ((site.under v).fields read list items)
      ((site.under w).fields read' list items) := by
  refine .forM fun item hitem => ?_
  refine .bind (Parse.grow_inlineParse site _ _) fun made hmade => ?_
  refine .bind (Parse.grow_build (Build.hang_element (.refl _) hmade.1)) fun name hname => ?_
  refine .bind (Parse.grow_build (Build.hang_element (.refl _) (.nil n))) fun body hbody => ?_
  refine .bind (Parse.grow_build (Build.hang_element (.refl _) (.cons hname (.one hbody))))
    fun field hfield => ?_
  refine .bind (Parse.grow_build (Build.hang_append list (.one hfield))) fun _ _ => ?_
  refine .bind (Parse.grow_build (Build.hang_append body hmade.2)) fun _ _ => ?_
  exact hread item hitem body

/-- By the items: options and body. -/
theorem grow_optionItems (list : NodeId) {items : List HeadedItem}
    (hread : ∀ item ∈ items, site.Reads v w L n keep read read' item.body) :
    Contract (growing v w L n keep) Anything ((site.under v).optionItems read list items)
      ((site.under w).optionItems read' list items) := by
  refine .forM fun item hitem => ?_
  refine .bind (Parse.grow_new fun _ => Build.aside_textElement _ _) fun term hterm => ?_
  refine .bind (Parse.grow_build (Build.hang_element (.refl _) (.nil n)))
    fun definition hdefinition => ?_
  refine .bind (Parse.grow_build (Build.hang_element (.refl _) (.cons hterm (.one hdefinition))))
    fun i hi => ?_
  refine .bind (Parse.grow_build (Build.hang_append list (.one hi))) fun _ _ => ?_
  exact hread item hitem definition

/-- By the items: term, remarks and definition. -/
theorem grow_definitions (list : NodeId) {items : List DefinitionItem}
    (hread : ∀ item ∈ items, site.Reads v w L n keep read read' item.body) :
    Contract (growing v w L n keep) Anything ((site.under v).definitions read list items)
      ((site.under w).definitions read' list items) := by
  refine .forM fun item hitem => ?_
  refine .bind (Parse.grow_inlineParse site _ _) fun made hmade => ?_
  refine .bind (Parse.grow_build (Build.hang_element (.refl _) hmade.1)) fun term hterm => ?_
  refine .bind (Parse.grow_allNew fun _ => site.aside_termNotes item) fun note hnote => ?_
  refine .bind (Parse.grow_build (Build.hang_element (.refl _) (.nil n)))
    fun definition hdefinition => ?_
  refine .bind (Parse.grow_build (Build.hang_element (.refl _)
    (((AllNew.cons hterm hmade.2).append hnote).append (.one hdefinition)))) fun i hi => ?_
  refine .bind (Parse.grow_build (Build.hang_append list (.one hi))) fun _ _ => ?_
  exact hread item hitem definition

/-- A list, its items, and the remark on its first number. -/
theorem grow_enumeratedList (line : Nat) (start : Option (Nat × List Char))
    {items : List ListItem}
    (hread : ∀ item ∈ items, site.Reads v w L n keep read read' item.body) :
    Contract (growing v w L n keep) Anything ((site.under v).enumeratedList read line start items)
      ((site.under w).enumeratedList read' line start items) := by
  refine .bind (site.grow_openList _) fun list _ => ?_
  cases start with
  | none => exact site.grow_listItems list hread
  | some start =>
    refine .bind (site.grow_raise _ _ _ _ L.info) fun note hnote => ?_
    refine .bind (site.grow_add (.one hnote)) fun _ _ => ?_
    exact site.grow_listItems list hread

/-- A stuck list says what it has to say and goes on without end, in both
    worlds. -/
theorem grow_stuckList (line first : Nat) (hendless : L.stops .endless) :
    Contract (growing v w L n keep) Anything ((site.under v).stuckList read line first)
      ((site.under w).stuckList read' line first) := by
  refine .bind (site.grow_enumeratedList line _ (List.forall_mem_nil _)) fun _ _ => ?_
  refine .bind (site.grow_complain _) fun msg hmsg => ?_
  exact .bind (site.grow_add (.one hmsg)) fun _ _ => .throw fun _ => .inl hendless

/-! ## Blocks and bodies -/

/-- A block grows the document, within what is allowed. -/
theorem grow_block (block : Block) (hfit : site.Fit v L keep block)
    (hserved : site.Served v w L n keep read read' block) :
    Contract (growing v w L n keep) Anything ((site.under v).block read block)
      ((site.under w).block read' block) := by
  intro s t hst hready
  refine (show Contract (growing v w L n keep) Anything _ _ from ?_) s t hst hready
  have hread : ∀ c ∈ block.bodies, site.Reads v w L n keep read read' c := fun c hc parent =>
    hserved _ none _ c hready.2.2 (.nested hc parent) fun _ => rfl
  have hnode : ∀ a text, Contract (growing v w L n keep) Anything
      (do (site.under v).add [← (Build.textElement a text : Parse _)])
      (do (site.under w).add [← (Build.textElement a text : Parse _)]) := fun a text =>
    .bind (Parse.grow_new fun _ => Build.aside_textElement _ _) fun i hi => site.grow_add (.one hi)
  cases block with
  | problem p => exact .bind (site.grow_complain p) fun i hi => site.grow_add (.one hi)
  | paragraph line text stray => exact site.grow_paragraph line text stray
  | literal line text => exact hnode _ _
  | heading h => exact site.grow_openSection h hfit
  | transition line =>
    refine .bind (Parse.grow_build (Build.hang_element (.refl _) (.nil n))) fun i hi => ?_
    exact site.grow_add (.one hi)
  | quote line body =>
    refine .bind (Parse.grow_build (Build.hang_element (.refl _) (.nil n))) fun i hi => ?_
    exact .bind (site.grow_add (.one hi)) fun _ _ => hread body (List.mem_singleton_self body) i
  | bulletList line items =>
    exact .bind (site.grow_openList _) fun list _ =>
      site.grow_listItems list fun item hitem => hread _ (List.mem_map_of_mem hitem)
  | enumeratedList line start items =>
    exact site.grow_enumeratedList line start fun item hitem => hread _ (List.mem_map_of_mem hitem)
  | stuckList line first => exact site.grow_stuckList line first hfit
  | fieldList line items =>
    exact .bind (site.grow_openList _) fun list _ =>
      site.grow_fields list fun item hitem => hread _ (List.mem_map_of_mem hitem)
  | optionList line items =>
    exact .bind (site.grow_openList _) fun list _ =>
      site.grow_optionItems list fun item hitem => hread _ (List.mem_map_of_mem hitem)
  | definitionList line items =>
    exact .bind (site.grow_openList _) fun list _ =>
      site.grow_definitions list fun item hitem => hread _ (List.mem_map_of_mem hitem)
  | doctest line text => exact hnode _ _
  | lineBlock line lines => exact site.grow_lineBlock line lines
  | table line text => exact hnode _ _
  | explicit line lines markup =>
    refine .bind (site.grow_explicit lines line _ fun d c hcall => ?_) fun nodes hnodes =>
      site.grow_add hnodes
    exact ⟨hfit d c hcall, hserved.call hcall⟩
  | anonymousTarget line lines =>
    refine .bind (Parse.grow_allNew fun _ => site.aside_makeTarget lines line none)
      fun nodes hnodes => ?_
    exact site.grow_add hnodes

end Read

/-- A body grows the document, block by block. -/
theorem grow_blocks {read read' : ReadBody} (body : Body)
    (hfit : ∀ block ∈ site.blocks body, site.Fit v L keep block)
    (hserved : ∀ block ∈ site.blocks body, site.Served v w L n keep read read' block) :
    Contract (growing v w L n keep) Anything
      ((site.blocks body).forM ((site.under v).block read))
      ((site.blocks body).forM ((site.under w).block read')) :=
  .forM fun block hblock => site.grow_block block (hfit block hblock) (hserved block hblock)

end Site

/-- Whatever a text can make of an environment is allowed. -/
structure License.Covers (L : License) (env : Surroundings) : Prop where
  deep : L.stops .exhausted
  tabs : L.stops .fault
  allowed : ∀ site : Site, site.env = env → ∀ block, site.Allowed L block

/-- What may stop anywhere covers all surroundings. -/
theorem License.Free.covers (hfree : L.Free) (env : Surroundings) : L.Covers env where
  deep := hfree.stops _
  tabs := hfree.stops _
  allowed site _ block := site.allowed_of_free hfree block

namespace Site

variable {site : Site}

section Covered

variable {env : Surroundings} (hcovers : L.Covers env)

include hcovers

/-- By the depth: a body's blocks grow it if the bodies inside them do. -/
theorem grow_readWithin {file : Site → Body → Parse Unit}
    (hfile : ∀ (site : Site) (body : Body), site.env.under v = env →
      (keep → site.titles = false) →
      Contract (growing v w L n keep) Anything (file (site.under v) body)
        (file (site.under w) body))
    (depth : Nat) (body : Body) (henv : site.env.under v = env)
    (htitles : keep → site.titles = false) :
    Contract (growing v w L n keep) Anything (readWithin file depth (site.under v) body)
      (readWithin file depth (site.under w) body) := by
  induction depth generalizing site body with
  | zero => exact .throw fun _ => .inl hcovers.deep
  | succ depth ih =>
    refine site.grow_blocks body
      (fun block hblock => fit_of_titles htitles hblock (hcovers.allowed (site.under v) henv block))
      fun block _ o from? site' body' _ hhands htitles' => ?_
    · have henv' : site'.env.under v = env := by
        rw [hhands.env]
        exact henv
      rw [← hhands.under_eq]
      cases from? with
      | none => exact ih body' henv' htitles'
      | some _ => exact hfile site' body' henv' htitles'

/-- Reading a body grows the document, and leaves the open sections alone
    where none may start. -/
theorem grow_read (site : Site) (count : Nat) (body : Body) (henv : site.env.under v = env)
    (htitles : keep → site.titles = false) :
    Contract (growing v w L n keep) Anything (read count (site.under v) body)
      (read count (site.under w) body) := by
  induction count generalizing site body with
  | zero => exact .throw fun _ => .inl hcovers.deep
  | succ count ih =>
    exact grow_readWithin hcovers ih _ body henv htitles

end Covered

end Site

/-! ## Documents -/

/-- A text is read in both worlds alike, from the same document on. -/
theorem grow_parseText (env : Surroundings) (hcovers : L.Covers (env.under v)) (text : List Char) :
    Contract (growing v w L n False) Anything (parseText (env.under v) text)
      (parseText (env.under w) text) := by
  refine .get ?_
  rintro s _ ⟨_, ⟨forest, halt, hlike, hsooner⟩, rfl⟩ _
  dsimp only
  split
  · exact .throw fun _ => .inl hcovers.tabs
  · exact Site.grow_read hcovers ⟨env, s.doc.source, true, s.doc.root, []⟩ _ _ rfl False.elim

namespace Document

/-- How two runs from two documents compare, each with the way it ended and
    the document after it: the first is spoiled, or the second stopped on the
    way, or they ended in the same way. -/
inductive Compared (v w : World) (L : License) (d e : Document) (x y : Except Stop Unit × Document) :
    Prop
  | spoiled (h : x.2.Spoiled v w)
  | parted {stop : Stop} (hstop : y.1 = .error stop) (h : Parted L d e x.2 stop y.2)
  | agree (same : x.1 = y.1) (alike : x.2.Alike v w L y.2) {xs : List Notice}
      (kept : Kept L xs d e x.2 y.2)

/-- Parsing is reading the text and leaving the state of the reader behind. -/
theorem parse_eq (d : Document) (env : Surroundings) (text : List Char) :
    d.parse env text = ((outcome (parseText env text { doc := d })).1,
      (outcome (parseText env text { doc := d })).2.doc) := by
  simp only [parse, EStateM.run]
  cases parseText env text { doc := d } <;> rfl

/-- **Parsing depends on the files the document depends on, and on no
    others.**  The document only ever depends on more files, it stops for the
    reasons that are allowed, and in any two worlds that have these files
    alike the text is parsed in the same way, into documents that are alike,
    unless the second document halts before. -/
theorem parse_compared {d e : Document} (hde : d.Alike v w L e) (env : Surroundings)
    (hcovers : L.Covers (env.under v)) (habout : L.about d.origin) (text : List Char) :
    d.Steady L (d.parse (env.under v) text).2 ∧
      (∀ stop, (d.parse (env.under v) text).1 = .error stop →
        L.Stops (d.parse (env.under v) text).2 stop) ∧
      Compared v w L d e (d.parse (env.under v) text) (e.parse (env.under w) text) := by
  obtain ⟨hgrown, hends, hrest⟩ := grow_parseText (v := v) (w := w) (n := d.forest.size) env
    hcovers text { doc := d } { doc := e } ⟨e, hde, rfl⟩
    ⟨Nat.le_refl _, Forest.closed_of_size_le (Nat.le_refl _), habout⟩
  rw [stateAfter_eq] at hgrown
  rw [parse_eq, parse_eq]
  generalize parseText (env.under v) text { doc := d } = x at hgrown hends hrest
  generalize parseText (env.under w) text { doc := e } = y at hrest
  refine ⟨?_, ?_, ?_⟩
  · cases x <;> exact hgrown.steady
  · intro stop hstop
    cases x with
    | ok a s => cases hstop
    | error e s =>
      cases hstop
      exact hends
  · cases hrest with
    | spoiled h => cases x <;> exact .spoiled h
    | parted hy h =>
      rw [hy]
      cases x <;> exact .parted rfl h
    | agree hagree =>
      rcases hagree.cases with ⟨_, s, _, rfl, rfl, ⟨_, hst, rfl⟩, xs, hkept⟩ |
        ⟨stop, s, _, rfl, rfl, ⟨_, hst, rfl⟩, xs, hkept⟩
      · exact .agree rfl hst hkept
      · exact .agree rfl hst hkept

end Document

end MarkupLint
