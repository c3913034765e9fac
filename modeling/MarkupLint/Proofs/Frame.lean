import MarkupLint.Pass.Schedule

/-! # What steps leave alone

    A step `Keeps` a part of its state if that part is the same after it,
    however the step ends.  Steps built from such steps keep the part too,
    so one lemma for each way of building steps and one for each primitive
    step carry the property through every pass: a standard pass changes the
    tree and the reporter of a document and nothing else
    (`keeps_frame_apply`).  In particular it asks for no other pass. -/

namespace MarkupLint

variable {ε σ α β γ δ : Type}

/-- The state after a step, however it ends. -/
def stateAfter (x : EStateM ε σ α) (s : σ) : σ :=
  match x s with
  | .ok _ t => t
  | .error _ t => t

/-- A step that gives a result leaves the state of that result. -/
theorem stateAfter_of_ok {x : EStateM ε σ α} {s t : σ} {a : α} (h : x s = .ok a t) :
    stateAfter x s = t := by
  unfold stateAfter
  rw [h]

/-- A step that fails leaves the state it failed in. -/
theorem stateAfter_of_error {x : EStateM ε σ α} {s t : σ} {e : ε} (h : x s = .error e t) :
    stateAfter x s = t := by
  unfold stateAfter
  rw [h]

/-- Behind a step with a result, the next one goes on from it. -/
theorem bind_of_ok {x : EStateM ε σ α} {s t : σ} {a : α} (h : x s = .ok a t)
    (f : α → EStateM ε σ β) : (x >>= f) s = f a t := by
  show EStateM.bind x f s = _
  rw [EStateM.bind, h]

/-- A run of two steps comes to a result as its second step does. -/
theorem bind_eq_ok {x : EStateM ε σ α} {f : α → EStateM ε σ β} {s t : σ} {a : β} :
    (x >>= f) s = .ok a t ↔ ∃ c u, x s = .ok c u ∧ f c u = .ok a t := by
  show EStateM.bind x f s = _ ↔ _
  rw [EStateM.bind]
  cases x s with
  | ok c u =>
    refine ⟨fun h => ⟨c, u, rfl, h⟩, ?_⟩
    rintro ⟨_, _, heq, h⟩
    cases heq
    exact h
  | error e u => exact ⟨nofun, nofun⟩

/-- A run of two steps fails as one of them does. -/
theorem bind_eq_error {x : EStateM ε σ α} {f : α → EStateM ε σ β} {s t : σ} {e : ε} :
    (x >>= f) s = .error e t ↔
      x s = .error e t ∨ ∃ c u, x s = .ok c u ∧ f c u = .error e t := by
  show EStateM.bind x f s = _ ↔ _
  rw [EStateM.bind]
  cases x s with
  | ok c u =>
    refine ⟨fun h => .inr ⟨c, u, rfl, h⟩, ?_⟩
    rintro (heq | ⟨_, _, heq, h⟩)
    · cases heq
    · cases heq
      exact h
  | error e' u =>
    show EStateM.Result.error e' u = _ ↔ _
    constructor
    · rintro ⟨⟩
      exact .inl rfl
    · rintro (heq | ⟨_, _, heq, -⟩)
      · cases heq
        rfl
      · cases heq

/-- The step leaves a part of the state as it was, however it ends. -/
def Keeps (part : σ → β) (x : EStateM ε σ α) : Prop :=
  ∀ s, part (stateAfter x s) = part s

/-! ## Ways of building steps -/

namespace Keeps

variable {part : σ → β}

theorem pure (a : α) : Keeps part (pure a : EStateM ε σ α) := fun _ => rfl

theorem throw (e : ε) : Keeps part (throw e : EStateM ε σ α) := fun _ => rfl

/-- Reading the state leaves every part of it alone. -/
theorem get : Keeps part (get : EStateM ε σ σ) := fun _ => rfl

/-- A step that is one function of the state keeps what the function keeps. -/
theorem modifyGet (g : σ → α × σ) (h : ∀ s, part (g s).2 = part s) :
    Keeps part (modifyGet g : EStateM ε σ α) := h

/-- Changing the state keeps what the change keeps. -/
theorem modify (g : σ → σ) (h : ∀ s, part (g s) = part s) :
    Keeps part (modify g : EStateM ε σ PUnit) := h

/-- Two steps that keep a part keep it one after the other, also if the first
    one fails. -/
theorem bind {x : EStateM ε σ α} {f : α → EStateM ε σ γ} (hx : Keeps part x)
    (hf : ∀ a, Keeps part (f a)) : Keeps part (x >>= f) := by
  intro s
  have h := hx s
  cases hxs : x s with
  | ok a t =>
      rw [stateAfter_of_ok hxs] at h
      have hbind : stateAfter (x >>= f) s = stateAfter (f a) t := by
        show stateAfter (EStateM.bind x f) s = _
        unfold stateAfter EStateM.bind
        rw [hxs]
      rw [hbind]
      exact (hf a t).trans h
  | error e t =>
      rw [stateAfter_of_error hxs] at h
      have hbind : (x >>= f) s = .error e t := by
        show EStateM.bind x f s = _
        unfold EStateM.bind
        rw [hxs]
      rw [stateAfter_of_error hbind]
      exact h

/-- By the list: a step that keeps a part for each element keeps it for all. -/
theorem forM {f : δ → EStateM ε σ PUnit} (h : ∀ x, Keeps part (f x)) (xs : List δ) :
    Keeps part (xs.forM f) := by
  induction xs with
  | nil => exact pure _
  | cons x xs ih => exact bind (h x) fun _ => ih

/-- By the list, from any value: the steps of a fold that keep a part keep it
    together. -/
theorem foldlM {f : γ → δ → EStateM ε σ γ} (h : ∀ acc x, Keeps part (f acc x)) (xs : List δ)
    (init : γ) : Keeps part (xs.foldlM f init) := by
  induction xs generalizing init with
  | nil => exact pure _
  | cons x xs ih => exact bind (h init x) fun acc => ih acc

/-- Steps that give a result for each element keep what each of them keeps. -/
theorem mapM {f : δ → EStateM ε σ γ} (h : ∀ x, Keeps part (f x)) (xs : List δ) :
    Keeps part (xs.mapM f) := by
  induction xs with
  | nil => exact pure _
  | cons x xs ih =>
      rw [List.mapM_cons]
      exact bind (h x) fun _ => bind ih fun _ => pure _

end Keeps

/-- What is a function of a kept part is kept. -/
theorem Keeps.of_part {part : σ → β} {x : EStateM ε σ α} (h : Keeps part x) (g : β → γ) :
    Keeps (fun s => g (part s)) x := fun s => congrArg g (h s)

/-! ## Steps on the document -/

/-- A document but for its tree and its reporter. -/
def Document.frame (d : Document) : Document :=
  { d with forest := default, reporter := default }

namespace Build

/-- A node is looked at; nothing is written. -/
theorem keeps_node (i : NodeId) : Keeps Document.frame (node i) := fun _ => rfl

theorem keeps_asText (i : NodeId) : Keeps Document.frame (asText i) := fun _ => rfl

/-- The forest is not part of the frame, so every edit of it keeps that. -/
theorem keeps_edit (g : Forest → Forest) : Keeps Document.frame (edit g) := fun _ => rfl

/-- Nor does it matter which node an edit is of. -/
theorem keeps_update (i : NodeId) (g : Node → Node) : Keeps Document.frame (update i g) :=
  keeps_edit _

/-- Children are put into the forest. -/
theorem keeps_append (p : NodeId) (ns : List NodeId) : Keeps Document.frame (append p ns) :=
  keeps_edit _

/-- An attribute of a node is set in the forest. -/
theorem keeps_setAttr (i : NodeId) (key value : String) :
    Keeps Document.frame (setAttr i key value) := keeps_update i _

/-- A node with children is one edit of the forest. -/
theorem keeps_element (n : Node) (children : List NodeId) :
    Keeps Document.frame (element n children) := fun _ => rfl

/-- A text element is two edits, of a leaf and of the node above it. -/
theorem keeps_textElement (n : Node) (text : String) :
    Keeps Document.frame (textElement n text) := by
  unfold textElement
  split
  · exact keeps_element n []
  · exact .bind (keeps_element _ []) fun i => keeps_element n [i]

/-- What a placement needs of the document is looked up. -/
theorem keeps_place (o : Placement) : Keeps Document.frame (place o) := by
  unfold place
  refine .bind .get fun d => ?_
  split
  exact .pure _

/-- A message node is built from what is in the forest and the frame. -/
theorem keeps_messageAt (level : Level) (text : String) (spot : String × Int)
    (quoted : List NodeId) : Keeps Document.frame (messageAt level text spot quoted) := by
  refine .bind (.mapM (fun s => keeps_textElement _ s) _) fun statement => ?_
  exact keeps_element _ _

/-- What is written to the stream is kept by the reporter. -/
theorem keeps_writeMessage (msg : NodeId) : Keeps Document.frame (writeMessage msg) := by
  refine .modify _ fun d => ?_
  split <;> rfl

/-- So are the records that are handed to the collectors. -/
theorem keeps_handOn (msg : NodeId) : Keeps Document.frame (handOn msg) := by
  refine .modify _ fun d => ?_
  split <;> rfl

/-- A message that halts the parse fails where it stands. -/
theorem keeps_haltOn (msg : NodeId) : Keeps Document.frame (haltOn msg) := by
  unfold haltOn
  refine .bind .get fun d => ?_
  dsimp only
  split
  · exact .throw _
  · exact .pure _

/-- Raising a message is building it, writing it, handing it on and halting on
    it, so none of it shows in the frame. -/
theorem keeps_raiseAt (level : Level) (text : String) (spot : String × Int)
    (quoted : List NodeId) : Keeps Document.frame (raiseAt level text spot quoted) := by
  refine .bind (keeps_messageAt level text spot quoted) fun msg => ?_
  refine .bind (keeps_writeMessage msg) fun _ => ?_
  refine .bind (keeps_haltOn msg) fun _ => ?_
  exact .bind (keeps_handOn msg) fun _ => .pure msg

/-- A message whose place is worked out first is raised like any other. -/
theorem keeps_raise (level : Level) (text : String) (o : Placement) :
    Keeps Document.frame (raise level text o) := by
  refine .bind (keeps_place o) fun spot => ?_
  refine .bind (.mapM (fun s => keeps_textElement _ s) _) fun quote => ?_
  exact keeps_raiseAt level text spot quote

end Build

/-! ## Passes on references -/

namespace Pass

/-- A reference that is refused is exchanged for a problematic node in the
    forest, and its messages are raised. -/
theorem keeps_markProblematic (i : NodeId) : Keeps Document.frame (markProblematic i) := by
  unfold markProblematic
  refine .bind (Build.keeps_node i) fun n => ?_
  refine .bind (Build.keeps_asText i) fun text => ?_
  refine .bind (Build.keeps_textElement _ text) fun mark => ?_
  exact Build.keeps_edit _

/-- The references of a document are looked for. -/
theorem keeps_references (i : NodeId) : Keeps Document.frame (references i) := fun _ => rfl

/-- Nodes of a kind are looked for. -/
theorem keeps_nodesOf (k : Kind) (i : NodeId) : Keeps Document.frame (nodesOf k i) :=
  fun _ => rfl

/-- A refusal is an error and a mark. -/
theorem keeps_refuseReference (ref : NodeId) (text : String) :
    Keeps Document.frame (refuseReference ref text) := by
  unfold refuseReference
  exact .bind (Build.keeps_raise _ text _) fun _ => keeps_markProblematic ref

/-- Copies of children are new nodes of the forest. -/
theorem keeps_copyChildren (i : NodeId) : Keeps Document.frame (copyChildren i) := by
  unfold copyChildren
  refine .bind (Build.keeps_node i) fun n => ?_
  exact .mapM (fun c => .modifyGet _ fun _ => rfl) _

/-- By the depth: an expansion that is refused is marked, and one that is not
    goes on in the copies. -/
theorem keeps_expand : ∀ (depth : Nat) (ref : NodeId) (chain : List String),
    Keeps Document.frame (expand depth ref chain) := by
  intro depth
  induction depth with
  | zero => intro ref chain; exact .throw _
  | succ depth ih =>
      intro ref chain
      unfold expand
      refine .bind (Build.keeps_node ref) fun n => ?_
      refine .bind .get fun d => ?_
      split
      · exact keeps_refuseReference ref _
      · split
        · exact keeps_refuseReference ref _
        · refine .bind (keeps_copyChildren _) fun copies => ?_
          refine .bind (Build.keeps_edit _) fun _ => ?_
          refine .forM (fun c => ?_) copies
          refine .bind (keeps_nodesOf _ c) fun nested => ?_
          exact .forM (fun i => .bind (Build.keeps_update i _) fun _ => ih i _) nested

/-- The substitution references of a document are expanded one after the
    other. -/
theorem keeps_substitute (target : NodeId) : Keeps Document.frame (substitute target) := by
  unfold substitute
  refine .bind .get fun d => ?_
  exact .forM (fun ref => keeps_expand _ ref []) _

/-- A reference and its target are two nodes of the forest. -/
theorem keeps_pair (ref target : NodeId) : Keeps Document.frame (pair ref target) := by
  unfold pair
  refine .bind (Build.keeps_node target) fun t => ?_
  exact .bind (Build.keeps_update target _) fun _ => Build.keeps_update ref _

/-- Either the references are paired or all of them are refused. -/
theorem keeps_pairAnonymous (root : NodeId) : Keeps Document.frame (pairAnonymous root) := by
  unfold pairAnonymous
  refine .bind .get fun d => ?_
  refine .bind (keeps_references root) fun refs => ?_
  refine .bind (keeps_nodesOf _ root) fun targets => ?_
  dsimp only
  split
  · exact .bind (Build.keeps_raise _ _ _) fun _ => .forM keeps_markProblematic _
  · exact .forM (fun (r, t) => keeps_pair r t) _

/-- A target that leads nowhere takes the references to it along. -/
theorem keeps_refuseTarget (root target : NodeId) (why : String) (made : Resolved) :
    Keeps Document.frame (refuseTarget root target why made) := by
  unfold refuseTarget
  refine .bind (Build.keeps_node target) fun t => ?_
  split
  refine .bind (Build.keeps_raise _ _ _) fun _ => ?_
  refine .bind (keeps_references root) fun refs => ?_
  refine .bind (.forM (fun r => ?_) refs) fun _ => ?_
  · refine .bind (Build.keeps_node r) fun n => ?_
    split
    · exact keeps_markProblematic r
    · exact .pure _
  · exact .bind (Build.keeps_update target _) fun _ => .pure _

/-- A link marks the one target and edits the other. -/
theorem keeps_link (target other : NodeId) : Keeps Document.frame (link target other) := by
  unfold link
  refine .bind (Build.keeps_update other _) fun _ => ?_
  exact .bind (Build.keeps_node other) fun o => Build.keeps_update target _

/-- By the depth: a target is refused, or linked once the one it names was
    followed. -/
theorem keeps_follow (root : NodeId) :
    ∀ (depth : Nat) (target : NodeId) (visiting : List NodeId) (made : Resolved),
      Keeps Document.frame (follow root depth target visiting made) := by
  intro depth
  induction depth with
  | zero => intro target visiting made; exact .throw _
  | succ depth ih =>
      intro target visiting made
      have hrefuse : ∀ (why : String) (g : Resolved → Resolved), Keeps Document.frame
          (refuseTarget root target why made >>= fun r => pure (g r) : Build Resolved) :=
        fun why g => .bind (keeps_refuseTarget root target why made) fun _ => .pure _
      unfold follow
      dsimp only
      split
      · exact .pure _
      · split
        · exact hrefuse _ _
        · refine .bind (Build.keeps_node target) fun t => ?_
          refine .bind .get fun d => ?_
          split
          · exact hrefuse _ _
          · exact hrefuse _ _
          · rename_i other _
            -- the target it leads to is followed first if it leads on itself
            have hrest : ∀ made : Resolved, Keeps Document.frame (do
                link target other
                return { made with targets := target :: made.targets } : Build Resolved) :=
              fun made => .bind (keeps_link target other) fun _ => .pure _
            refine .bind (Build.keeps_node other) fun o => ?_
            split
            · exact .bind (ih other _ made) hrest
            · exact .bind (.pure made) hrest

/-- Indirect targets are followed one after the other. -/
theorem keeps_resolveIndirect (root target : NodeId) :
    Keeps Document.frame (resolveIndirect root target) := by
  unfold resolveIndirect
  refine .bind (keeps_nodesOf _ target) fun targets => ?_
  refine .bind .get fun d => ?_
  refine .bind (.foldlM (fun made t => ?_) targets _) fun _ => .pure _
  refine .bind (Build.keeps_node t) fun n => ?_
  split
  · exact keeps_follow root _ t [] made
  · exact .pure made

/-- A reference marks the node it stands for, or is refused. -/
theorem keeps_checkReference (ref : NodeId) : Keeps Document.frame (checkReference ref) := by
  unfold checkReference
  refine .bind (Build.keeps_node ref) fun r => ?_
  split
  · exact .pure _
  · refine .bind .get fun d => ?_
    split
    · exact keeps_refuseReference ref _
    · exact keeps_refuseReference ref _
    · exact Build.keeps_update _ _

/-- A target that nothing refers to is reported. -/
theorem keeps_checkTarget (target : NodeId) : Keeps Document.frame (checkTarget target) := by
  unfold checkTarget
  refine .bind (Build.keeps_node target) fun t => ?_
  split
  · exact .pure _
  · exact .bind (Build.keeps_raise _ _ _) fun _ => .pure _

/-- References are checked before targets, all of them in the frame as it
    was. -/
theorem keeps_reportDangling (target : NodeId) : Keeps Document.frame (reportDangling target) := by
  unfold reportDangling
  refine .bind (keeps_references target) fun refs => ?_
  refine .bind (.forM keeps_checkReference refs) fun _ => ?_
  exact .bind (keeps_nodesOf _ target) fun targets => .forM keeps_checkTarget targets

/-! ## Passes on the structure -/

/-- The names of a title go to the root. -/
theorem keeps_nameRoot (root title : NodeId) (names : List String) :
    Keeps Document.frame (nameRoot root title names) :=
  .bind (Build.keeps_asText _) fun _ => Build.keeps_update root _

/-- A section that is promoted gives up its title and children within the
    forest. -/
theorem keeps_promote (root : NodeId) (position : Nat) (kind : Kind) :
    Keeps Document.frame (promote root position kind) := by
  unfold promote
  refine .bind .get fun d => ?_
  dsimp only
  split
  · exact .pure _
  · refine .bind (Build.keeps_edit _) fun _ => ?_
    split
    · exact .bind (keeps_nameRoot root _ _) fun _ => .pure _
    · exact .pure _

/-- A title is promoted once, and then perhaps a subtitle. -/
theorem keeps_promoteTitle (root : NodeId) : Keeps Document.frame (promoteTitle root) := by
  unfold promoteTitle
  refine .bind (Build.keeps_node root) fun n => ?_
  split
  · refine .bind (keeps_promote root 0 .title) fun promoted => ?_
    split
    · exact .bind (keeps_promote root 1 .subtitle) fun _ => .pure _
    · exact .pure _
  · exact .pure _

/-- A transition in a wrong place is an error. -/
theorem keeps_checkTransition (n : Node) (parent : NodeId) (position : Nat) :
    Keeps Document.frame (checkTransition n parent position) := by
  unfold checkTransition
  refine .bind .get fun d => ?_
  dsimp only
  split
  · exact .pure _
  · exact .bind (Build.keeps_raise _ _ _) fun _ => Build.keeps_edit _

/-- A transition goes behind the sections that it ends, or is reported. -/
theorem keeps_moveTransition (i parent : NodeId) (line : Int) :
    Keeps Document.frame (moveTransition i parent line) := by
  unfold moveTransition
  refine .bind .get fun d => ?_
  dsimp only
  split
  · exact .pure _
  · split
    · exact .bind (Build.keeps_raise _ _ _) fun _ => Build.keeps_edit _
    · split
      · exact .pure _
      · exact Build.keeps_edit _

/-- It is checked where it stands and moved from there. -/
theorem keeps_placeTransition (i : NodeId) : Keeps Document.frame (placeTransition i) := by
  unfold placeTransition
  refine .bind .get fun d => ?_
  dsimp only
  split
  · exact .pure _
  · exact .bind (keeps_checkTransition _ _ _) fun _ => keeps_moveTransition i _ _

/-- So are all transitions of a document. -/
theorem keeps_placeTransitions (target : NodeId) :
    Keeps Document.frame (placeTransitions target) := by
  unfold placeTransitions
  exact .bind .get fun d => .forM keeps_placeTransition _

/-- Messages below a level are taken out of the tree. -/
theorem keeps_dropSlight (target : NodeId) : Keeps Document.frame (dropSlight target) := by
  unfold dropSlight
  refine .bind .get fun d => ?_
  refine .forM (fun i => ?_) _
  refine .bind (Build.keeps_node i) fun n => ?_
  split
  · exact Build.keeps_edit _
  · exact .pure _

/-- The classes go to the next element, or an error takes the place of the
    pending node. -/
theorem keeps_addClasses (pending : NodeId) (options : List (String × Data.Value)) :
    Keeps Document.frame (addClasses pending options) := by
  unfold addClasses
  refine .bind .get fun d => ?_
  split
  · refine .bind (Build.keeps_node _) fun n => ?_
    exact .bind (Build.keeps_setAttr _ _ _) fun _ => Build.keeps_edit _
  · refine .bind (Build.keeps_node pending) fun n => ?_
    exact .bind (Build.keeps_raise _ _ _) fun _ => Build.keeps_edit _

/-! ## Passes on the outline -/

/-- An option is read; one that is no integer stops the pass. -/
theorem keeps_intOption (options : List (String × Data.Value)) (key : String) (usual : Int) :
    Keeps Document.frame (intOption options key usual) := by
  unfold intOption
  split
  · exact .pure _
  · exact .pure _
  · dsimp only
    split
    · exact .pure _
    · exact .throw _

/-- Sections are looked for. -/
theorem keeps_sectionsOf (i : NodeId) : Keeps Document.frame (sectionsOf i) := fun _ => rfl

/-- A link is a reference with the text of a title. -/
theorem keeps_contentsLink (i : NodeId) : Keeps Document.frame (contentsLink i) := by
  unfold contentsLink
  refine .bind (Build.keeps_node i) fun n => ?_
  refine .bind (Build.keeps_asText _) fun text => ?_
  dsimp only
  split
  · exact Build.keeps_textElement _ text
  · exact .bind (Build.keeps_update i _) fun _ => Build.keeps_textElement _ text

/-- By the number of levels: the entries of a section stand below its own. -/
theorem keeps_contentsList : ∀ (steps : Nat) (scope : NodeId) (depth : Int),
    Keeps Document.frame (contentsList steps scope depth) := by
  intro steps
  induction steps with
  | zero => intro scope depth; exact .pure _
  | succ steps ih =>
      intro scope depth
      unfold contentsList
      split
      · exact .pure _
      · refine .bind (keeps_sectionsOf scope) fun sections => ?_
        refine .bind (.mapM (fun i => ?_) sections) fun items => ?_
        · refine .bind (keeps_contentsLink i) fun link => ?_
          refine .bind (Build.keeps_element _ _) fun paragraph => ?_
          refine .bind (Build.keeps_element _ _) fun item => ?_
          refine .bind (ih i (depth - 1)) fun sub => ?_
          dsimp only
          split
          · exact .bind (Build.keeps_append item _) fun _ => .pure _
          · exact .pure _
        · split
          · exact .pure _
          · exact .bind (Build.keeps_element _ items) fun _ => .pure _

/-- Where the listed sections stand is looked up. -/
theorem keeps_contentsScope (topic : NodeId) (isLocal : Bool) :
    Keeps Document.frame (contentsScope topic isLocal) := by
  unfold contentsScope
  refine .bind .get fun d => ?_
  split
  · exact .pure _
  · exact .pure _

/-- A list takes the place of the pending node, or the topic goes. -/
theorem keeps_fillContents (pending : NodeId) (options : List (String × Data.Value)) :
    Keeps Document.frame (fillContents pending options) := by
  unfold fillContents
  refine .bind (Build.keeps_node pending) fun n => ?_
  split
  · exact .pure _
  · refine .bind (keeps_contentsScope _ _) fun scope => ?_
    refine .bind (keeps_intOption options _ _) fun depth => ?_
    refine .bind .get fun d => ?_
    refine .bind (keeps_contentsList _ scope depth) fun list => ?_
    split
    · exact Build.keeps_edit _
    · exact Build.keeps_edit _

/-- By the number of levels: a section is numbered before those in it. -/
theorem keeps_number (x : Numbering) :
    ∀ (steps : Nat) (i : NodeId) (numbers : List String) (depth start : Int),
      Keeps Document.frame (number x steps i numbers depth start) := by
  intro steps
  induction steps with
  | zero => intro i numbers depth start; exact .pure _
  | succ steps ih =>
      intro i numbers depth start
      unfold number
      split
      · exact .pure _
      · refine .bind (keeps_sectionsOf i) fun sections => ?_
        refine .bind (.foldlM (fun n c => ?_) sections start) fun _ => .pure _
        refine .bind (Build.keeps_textElement _ _) fun label => ?_
        refine .bind (Build.keeps_node c) fun node => ?_
        refine .bind (Build.keeps_edit _) fun _ => ?_
        exact .bind (ih c _ _ 1) fun _ => .pure _

/-- Numbering changes the titles and takes the pending node out. -/
theorem keeps_numberSections (pending : NodeId) (options : List (String × Data.Value)) :
    Keeps Document.frame (numberSections pending options) := by
  unfold numberSections
  refine .bind (keeps_intOption options _ _) fun depth => ?_
  refine .bind (keeps_intOption options _ _) fun start => ?_
  refine .bind (Build.keeps_edit _) fun _ => ?_
  exact .bind .get fun d => keeps_number _ _ _ _ _ _

/-- A standard pass changes the tree and the reporter and nothing else. -/
theorem keeps_frame_apply (pass : Pass) (target : NodeId) (options : List (String × Data.Value)) :
    Keeps Document.frame (pass.apply target options) := by
  unfold apply
  refine .bind .get fun d => ?_
  cases pass with
  | substitutions => exact keeps_substitute target
  | documentTitle => exact keeps_promoteTitle target
  | anonymousReferences => exact keeps_pairAnonymous target
  | indirectReferences => exact keeps_resolveIndirect d.root target
  | danglingReferences => exact keeps_reportDangling target
  | sectionNumbers => exact keeps_numberSections target options
  | contents => exact keeps_fillContents target options
  | transitions => exact keeps_placeTransitions target
  | classAttribute => exact keeps_addClasses target options
  | filterMessages => exact keeps_dropSlight target

end Pass

end MarkupLint
