import MarkupLint.Pass.Outline
import MarkupLint.Proofs.Message

/-! # Passes see what is alike

    The standard passes look at the tree, change it and raise messages, but
    what they do does not depend on what the leaves of the tree hold.  On
    documents that are alike, a pass does the same, so the documents are
    alike after it and the messages are the same. -/

namespace MarkupLint

open Discipline

variable {v w : World} {L : License}

namespace Build

/-- A text that depends on the clock has to be the same only if the clocks
    are. -/
theorem pass_textElement (a : Node) {s t : String} (h : Shade.of s = Shade.of t)
    (hsame : v.clock = w.clock → s = t) :
    Contract (passing v w L) Anything (textElement a s) (textElement a t) :=
  .pass fun _ => aside_textElement_shade a h hsame

/-- A message of a level that is allowed is raised on both sides. -/
theorem pass_raise (level : Level) (text : String) (o : Placement)
    (hlevel : L.levels level) :
    Contract (passing v w L) Anything (raise level text o) (raise level text o) :=
  .pass fun _ => aside_raise level text o hlevel

/-- Children are appended to nodes that are alike. -/
theorem pass_append (p : NodeId) (ns : List NodeId) :
    Contract (passing v w L) Anything (append p ns) (append p ns) :=
  pass_edit fun h => h.append p ns

/-- An attribute is set on nodes that are alike. -/
theorem pass_setAttr (i : NodeId) (key value : String) :
    Contract (passing v w L) Anything (setAttr i key value) (setAttr i key value) :=
  pass_edit fun h => h.modify fun hmn _ => hmn.setAttr rfl fun _ => rfl

end Build

namespace Pass

/-! ## References -/

/-- The mark has the text of the reference, which has one shade on both
    sides. -/
theorem pass_markProblematic (i : NodeId) :
    Contract (passing v w L) Anything (markProblematic i) (markProblematic i) := by
  refine Build.contract_node fun a b hab =>
    Build.contract_asText fun s t hst hsame => ?_
  rw [hab.line, hab.source]
  refine .bind (Build.pass_textElement _ hst hsame) fun mark _ => ?_
  exact Build.pass_edit fun h => h.replaceWith i [mark]

/-- Which references there are is a matter of kinds and children. -/
theorem pass_references (i : NodeId) :
    Contract (passing v w L) Anything (references i) (references i) := by
  refine .get ?_
  rintro d _ ⟨forest, halt, hlike, hsooner⟩ _
  rw [hlike.findOutsideDefinitions]
  exact .pure trivial

/-- So is which nodes of a kind there are. -/
theorem pass_nodesOf (k : Kind) (i : NodeId) :
    Contract (passing v w L) Anything (nodesOf k i) (nodesOf k i) := by
  refine .get ?_
  rintro d _ ⟨forest, halt, hlike, hsooner⟩ _
  rw [hlike.findAll]
  exact .pure trivial

/-- The text of a refusal is a name, and names do not depend on the world. -/
theorem pass_refuseReference (ref : NodeId) (text : String) :
    Contract (passing v w L) Anything (refuseReference ref text) (refuseReference ref text) :=
  .bind (Build.pass_raise _ _ _ L.error) fun _ _ => pass_markProblematic ref

/-- Copies of what is alike are alike, and take the same places. -/
theorem pass_copyChildren (i : NodeId) :
    Contract (passing v w L) Anything (copyChildren i) (copyChildren i) := by
  refine Build.contract_node fun a b hab => ?_
  rw [hab.children]
  refine .mono (.mapM (P := Anything) fun c _ => .modifyGet ?_) fun _ _ => trivial
  rintro d _ ⟨forest, halt, hlike, hsooner⟩ _
  obtain ⟨hplace, hcopy⟩ := hlike.deepCopy c
  exact ⟨⟨trivial, d.steady_forest _⟩, trivial, hplace.symm,
    Build.together_of_forest hcopy hsooner⟩

/-- By the depth: the same definitions are found, and the same names are on the
    chain. -/
theorem pass_expand (hdeep : L.stops .exhausted) (depth : Nat) (ref : NodeId)
    (chain : List String) :
    Contract (passing v w L) Anything (expand depth ref chain) (expand depth ref chain) := by
  induction depth generalizing ref chain with
  | zero => exact .throw fun _ => .inl hdeep
  | succ depth ih =>
    refine Build.contract_node fun a b hab => .get ?_
    rintro d _ ⟨forest, halt, hlike, hsooner⟩ _
    rw [hab.refname, hab.line]
    have hsame : Document.substitution?
        { d with forest := forest, reporter := { d.reporter with haltLevel := halt } } a.refname
        = d.substitution? a.refname := rfl
    rw [hsame]
    split
    · exact pass_refuseReference _ _
    · refine .ite (fun _ => pass_refuseReference _ _) fun _ => ?_
      refine .bind (pass_copyChildren _) fun copies _ => ?_
      refine .bind (Build.pass_edit fun h => h.replaceWith ref copies) fun _ _ => ?_
      refine .forM fun c _ => .bind (pass_nodesOf _ c) fun found _ => .forM fun nested _ => ?_
      refine .bind (Build.pass_update nested ?_) fun _ _ => ih _ _
      intro n value attrs
      dsimp only
      split <;> exact ⟨rfl, rfl, rfl, rfl⟩

/-- There is enough depth for either document, for they are of one size. -/
theorem pass_substitute (hdeep : L.stops .exhausted) (target : NodeId) :
    Contract (passing v w L) Anything (substitute target) (substitute target) := by
  refine .get ?_
  rintro d _ ⟨forest, halt, hlike, hsooner⟩ _
  dsimp only
  rw [hlike.findOutsideDefinitions, hlike.size]
  exact .forM fun ref _ => pass_expand hdeep _ ref []

/-- Targets that are alike lead to one address or one name. -/
theorem pass_pair (ref target : NodeId) :
    Contract (passing v w L) Anything (pair ref target) (pair ref target) := by
  refine Build.contract_node fun a b hab => ?_
  rw [hab.refuri, hab.refname]
  refine .bind (Build.pass_update target fun _ _ _ => ⟨rfl, rfl, rfl, rfl⟩) fun _ _ => ?_
  refine Build.pass_edit fun h => h.modify fun {m n} hmn _ => ?_
  dsimp only
  split
  · exact hmn.map (g := fun r => { r with anonymous := false, refuri := a.refuri })
      fun _ _ _ => ⟨rfl, rfl, rfl, rfl⟩
  · split
    · exact hmn.map (g := fun r => { r with anonymous := false, refname := a.refname })
        fun _ _ _ => ⟨rfl, rfl, rfl, rfl⟩
    · exact (hmn.map (g := fun r => { r with anonymous := false })
        fun _ _ _ => ⟨rfl, rfl, rfl, rfl⟩).setAttr rfl fun _ => rfl

/-- The same references and targets are anonymous, so both sides pair them or
    both refuse. -/
theorem pass_pairAnonymous (root : NodeId) :
    Contract (passing v w L) Anything (pairAnonymous root) (pairAnonymous root) := by
  refine .get ?_
  rintro d _ ⟨forest, halt, hlike, hsooner⟩ _
  have hanonymous : ∀ i, (forest.get i).anonymous = (d.forest.get i).anonymous := fun i =>
    (hlike.node i).anonymous
  dsimp only
  simp only [hanonymous]
  refine .bind (pass_references root) fun refs _ => ?_
  refine .bind (pass_nodesOf _ root) fun targets _ => ?_
  refine .ite (fun _ => ?_) fun _ => .forM fun rt _ => pass_pair rt.1 rt.2
  exact .bind (Build.pass_raise _ _ _ L.error) fun _ _ => .forM fun i _ => pass_markProblematic i

/-- The same references name the target that is refused. -/
theorem pass_refuseTarget (root target : NodeId) (why : String) (made : Resolved) :
    Contract (passing v w L) Anything (refuseTarget root target why made)
      (refuseTarget root target why made) := by
  refine Build.contract_node fun a b hab => ?_
  rw [hab.names, hab.refname]
  split
  refine .bind (Build.pass_raise _ _ _ L.error) fun _ _ => ?_
  refine .bind (pass_references root) fun refs _ => ?_
  refine .bind (.forM fun r _ => Build.contract_node fun c e hce => ?_) fun _ _ => ?_
  · rw [hce.refname, hce.refuri]
    exact .ite (fun _ => pass_markProblematic r) fun _ => .pure trivial
  · refine .bind (Build.pass_update target fun _ _ _ => ⟨rfl, rfl, rfl, rfl⟩) fun _ _ => ?_
    exact .pure trivial

/-- Whether a target leads to a name is the same for nodes that are alike. -/
theorem isIndirect_alike {same : Prop} {m n : Node} (h : m.Alike same n) :
    isIndirect n = isIndirect m := by
  simp only [isIndirect, h.kind, h.refname, h.refuri]

/-- The address that is copied is the same on both sides. -/
theorem pass_link (target other : NodeId) :
    Contract (passing v w L) Anything (link target other) (link target other) := by
  refine .bind (Build.pass_update other fun _ _ _ => ⟨rfl, rfl, rfl, rfl⟩) fun _ _ => ?_
  refine Build.contract_node fun a b hab => Build.pass_edit fun h => h.modify fun hmn _ => ?_
  have hsame := congrArg identifier hmn.refname
  have hdim := congrArg (fun s => Node.dim ("refid", s)) hsame.symm
  rw [hab.refuri]
  split
  · exact (hmn.map (g := fun t => { t with refuri := a.refuri })
      fun _ _ _ => ⟨rfl, rfl, rfl, rfl⟩).setAttr hdim fun _ => hsame
  · exact hmn.setAttr hdim fun _ => hsame

/-- By the depth: each target has the same links on both sides. -/
theorem pass_follow (hdeep : L.stops .exhausted) (root : NodeId) (depth : Nat) (target : NodeId)
    (visiting : List NodeId) (made : Resolved) :
    Contract (passing v w L) Anything (follow root depth target visiting made)
      (follow root depth target visiting made) := by
  induction depth generalizing target visiting made with
  | zero => exact .throw fun _ => .inl hdeep
  | succ depth ih =>
    refine .ite (fun _ => .pure trivial) fun _ => .ite (fun _ => ?_) fun _ => ?_
    · exact .bind (pass_refuseTarget _ _ _ _) fun _ _ => .pure trivial
    refine Build.contract_node fun a b hab => .get ?_
    rintro d _ ⟨forest, halt, hlike, hsooner⟩ _
    rw [hab.refname]
    have hsame : Document.lookup
        { d with forest := forest, reporter := { d.reporter with haltLevel := halt } } a.refname
          = d.lookup a.refname := rfl
    rw [hsame]
    split
    · exact .bind (pass_refuseTarget _ _ _ _) fun _ _ => .pure trivial
    · exact .bind (pass_refuseTarget _ _ _ _) fun _ _ => .pure trivial
    · rename_i other _
      refine Build.contract_node fun m m' hm => ?_
      rw [isIndirect_alike hm]
      refine .ite (fun _ => .bind (ih _ _ _) fun _ _ => ?_) fun _ =>
        .bind (P := Anything) (.pure trivial) fun _ _ => ?_
      · exact .bind (pass_link target other) fun _ _ => .pure trivial
      · exact .bind (pass_link target other) fun _ _ => .pure trivial

/-- There is enough depth for either document, for their names are the same. -/
theorem pass_resolveIndirect (hdeep : L.stops .exhausted) (root target : NodeId) :
    Contract (passing v w L) Anything (resolveIndirect root target) (resolveIndirect root target) := by
  refine .bind (pass_nodesOf _ target) fun targets _ => .get ?_
  rintro d _ ⟨forest, halt, hlike, hsooner⟩ _
  refine .bind (.foldlM (P := Anything) (fun made _ t _ => ?_) trivial) fun _ _ => .pure trivial
  refine Build.contract_node fun a b hab => ?_
  rw [isIndirect_alike hab]
  exact .ite (fun _ => pass_follow hdeep _ _ _ _ _) fun _ => .pure trivial

/-! ### What is left over -/

/-- A name stands for the same node on both sides, if for any. -/
theorem pass_checkReference (ref : NodeId) :
    Contract (passing v w L) Anything (checkReference ref) (checkReference ref) := by
  refine Build.contract_node fun a b hab => ?_
  rw [hab.refname, hab.refuri]
  refine .ite (fun _ => .pure trivial) fun _ => .get ?_
  rintro d _ ⟨forest, halt, hlike, hsooner⟩ _
  have hsame : Document.lookup
        { d with forest := forest, reporter := { d.reporter with haltLevel := halt } } a.refname
          = d.lookup a.refname := rfl
  rw [hsame]
  split
  · exact pass_refuseReference _ _
  · exact pass_refuseReference _ _
  · exact Build.pass_update _ fun _ _ _ => ⟨rfl, rfl, rfl, rfl⟩

/-- Whether a target was referred to is the same on both sides. -/
theorem pass_checkTarget (target : NodeId) :
    Contract (passing v w L) Anything (checkTarget target) (checkTarget target) := by
  refine Build.contract_node fun a b hab => ?_
  rw [hab.referenced, hab.anonymous, hab.names, hab.attr? (by decide) (by decide)]
  refine .ite (fun _ => .pure trivial) fun _ => ?_
  exact .bind (Build.pass_raise _ _ _ L.info) fun _ _ => .pure trivial

/-- References come before targets on both sides. -/
theorem pass_reportDangling (target : NodeId) :
    Contract (passing v w L) Anything (reportDangling target) (reportDangling target) := by
  refine .bind (pass_references target) fun refs _ => ?_
  refine .bind (.forM fun ref _ => pass_checkReference ref) fun _ _ => ?_
  exact .bind (pass_nodesOf _ target) fun targets _ => .forM fun t _ => pass_checkTarget t

/-! ## Structure -/

/-- A lone section is told by the kinds of its siblings. -/
theorem loneSection?_alike {same : Prop} {f g : Forest} (h : f.Alike same g) (kids : List NodeId) :
    loneSection? g kids = loneSection? f kids := by
  induction kids with
  | nil => rfl
  | cons i rest ih => simp only [loneSection?, h.kind, ih]

/-- The section that gives up its title is the same in forests that are
    alike. -/
theorem promoted?_alike {same : Prop} {f g : Forest} (h : f.Alike same g) (root : NodeId)
    (position : Nat) :
    promoted? g root position = promoted? f root position := by
  simp only [promoted?, h.children, loneSection?_alike h, h.kind]

/-- What is promoted is a title. -/
theorem kind_of_promoted? {f : Forest} {root lone title : NodeId} {position : Nat}
    {content : List NodeId} (h : promoted? f root position = some (lone, title, content)) :
    (f.get title).kind = .title := by
  simp only [promoted?] at h
  split at h
  · cases h
  · split at h
    · cases h
    · split at h
      · cases h
        assumption
      · cases h

/-- A title that becomes one of the document is no leaf, so what it holds is
    the same. -/
theorem lifted_alike {same : Prop} {f g : Forest} (h : f.Alike same g) {title : NodeId}
    (htitle : (f.get title).kind = .title) (root lone : NodeId) (position : Int) {kind : Kind}
    (hkind : kind ≠ .text) (content : List NodeId) :
    ((((f.detach lone).modify title ({ · with kind := kind })).insert root position
      [title]).append root content).Alike same
    ((((g.detach lone).modify title ({ · with kind := kind })).insert root position
      [title]).append root content) := by
  refine (((h.detach lone).modify fun {m n} hmn hm => ?_).insert _ _ _).append _ _
  have hne : m.kind ≠ .text := by
    rw [hm, f.kind_detach, htitle]
    decide
  cases hmn with
  | intro value attrs shade exact dimmed equal =>
    exact .intro value attrs (fun h => absurd h hkind) (fun _ => exact hne) dimmed equal

/-- The title that the root is given may differ in what a clock shows. -/
theorem pass_nameRoot (root title : NodeId) (names : List String) :
    Contract (passing v w L) Anything (nameRoot root title names) (nameRoot root title names) := by
  refine Build.contract_asText fun s t _ hsame =>
    Build.pass_edit fun h => h.modify fun hmn _ => ?_
  exact (hmn.map (g := fun r => { r with names := r.names ++ names })
    fun _ _ _ => ⟨rfl, rfl, rfl, rfl⟩).setAttr rfl fun hclock => (hsame hclock).symm

/-- What is lifted was no text before, so the new kind does not touch its
    shade. -/
theorem pass_promote (root : NodeId) (position : Nat) {kind : Kind} (hkind : kind ≠ .text) :
    Contract (passing v w L) Anything (promote root position kind) (promote root position kind) := by
  refine .getAt ?_
  rintro d _ ⟨forest, halt, hlike, hsooner⟩ hready
  have halike : d.Alike v w L (d.replant forest halt) := .intro forest halt hlike hsooner
  dsimp only
  rw [promoted?_alike hlike]
  cases hpromoted : promoted? d.forest root position with
  | none => exact Contract.pure trivial d _ halike hready
  | some found =>
    obtain ⟨lone, title, content⟩ := found
    -- That the node is a title is known of the state at hand only.
    have hlifted := lifted_alike hlike (kind_of_promoted? hpromoted) root lone position hkind content
    refine Contract.modifyAt hready ⟨trivial, d.steady_forest _⟩
      (Build.together_of_forest hlifted hsooner) ?_
    rw [(hlike.node lone).names]
    refine .ite (fun _ => ?_) fun _ => .pure trivial
    exact .bind (pass_nameRoot _ _ _) fun _ _ => .pure trivial

/-- Whether the root has a title yet is the same on both sides. -/
theorem pass_promoteTitle (root : NodeId) :
    Contract (passing v w L) Anything (promoteTitle root) (promoteTitle root) := by
  refine Build.contract_node fun a b hab => ?_
  rw [hab.attr?_isNone]
  refine .ite (fun _ => ?_) fun _ => .pure trivial
  refine .bind (pass_promote _ _ (by decide)) fun found _ => .ite (fun _ => ?_) fun _ => .pure trivial
  exact .bind (pass_promote _ _ (by decide)) fun _ _ => .pure trivial

/-- By the steps: positions among siblings are the same in forests that are
    alike. -/
theorem notLast?_alike {same : Prop} {f g : Forest} (h : f.Alike same g) (steps : Nat) (i : NodeId) :
    notLast? g steps i = notLast? f steps i := by
  induction steps generalizing i with
  | zero => rfl
  | succ steps ih => simp only [notLast?, h.parent?, h.children, ih]

/-- The complaint is about kinds, and its place is that of the transition. -/
theorem pass_checkTransition {m n : Node} (hmn : m.Alike (v.clock = w.clock) n)
    (parent : NodeId) (position : Nat) :
    Contract (passing v w L) Anything (checkTransition m parent position)
      (checkTransition n parent position) := by
  refine .get ?_
  rintro d _ ⟨forest, halt, hlike, hsooner⟩ _
  have hproblem : ∀ before, transitionProblem forest before = transitionProblem d.forest before := by
    intro before
    simp only [transitionProblem, hlike.kind]
  dsimp only
  rw [hlike.children, hproblem, hmn.line, hmn.source]
  split
  · exact .pure trivial
  · refine .bind (Build.pass_raise _ _ _ L.error) fun msg _ => ?_
    exact Build.pass_edit fun h => h.insert _ _ _

/-- A transition moves to the same place on both sides. -/
theorem pass_moveTransition (i parent : NodeId) (line : Int) :
    Contract (passing v w L) Anything (moveTransition i parent line)
      (moveTransition i parent line) := by
  refine .get ?_
  rintro d _ ⟨forest, halt, hlike, hsooner⟩ _
  dsimp only
  rw [hlike.children, notLast?_alike hlike, hlike.size]
  refine .ite (fun _ => .pure trivial) fun _ => ?_
  split
  · refine .bind (Build.pass_raise _ _ _ L.error) fun msg _ => Build.pass_edit fun h => ?_
    rw [h.index?]
    exact h.insert _ _ _
  · rw [hlike.parent?]
    split
    · exact .pure trivial
    · refine Build.pass_edit fun h => ?_
      rw [h.index?]
      exact (h.detach i).insert _ _ _

/-- What was reported before it moves stands in the same place, too. -/
theorem pass_placeTransition (i : NodeId) :
    Contract (passing v w L) Anything (placeTransition i) (placeTransition i) := by
  refine .get ?_
  rintro d _ ⟨forest, halt, hlike, hsooner⟩ _
  dsimp only
  rw [(hlike.node i).parent, hlike.index?, (hlike.node i).line]
  split
  · exact .pure trivial
  · exact .bind (pass_checkTransition (hlike.node i) _ _) fun _ _ => pass_moveTransition i _ _

/-- The same transitions are placed, in order. -/
theorem pass_placeTransitions (target : NodeId) :
    Contract (passing v w L) Anything (placeTransitions target) (placeTransitions target) := by
  refine .get ?_
  rintro d _ ⟨forest, halt, hlike, hsooner⟩ _
  dsimp only
  rw [hlike.findAll]
  exact .forM fun i _ => pass_placeTransition i

/-- The levels of the messages are the same on both sides. -/
theorem pass_dropSlight (target : NodeId) :
    Contract (passing v w L) Anything (dropSlight target) (dropSlight target) := by
  refine .get ?_
  rintro d _ ⟨forest, halt, hlike, hsooner⟩ _
  dsimp only
  rw [hlike.findAll]
  refine .forM fun i _ => Build.contract_node fun a b hab => ?_
  rw [hab.level]
  exact .ite (fun _ => Build.pass_edit fun h => h.detach i) fun _ => .pure trivial

/-- The next element is told by kinds and children. -/
theorem following?_alike {same : Prop} {f g : Forest} (h : f.Alike same g) (i : NodeId) :
    following? g i = following? f i := by
  simp only [following?, h.lineage, h.parent?, h.index?, h.children, h.kind]

/-- The same element is given the classes, or both sides complain. -/
theorem pass_addClasses (pending : NodeId) (options : List (String × Data.Value)) :
    Contract (passing v w L) Anything (addClasses pending options) (addClasses pending options) := by
  refine .get ?_
  rintro d _ ⟨forest, halt, hlike, hsooner⟩ _
  dsimp only
  rw [following?_alike hlike]
  split
  · refine Build.contract_node fun a b hab => ?_
    rw [hab.attr? (by decide) (by decide)]
    refine .bind (Build.pass_setAttr _ _ _) fun _ _ => ?_
    exact Build.pass_edit fun h => h.detach pending
  · refine Build.contract_node fun a b hab => ?_
    rw [hab.line, hab.source]
    refine .bind (Build.pass_raise _ _ _ L.error) fun msg _ => ?_
    exact Build.pass_edit fun h => h.replaceWith pending [msg]

/-! ## Outline -/

/-- The option is an integer if it is given. -/
def Counted (options : List (String × Data.Value)) (key : String) : Prop :=
  ∀ v, Data.Value.field? options key = some v →
    (∃ n, v = .int n) ∨ ∃ s, v = .text s ∧ (Text.int? s.toList).isSome

/-- A pass may fail, or it does not for want of an integer. -/
def Lenient (L : License) (options : List (String × Data.Value)) (key : String) : Prop :=
  (∀ reason, L.stops (.failed reason)) ∨ Counted options key

/-- An option that is no integer stops both sides, and it has to be allowed
    to. -/
theorem pass_intOption (options : List (String × Data.Value)) (key : String) (usual : Int)
    (h : Lenient L options key) :
    Contract (passing v w L) Anything (intOption options key usual)
      (intOption options key usual) := by
  simp only [intOption]
  split
  · exact .pure trivial
  · exact .pure trivial
  · rename_i value hvalue hfound
    split
    · exact .pure trivial
    · rename_i hparsed
      rcases h with hfails | hcounted
      · exact .throw fun _ => .inl (hfails _)
      · rcases hcounted value hfound with ⟨k, rfl⟩ | ⟨s, rfl, hint⟩
        · exact absurd rfl (hvalue k)
        · simp [hparsed] at hint

/-- Which children are sections is a matter of kinds and children. -/
theorem pass_sectionsOf (i : NodeId) :
    Contract (passing v w L) Anything (sectionsOf i) (sectionsOf i) := by
  refine .get ?_
  rintro d _ ⟨forest, halt, hlike, hsooner⟩ _
  have hempty : ∀ c, (forest.get c).children = (d.forest.get c).children := hlike.children
  simp only [hlike.children, hlike.kind, hempty]
  exact .pure trivial

/-- A link has the text of a title, of one shade on both sides. -/
theorem pass_contentsLink (i : NodeId) :
    Contract (passing v w L) Anything (contentsLink i) (contentsLink i) := by
  refine Build.contract_node fun a b hab => ?_
  rw [hab.children, hab.names]
  refine Build.contract_asText fun s t hst hsame => ?_
  split
  · exact Build.pass_textElement _ hst hsame
  · refine .bind (Build.pass_update i fun _ _ _ => ⟨rfl, rfl, rfl, rfl⟩) fun _ _ => ?_
    exact Build.pass_textElement _ hst hsame

/-- By the levels: the same sections are listed. -/
theorem pass_contentsList (steps : Nat) (scope : NodeId) (depth : Int) :
    Contract (passing v w L) Anything (contentsList steps scope depth)
      (contentsList steps scope depth) := by
  induction steps generalizing scope depth with
  | zero => exact .pure trivial
  | succ steps ih =>
    refine .ite (fun _ => .pure trivial) fun _ => ?_
    refine .bind (pass_sectionsOf scope) fun found _ => ?_
    refine .bind (.mapM (P := Anything) fun i _ => ?_) fun items _ => ?_
    · refine .bind (pass_contentsLink i) fun link _ => ?_
      refine .bind (Build.pass_element (.refl _) _) fun paragraph _ => ?_
      refine .bind (Build.pass_element (.refl _) _) fun item _ => ?_
      refine .bind (ih i _) fun sub _ => ?_
      cases sub with
      | none => exact .pure trivial
      | some sub => exact .bind (Build.pass_append item [sub]) fun _ _ => .pure trivial
    · refine .ite (fun _ => .pure trivial) fun _ => ?_
      exact .bind (Build.pass_element (.refl _) _) fun _ _ => .pure trivial

/-- The nearest section around a topic is the same in forests that are
    alike. -/
theorem pass_contentsScope (topic : NodeId) (isLocal : Bool) :
    Contract (passing v w L) Anything (contentsScope topic isLocal)
      (contentsScope topic isLocal) := by
  refine .get ?_
  rintro d _ ⟨forest, halt, hlike, hsooner⟩ _
  dsimp only
  rw [hlike.lineage]
  simp only [hlike.kind]
  exact .ite (fun _ => .pure trivial) fun _ => .pure trivial

/-- Both sides have something to list, or neither has. -/
theorem pass_fillContents (pending : NodeId) (options : List (String × Data.Value))
    (hdepth : Lenient L options "depth") :
    Contract (passing v w L) Anything (fillContents pending options)
      (fillContents pending options) := by
  refine Build.contract_node fun a b hab => ?_
  rw [hab.parent]
  split
  · exact .pure trivial
  · rename_i topic _
    refine .bind (pass_contentsScope _ _) fun scope _ => ?_
    refine .bind (pass_intOption _ _ _ hdepth) fun depth _ => .get ?_
    rintro d _ ⟨forest, halt, hlike, hsooner⟩ _
    dsimp only
    rw [hlike.size]
    refine .bind (pass_contentsList _ _ _) fun list _ => ?_
    cases list with
    | none => exact Build.pass_edit fun h => h.detach topic
    | some list => exact Build.pass_edit fun h => h.replaceWith pending [list]

/-- By the levels: the same sections get the same numbers. -/
theorem pass_number (x : Numbering) (steps : Nat) (i : NodeId) (numbers : List String)
    (depth start : Int) :
    Contract (passing v w L) Anything (number x steps i numbers depth start)
      (number x steps i numbers depth start) := by
  induction steps generalizing i numbers depth start with
  | zero => exact .pure trivial
  | succ steps ih =>
    refine .ite (fun _ => .pure trivial) fun _ => ?_
    refine .bind (pass_sectionsOf i) fun found _ => ?_
    refine .bind (.foldlM (P := Anything) (fun k _ c _ => ?_) trivial) fun _ _ => .pure trivial
    refine .bind (Build.pass_textElement _ rfl fun _ => rfl) fun label _ => ?_
    refine Build.contract_node fun a b hab => ?_
    rw [hab.children]
    refine .bind (Build.pass_edit fun h => h.insert _ _ _) fun _ _ => ?_
    exact .bind (ih _ _ _ _) fun _ _ => .pure trivial

/-- The pending node goes first, so that sections are counted without it. -/
theorem pass_numberSections (pending : NodeId) (options : List (String × Data.Value))
    (hdepth : Lenient L options "depth") (hstart : Lenient L options "start") :
    Contract (passing v w L) Anything (numberSections pending options)
      (numberSections pending options) := by
  refine .bind (pass_intOption _ _ _ hdepth) fun depth _ => ?_
  refine .bind (pass_intOption _ _ _ hstart) fun start _ => ?_
  refine .bind (Build.pass_edit fun h => h.detach pending) fun _ _ => .get ?_
  rintro d _ ⟨forest, halt, hlike, hsooner⟩ _
  dsimp only
  rw [hlike.size]
  exact pass_number _ _ _ _ _ _

/-- The options of a pass that have to be integers. -/
def counts : Pass → List String
  | .contents => ["depth"]
  | .sectionNumbers => ["depth", "start"]
  | _ => []

/-- The passes that follow names. -/
def followsNames : Pass → Bool
  | .substitutions | .indirectReferences => true
  | _ => false

/-- **Passes see what is alike**, whichever they are. -/
theorem pass_apply (p : Pass) (target : NodeId) (options : List (String × Data.Value))
    (hdeep : p.followsNames = true → L.stops .exhausted)
    (hcounts : ∀ key ∈ p.counts, Lenient L options key) :
    Contract (passing v w L) Anything (p.apply target options) (p.apply target options) := by
  refine .get ?_
  rintro d _ ⟨forest, halt, hlike, hsooner⟩ _
  cases p with
  | substitutions => exact pass_substitute (hdeep rfl) target
  | documentTitle => exact pass_promoteTitle target
  | anonymousReferences => exact pass_pairAnonymous target
  | indirectReferences => exact pass_resolveIndirect (hdeep rfl) _ target
  | danglingReferences => exact pass_reportDangling target
  | sectionNumbers =>
    exact pass_numberSections target options (hcounts _ (by simp [counts]))
      (hcounts _ (by simp [counts]))
  | contents => exact pass_fillContents target options (hcounts _ (by simp [counts]))
  | transitions => exact pass_placeTransitions target
  | classAttribute => exact pass_addClasses target options
  | filterMessages => exact pass_dropSlight target

end Pass

end MarkupLint
