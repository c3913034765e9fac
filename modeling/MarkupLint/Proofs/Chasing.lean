import Mathlib.Data.List.Perm.Subperm
import MarkupLint.Proofs.Passes

/-! # Names are followed to an end

    Two passes follow names: one puts definitions in the place of
    references, and so on for the references in them, the other goes from
    target to target.  Both keep the way they came and refuse to go in a
    circle.  On the way are different names of nodes, or different nodes that
    names stand for, and of these there are no more than before: no step of
    the passes brings in another.  So the ways are short, and neither pass
    ends for want of depth. -/

namespace MarkupLint

namespace Discipline

/-- Steps on a document that keep what is known of it, and do not end for
    want of depth. -/
def keeping (I : Document → Prop) : Discipline Document where
  alike := Eq
  ready := I
  grown d e := I d → I e
  spoiled _ := False
  stops _ e := e ≠ .exhausted
  keeps _ _ _ _ := True
  parted _ _ _ _ _ := False
  alike_refl _ := rfl
  refl _ := id
  trans hde hef := hef ∘ hde
  ready_grown hd hde := hde hd
  spoiled_grown := False.elim
  keeps_refl _ _ := trivial
  keeps_trans _ _ := trivial
  parted_keeps _ h := h
  parted_grown h _ := h

end Discipline

open Discipline

variable {I : Document → Prop} {α : Type}

/-- A step that keeps what is known, and goes deep enough. -/
abbrev Follows (I : Document → Prop) (x : Build α) : Prop := Contract (keeping I) Anything x x

namespace Follows

/-- What is known of the frame of a document is kept by a step that keeps
    the frame. -/
theorem of_keeps {x : Build α} {P : α → Prop} (g : Document → Prop)
    (hdeep : ∀ v o, Contract (passing v v (.deepEnough o)) P x x)
    (hkeeps : Keeps Document.frame x) : Follows (fun d => g d.frame) x := by
  rintro d _ ⟨rfl⟩ hd
  obtain ⟨-, hends, -⟩ := hdeep ⟨{}, 0⟩ d.origin d d (.refl d) trivial
  have hagree : Agree (Together (keeping fun d => g d.frame) d d) (x d) (x d) := by
    cases x d <;> exact ⟨rfl, rfl, trivial⟩
  refine ⟨fun _ => ?_, ?_, .agree hagree⟩
  · show g (stateAfter x d).frame
    rwa [hkeeps d]
  · cases hx : x d with
    | ok a e => trivial
    | error stop e =>
      rw [hx] at hends
      exact License.deepEnough_ne hends

/-- A change of the tree that keeps what is known. -/
theorem edit {a : Forest → Forest} (h : ∀ d, I d → I { d with forest := a d.forest }) :
    Follows I (Build.edit a) := by
  refine .modify ?_
  rintro d _ ⟨rfl⟩ -
  exact ⟨h d, rfl, trivial⟩

/-- A node may be looked at. -/
theorem node {i : NodeId} {f : Node → Build α}
    (h : ∀ d, I d → Follows I (f (d.node i))) : Follows I (Build.node i >>= f) := by
  refine .get (f := fun d => f (d.node i)) (g := fun d => f (d.node i)) ?_
  rintro d _ ⟨rfl⟩ hd
  exact h d hd

/-- So may the document. -/
theorem get {f : Document → Build α} (h : ∀ d, I d → Follows I (f d)) :
    Follows I (MonadState.get >>= f) := by
  refine Contract.get ?_
  rintro d _ ⟨rfl⟩ hd
  exact h d hd

end Follows

/-! ## Targets -/

/-- The nodes that names stand for. -/
def Document.named (d : Document) : List NodeId := d.names.filterMap (·.2.node)

/-- A name that is known is the name of one of the named nodes. -/
theorem Document.mem_named {d : Document} {name : String} {i : NodeId}
    (h : d.lookup name = some (some i)) : i ∈ d.named := by
  obtain ⟨entry, hentry, hnode⟩ := Option.map_eq_some_iff.mp h
  exact List.mem_filterMap.mpr ⟨_, Data.Table.mem_of_get? hentry, hnode⟩

namespace Pass

variable {targets : List NodeId}

/-- A step that keeps the frame keeps the nodes that names stand for. -/
theorem follows_named {x : Build α} {P : α → Prop}
    (hdeep : ∀ v o, Contract (passing v v (.deepEnough o)) P x x)
    (hkeeps : Keeps Document.frame x) : Follows (·.named = targets) x :=
  .of_keeps (·.named = targets) hdeep hkeeps

/-- Refusing a target names nothing anew. -/
theorem follows_refuseTarget (root target : NodeId) (why : String) (made : Resolved) :
    Follows (·.named = targets) (refuseTarget root target why made) :=
  follows_named (fun _ _ => pass_refuseTarget root target why made)
    (keeps_refuseTarget root target why made)

/-- Nor does linking it. -/
theorem follows_link (target other : NodeId) : Follows (·.named = targets) (link target other) :=
  follows_named (fun _ _ => pass_link target other) (keeps_link target other)

/-- By induction on the depth: after their first, the targets on the way are
    different nodes that names stand for, so the way has an end. -/
theorem follows_follow (root : NodeId) (depth : Nat) (target : NodeId) (visiting : List NodeId)
    (made : Resolved) (hnodup : visiting.Nodup)
    (hnamed : (visiting ++ [target]).tail ⊆ targets)
    (hdepth : targets.length + 2 ≤ visiting.length + depth) :
    Follows (·.named = targets) (follow root depth target visiting made) := by
  induction depth generalizing target visiting made with
  | zero =>
    have hway : visiting.tail ⊆ targets := by
      cases visiting with
      | nil => simp
      | cons first rest => exact fun i hi => hnamed (List.mem_append_left _ hi)
    have := ((hnodup.sublist (List.tail_sublist _)).subperm hway).length_le
    rw [List.length_tail] at this
    omega
  | succ depth ih =>
    refine .ite (fun _ => .pure trivial) fun _ => .ite (fun _ => ?_) fun hnew => ?_
    · exact .bind (follows_refuseTarget _ _ _ _) fun _ _ => .pure trivial
    refine Follows.node fun d hd => Follows.get fun d hd => ?_
    split
    · exact .bind (follows_refuseTarget _ _ _ _) fun _ _ => .pure trivial
    · exact .bind (follows_refuseTarget _ _ _ _) fun _ _ => .pure trivial
    · rename_i other hother
      have hmem : other ∈ targets := hd ▸ Document.mem_named hother
      have hway : (visiting ++ [target]).Nodup := by
        refine List.nodup_append.mpr ⟨hnodup, List.nodup_singleton _, ?_⟩
        intro i hi j hj heq
        rw [List.mem_singleton.mp hj] at heq
        exact hnew (by simpa [heq] using hi)
      have hfollow : ∀ made,
          Follows (·.named = targets) (follow root depth other (visiting ++ [target]) made) := by
        intro made
        refine ih other _ made hway ?_ ?_
        · rw [List.tail_append_of_ne_nil (by simp)]
          exact List.append_subset.mpr ⟨hnamed, by simpa using hmem⟩
        · rw [List.length_append, List.length_singleton]
          omega
      refine Follows.node fun d' hd' => .ite (fun _ => .bind (hfollow made) fun made' _ => ?_)
        fun _ => .bind (P := Anything) (.pure trivial) fun _ _ => ?_
      · exact .bind (follows_link _ _) fun _ _ => .pure trivial
      · exact .bind (follows_link _ _) fun _ _ => .pure trivial

/-- Following every target that leads to another one comes to an end. -/
theorem resolveIndirect_ne_exhausted (root target : NodeId) (d e : Document) :
    resolveIndirect root target d ≠ .error .exhausted e := by
  have hfollows : Follows (·.named = d.named) (resolveIndirect root target) := by
    refine .bind (follows_named (fun _ _ => pass_nodesOf _ _) (keeps_nodesOf _ _)) fun found _ => ?_
    refine Follows.get fun d' hd' => ?_
    refine .bind (.foldlM (P := Anything) (fun made _ t _ => ?_) trivial) fun _ _ => .pure trivial
    refine Follows.node fun d'' hd'' => .ite (fun _ => ?_) fun _ => .pure trivial
    refine follows_follow root _ t [] made List.nodup_nil (by simp) ?_
    rw [← hd', List.length_nil, Nat.zero_add]
    exact Nat.add_le_add_right (List.length_filterMap_le _ _) 2
  obtain ⟨-, hends, -⟩ := hfollows d d rfl rfl
  intro hexhausted
  rw [hexhausted] at hends
  exact hends rfl

end Pass

/-! ## Substitutions -/

variable {names : List String}

namespace Forest

/-- The names that nodes refer to are among some names. -/
def RefersTo (f : Forest) (names : List String) : Prop := ∀ i, (f.get i).refname ∈ names

namespace RefersTo

variable {f : Forest}

/-- A new node may refer to what others do. -/
theorem alloc (h : f.RefersTo names) {n : Node} (hn : n.refname ∈ names) :
    (f.alloc n).2.RefersTo names := by
  intro i
  rw [get_alloc]
  split
  · exact hn
  · exact h i

/-- Changing anything but the name that a node refers to. -/
theorem modify (h : f.RefersTo names) {i : NodeId} {g : Node → Node}
    (hg : ∀ n, (g n).refname = n.refname) : (f.modify i g).RefersTo names := by
  intro j
  rw [view_modify f i j hg]
  exact h j

/-- Moving nodes changes nothing in what they refer to. -/
theorem detach (h : f.RefersTo names) (i : NodeId) : (f.detach i).RefersTo names := by
  unfold Forest.detach
  split
  · exact h
  · refine modify ?_ fun _ => rfl
    exact h.modify fun _ => rfl

theorem adopt (h : f.RefersTo names) (p i : NodeId) : (f.adopt p i).RefersTo names :=
  (h.detach i).modify fun _ => rfl

/-- So does putting them behind others. -/
theorem append (h : f.RefersTo names) (p : NodeId) (ns : List NodeId) :
    (f.append p ns).RefersTo names := by
  unfold Forest.append
  induction ns generalizing f with
  | nil => exact h
  | cons i ns ih => exact ih ((h.adopt p i).modify fun _ => rfl)

/-- Or before them. -/
theorem insert (h : f.RefersTo names) (p : NodeId) (position : Int) (ns : List NodeId) :
    (f.insert p position ns).RefersTo names := by
  have hadopt : (ns.foldl (fun f i => f.adopt p i) f).RefersTo names := by
    induction ns generalizing f with
    | nil => exact h
    | cons i ns ih => exact ih (h.adopt p i)
  exact hadopt.modify fun _ => rfl

/-- Or in the place of one. -/
theorem replaceWith (h : f.RefersTo names) (i : NodeId) (ns : List NodeId) :
    (f.replaceWith i ns).RefersTo names := by
  unfold Forest.replaceWith
  split
  · exact h
  · exact (h.detach i).insert _ _ _

/-- A copy refers to what the original does. -/
theorem copyWithin (depth : Nat) (h : f.RefersTo names) (i : NodeId) :
    (Forest.copyWithin depth f i).2.RefersTo names := by
  induction depth generalizing f i with
  | zero => exact h.alloc (h i)
  | succ depth ih =>
    rw [copyWithin_succ]
    refine modify ?_ fun _ => rfl
    refine List.foldlRecOn (motive := fun acc : List NodeId × Forest => acc.2.RefersTo names) _ _
      (h.alloc (h i)) fun acc hacc c _ => ?_
    exact (ih hacc c).modify fun _ => rfl

end RefersTo

end Forest

/-- The names that nodes of a document refer to are among some names. -/
def Document.RefersTo (names : List String) (d : Document) : Prop := d.forest.RefersTo names

namespace Build

variable (hempty : "" ∈ names)

include hempty

/-- A node that refers to nothing may be made. -/
theorem follows_element (n : Node) (children : List NodeId) (hn : n.refname = "") :
    Follows (Document.RefersTo names) (element n children) := by
  refine .modifyGet ?_
  rintro d _ ⟨rfl⟩ -
  refine ⟨fun hd => ?_, trivial, rfl, rfl, trivial⟩
  exact Forest.RefersTo.append (Forest.RefersTo.alloc hd (hn ▸ hempty)) _ _

/-- With a text as well. -/
theorem follows_textElement (n : Node) (text : String) (hn : n.refname = "") :
    Follows (Document.RefersTo names) (textElement n text) :=
  .ite (fun _ => follows_element hempty n [] hn) fun _ =>
    .bind (follows_element hempty _ [] rfl) fun i _ => follows_element hempty n [i] hn

/-- A message refers to nothing. -/
theorem follows_raise (level : Level) (text : String) (o : Placement) :
    Follows (Document.RefersTo names) (raise level text o) := by
  have htexts : ∀ (n : Node), n.refname = "" → ∀ texts : List String,
      Follows (Document.RefersTo names) (texts.mapM (textElement n)) := fun n hn texts =>
    .mono (.mapM fun s _ => follows_textElement hempty n s hn) fun _ _ => trivial
  have hreport : ∀ g : Document → Document, (∀ d, (g d).forest = d.forest) →
      Follows (Document.RefersTo names) (modify g) := by
    intro g hg
    refine .modify ?_
    rintro d _ ⟨rfl⟩ -
    refine ⟨fun hd => ?_, rfl, trivial⟩
    rw [Document.RefersTo, hg]
    exact hd
  have hmessage : Follows (Document.RefersTo names) (message level text o) := by
    refine .bind (P := Anything) ?_ fun at_ _ => ?_
    · exact Follows.get fun d _ => .pure trivial
    · refine .bind (htexts _ rfl _) fun quote _ => .bind (htexts _ rfl _) fun statement _ => ?_
      exact follows_element hempty _ _ rfl
  rw [raise_eq_message]
  refine .bind hmessage fun msg _ => ?_
  refine .bind (hreport _ fun d => by split <;> rfl) fun _ _ => ?_
  refine .bind (P := Anything) ?_ fun _ _ => ?_
  · refine Follows.get fun d _ => .ite (fun _ => .throw fun _ => by simp [keeping]) fun _ =>
      .pure trivial
  · exact .bind (hreport _ fun d => by split <;> rfl) fun _ _ => .pure trivial

end Build

namespace Pass

/-- A reference that is refused gives way to a node that refers to nothing. -/
theorem follows_refuseReference (hempty : "" ∈ names) (ref : NodeId) (text : String) :
    Follows (Document.RefersTo names) (refuseReference ref text) := by
  refine .bind (Build.follows_raise hempty _ _ _) fun _ _ => Follows.node fun d _ => ?_
  refine .bind (P := Anything) (Follows.get fun d _ => .pure trivial) fun shown _ => ?_
  refine .bind (Build.follows_textElement hempty _ _ rfl) fun mark _ => ?_
  exact Follows.edit fun d hd => Forest.RefersTo.replaceWith hd _ _

/-- Copies of a definition's children refer to what these do. -/
theorem follows_copyChildren (i : NodeId) :
    Follows (Document.RefersTo names) (copyChildren i) := by
  refine Follows.node fun d _ => .mono (.mapM (P := Anything) fun c _ => .modifyGet ?_)
    fun _ _ => trivial
  rintro d _ ⟨rfl⟩ -
  exact ⟨fun hd => Forest.RefersTo.copyWithin _ hd c, trivial, rfl, rfl, trivial⟩

/-- By induction on the depth: on the way are different names that nodes
    refer to, so the way has an end. -/
theorem follows_expand (hempty : "" ∈ names) (depth : Nat) (ref : NodeId) (chain : List String)
    (hnodup : chain.Nodup) (hchain : chain ⊆ names) (hdepth : names.length < chain.length + depth) :
    Follows (Document.RefersTo names) (expand depth ref chain) := by
  induction depth generalizing ref chain with
  | zero =>
    have := (hnodup.subperm hchain).length_le
    omega
  | succ depth ih =>
    refine Follows.node fun d hd => Follows.get fun d' _ => ?_
    split
    · exact follows_refuseReference hempty _ _
    refine .ite (fun _ => follows_refuseReference hempty _ _) fun hnew => ?_
    refine .bind (follows_copyChildren _) fun copies _ => ?_
    refine .bind (Follows.edit fun d hd => Forest.RefersTo.replaceWith hd _ _) fun _ _ => ?_
    refine .forM fun c _ => .bind (P := Anything) (Follows.get fun d _ => .pure trivial)
      fun found _ => .forM fun nested _ => ?_
    refine .bind (Follows.edit fun d hd => Forest.RefersTo.modify hd fun n => ?_) fun _ _ => ?_
    · split <;> rfl
    refine ih nested _ ?_ ?_ ?_
    · refine List.nodup_append.mpr ⟨hnodup, List.nodup_singleton _, ?_⟩
      intro name hname other hother heq
      rw [List.mem_singleton.mp hother] at heq
      exact hnew (by simpa [heq] using hname)
    · exact List.append_subset.mpr ⟨hchain, by simpa [Document.node] using hd ref⟩
    · rw [List.length_append, List.length_singleton]
      omega

/-- Putting definitions in the place of references comes to an end. -/
theorem substitute_ne_exhausted (target : NodeId) (d e : Document) :
    substitute target d ≠ .error .exhausted e := by
  let names : List String := "" :: d.forest.nodes.toList.map (·.refname)
  have hlength : names.length = d.forest.size + 1 := by simp [names, Forest.size]
  have hnamed : d.RefersTo names := by
    intro i
    rw [Forest.get]
    cases hi : d.forest.nodes[i]? with
    | none => exact List.mem_cons_self
    | some n =>
      refine List.mem_cons_of_mem _ (List.mem_map_of_mem ?_)
      exact Array.mem_toList_iff.mpr (Array.mem_of_getElem? hi)
  have hsub : Follows (Document.RefersTo names) ((d.forest.findOutsideDefinitions
      .substitutionReference target).forM fun ref => expand (d.forest.size + 2) ref []) :=
    .forM fun ref _ => follows_expand List.mem_cons_self _ ref [] List.nodup_nil (by simp)
      (by rw [hlength, List.length_nil]; omega)
  obtain ⟨-, hends, -⟩ := hsub d d rfl hnamed
  intro hexhausted
  have hrun : (d.forest.findOutsideDefinitions .substitutionReference target).forM
      (fun ref => expand (d.forest.size + 2) ref []) d = .error .exhausted e := hexhausted
  rw [hrun] at hends
  exact hends rfl

/-- What each pass does. -/
theorem apply_run (p : Pass) (target : NodeId) (options : List (String × Data.Value))
    (d : Document) :
    p.apply target options d = (match p with
      | .substitutions => substitute target
      | .documentTitle => promoteTitle target
      | .anonymousReferences => pairAnonymous target
      | .indirectReferences => resolveIndirect d.root target
      | .danglingReferences => reportDangling target
      | .sectionNumbers => numberSections target options
      | .contents => fillContents target options
      | .transitions => placeTransitions target
      | .classAttribute => addClasses target options
      | .filterMessages => dropSlight target) d := rfl

/-- **Following names comes to an end.** -/
theorem apply_ne_exhausted {p : Pass} (h : p.followsNames = true) (target : NodeId)
    (options : List (String × Data.Value)) (d e : Document) :
    p.apply target options d ≠ .error .exhausted e := by
  rw [apply_run]
  cases p with
  | substitutions => exact substitute_ne_exhausted target d e
  | indirectReferences => exact resolveIndirect_ne_exhausted d.root target d e
  | _ => cases h

end Pass

end MarkupLint
