import Mathlib.Logic.Relation
import MarkupLint.Proofs.Chasing
import MarkupLint.Proofs.Marking

/-! # Targets that lead to other targets

    A target may refer to a name, that name stands for another target, and so
    on.  Every target goes on to at most one other, so the targets that are
    followed form a functional graph: a chain ends at an address, at a fault,
    or in a cycle.  `Followed` says what is known while targets are followed;
    the targets on the way are those that were not dealt with yet, and each
    goes on to the next.  A cycle is refused at the target where the way
    closes, when all of its members are on the way (`Followed.close`), and so
    once. -/

namespace MarkupLint

open Relation

/-! ## The graph of targets -/

/-- What is wrong with a target that leads nowhere. -/
inductive Blame where
  | unknown | ambiguous | circular
  deriving DecidableEq

/-- The words for what is wrong. -/
def Blame.text : Blame → String
  | .unknown => "which does not exist"
  | .ambiguous => "which is a duplicate, and cannot be used as a unique reference"
  | .circular => "forming a circular reference"

/-- How a target with some names is spoken of, if `count` targets without names
    were spoken of before. -/
def targetNaming (names : List String) (count : Nat) : String :=
  match names with
  | name :: _ => "\"" ++ name ++ "\" (id=\"" ++ Pass.identifier name ++ "\")"
  | [] => "(id=\"id" ++ Text.natText (count + 1) ++ "\")"

/-- What is said about a target with some names that refers to a name. -/
def Blame.sentence (names : List String) (refname : String) (count : Nat) (why : String) : String :=
  "Indirect hyperlink target " ++ targetNaming names count ++ " refers to target \"" ++ refname
    ++ "\", " ++ why ++ "."

namespace Document

/-- The name that a target refers to stands for a node. -/
def Leads (d : Document) (t n : NodeId) : Prop :=
  Pass.isIndirect (d.node t) = true ∧ d.lookup (d.node t).refname = some (some n)

/-- The name that a target refers to stands for a target that refers to a
    name in its turn. -/
def GoesOn (d : Document) (t n : NodeId) : Prop :=
  d.Leads t n ∧ Pass.isIndirect (d.node n) = true

/-- The chain of a target ends at an address. -/
inductive Address (d : Document) : NodeId → String → Prop
  | here {t n : NodeId} (leads : d.Leads t n) (known : (d.node n).refuri ≠ "") :
      Address d t (d.node n).refuri
  | on {t n : NodeId} {uri : String} (goes : d.GoesOn t n) (rest : Address d n uri) :
      Address d t uri

/-- The target is one of some targets that refer to names, or their chains
    come by. -/
def Handled (d : Document) (starts : List NodeId) (t : NodeId) : Prop :=
  ∃ s ∈ starts, Pass.isIndirect (d.node s) = true ∧ ReflTransGen d.GoesOn s t

/-- The chain of a target comes back to it. -/
def OnCycle (d : Document) (t : NodeId) : Prop := TransGen d.GoesOn t t

/-- What is wrong with a target, apart from others that are refused. -/
def Deserves (d : Document) (t : NodeId) : Blame → Prop
  | .unknown => d.lookup (d.node t).refname = none
  | .ambiguous => d.lookup (d.node t).refname = some none
  | .circular => d.OnCycle t

/-- How many of some targets have no names. -/
def nameless (d : Document) (faults : List (NodeId × Blame)) : Nat :=
  faults.countP fun p => (d.node p.1).names = []

/-- What is said about some targets, one after the other. -/
def blameTexts (d : Document) : Nat → List (NodeId × Blame) → List String
  | _, [] => []
  | count, (t, b) :: rest =>
    Blame.sentence (d.node t).names (d.node t).refname count b.text ::
      d.blameTexts (count + d.nameless [(t, b)]) rest

variable {d : Document} {t n c m : NodeId} {uri : String} {b : Blame} {starts : List NodeId}

/-- The last fault is told after the others, with as many made-up names before
    it. -/
theorem blameTexts_concat (count : Nat) (faults : List (NodeId × Blame)) (t : NodeId) (b : Blame) :
    d.blameTexts count (faults ++ [(t, b)])
      = d.blameTexts count faults ++ [Blame.sentence (d.node t).names (d.node t).refname
        (count + d.nameless faults) b.text] := by
  induction faults generalizing count with
  | nil => rfl
  | cons p faults ih =>
    have hcount : d.nameless (p :: faults) = d.nameless [p] + d.nameless faults := by
      rw [nameless, nameless, nameless, ← List.countP_append, List.singleton_append]
    rw [List.cons_append, blameTexts, blameTexts, ih, hcount, Nat.add_assoc, List.cons_append]

/-- A target leads to one node. -/
theorem Leads.unique (h : d.Leads t n) (h' : d.Leads t m) : n = m :=
  Option.some.inj (Option.some.inj (h.2.symm.trans h'.2))

/-- And goes on to one. -/
theorem GoesOn.unique (h : d.GoesOn t n) (h' : d.GoesOn t m) : n = m := h.1.unique h'.1

/-- An address is not empty. -/
theorem Address.ne_empty (h : d.Address t uri) : uri ≠ "" := by
  induction h with
  | here _ known => exact known
  | on _ _ ih => exact ih

/-- An indirect target has no address of its own. -/
theorem refuri_of_indirect (h : Pass.isIndirect (d.node t) = true) : (d.node t).refuri = "" := by
  simp only [Pass.isIndirect, Bool.and_eq_true, decide_eq_true_eq] at h
  exact h.2

/-- Only indirect targets are given an address. -/
theorem Address.indirect (h : d.Address t uri) : Pass.isIndirect (d.node t) = true := by
  cases h with
  | here leads _ => exact leads.1
  | on goes _ => exact goes.1.1

/-- No chain that comes back leads to an address. -/
theorem Address.not_onCycle (h : d.Address t uri) : ¬d.OnCycle t := by
  induction h with
  | @here t n leads known =>
    intro hcycle
    obtain ⟨m, hm, -⟩ := TransGen.head'_iff.mp hcycle
    obtain rfl := leads.unique hm.1
    exact known (refuri_of_indirect hm.2)
  | @on t n uri goes _ ih =>
    intro hcycle
    obtain ⟨m, hm, hback⟩ := TransGen.head'_iff.mp hcycle
    obtain rfl := goes.unique hm
    exact ih (TransGen.tail' hback goes)

/-- From where the chain of a target on a cycle comes by, it comes back to
    that target. -/
theorem OnCycle.back (h : d.OnCycle t) (hn : ReflTransGen d.GoesOn t n) :
    ReflTransGen d.GoesOn n t := by
  induction hn with
  | refl => exact .refl
  | @tail m n _ hmn ih =>
    rcases ReflTransGen.cases_head ih with rfl | ⟨m', hm', hrest⟩
    · obtain ⟨m', hm', hrest⟩ := TransGen.head'_iff.mp h
      exact hmn.unique hm' ▸ hrest
    · exact hmn.unique hm' ▸ hrest

/-- A cycle goes on along itself. -/
theorem OnCycle.next (h : d.OnCycle t) (hn : d.GoesOn t n) : d.OnCycle n := by
  obtain ⟨m, hm, hback⟩ := TransGen.head'_iff.mp h
  obtain rfl := hn.unique hm
  exact TransGen.tail' hback hn

/-- Only indirect targets are handled. -/
theorem Handled.indirect (h : d.Handled starts t) : Pass.isIndirect (d.node t) = true := by
  obtain ⟨s, -, hs, hst⟩ := h
  rcases ReflTransGen.cases_tail hst with rfl | ⟨m, -, hm⟩
  · exact hs
  · exact hm.2

/-- What a handled target goes on to is handled too. -/
theorem Handled.next (h : d.Handled starts t) (hn : d.GoesOn t n) : d.Handled starts n := by
  obtain ⟨s, hs, hindirect, hst⟩ := h
  exact ⟨s, hs, hindirect, hst.tail hn⟩

theorem lt_size_of_indirect (h : Pass.isIndirect (d.node t) = true) : t < d.forest.size := by
  simp only [Pass.isIndirect, Bool.and_eq_true, decide_eq_true_eq] at h
  exact Forest.lt_size_of_kind (by decide) h.1.1

/-- A target with a fault of its own leads nowhere. -/
theorem Deserves.not_leads (h : d.Deserves t b) (hb : b ≠ .circular) : ¬d.Leads t n := by
  rintro ⟨-, hn⟩
  cases b with
  | unknown => cases (hn.symm.trans h)
  | ambiguous => cases (hn.symm.trans h)
  | circular => exact hb rfl

/-- A target has one fault of its own. -/
theorem Deserves.unique {b' : Blame} (h : d.Deserves t b) (hb : b ≠ .circular)
    (h' : d.Deserves t b') (hb' : b' ≠ .circular) : b = b' := by
  cases b with
  | circular => exact absurd rfl hb
  | unknown =>
    cases b' with
    | unknown => rfl
    | ambiguous => cases (Eq.symm h).trans h'
    | circular => exact absurd rfl hb'
  | ambiguous =>
    cases b' with
    | unknown => cases (Eq.symm h).trans h'
    | ambiguous => rfl
    | circular => exact absurd rfl hb'

/-- A target with an address leads somewhere. -/
theorem Address.leads (h : d.Address t uri) : ∃ n, d.Leads t n := by
  cases h with
  | here leads _ => exact ⟨_, leads⟩
  | on goes _ => exact ⟨_, goes.1⟩

end Document

/-! ## Old nodes that stay as they are -/

/-- What a node is, but for where it leads, whether it is referred to, and its
    attributes. -/
def Node.core (n : Node) : Node := { n.bare with refuri := "", referenced := false, attrs := [] }

namespace Node

@[simp] theorem core_bare (n : Node) : n.bare.core = n.core := rfl
@[simp] theorem core_noted (n : Node) (now : Bool) : (n.noted now).core = n.core := rfl
@[simp] theorem kind_core (n : Node) : n.core.kind = n.kind := rfl
@[simp] theorem names_core (n : Node) : n.core.names = n.names := rfl
@[simp] theorem refname_core (n : Node) : n.core.refname = n.refname := rfl
@[simp] theorem refuri_bare (n : Node) : n.bare.refuri = n.refuri := rfl
@[simp] theorem refuri_noted (n : Node) (now : Bool) : (n.noted now).refuri = n.refuri := rfl

end Node

/-- All old nodes are still there, wherever they stand. -/
structure Forest.Retained (f g : Forest) : Prop where
  size : f.size ≤ g.size
  bare : ∀ j < f.size, (g.get j).bare = (f.get j).bare

namespace Forest.Retained

variable {f g h : Forest}

/-- Nothing is lost where nothing is done. -/
theorem refl (f : Forest) : f.Retained f := ⟨Nat.le_refl _, fun _ _ => rfl⟩

/-- Nor by doing one thing after another. -/
theorem trans (hfg : f.Retained g) (hgh : g.Retained h) : f.Retained h :=
  ⟨Nat.le_trans hfg.size hgh.size, fun j hj =>
    (hgh.bare j (Nat.lt_of_lt_of_le hj hfg.size)).trans (hfg.bare j hj)⟩

/-- Nor by growing. -/
theorem of_extends (h : f.Extends g) : f.Retained g :=
  ⟨h.size, fun j hj => by rw [h.old j hj]⟩

/-- Nor is a node lost that is taken out. -/
theorem detach (f : Forest) (i : NodeId) : f.Retained (f.detach i) :=
  ⟨by simp, fun j _ => bare_detach f i j⟩

/-- Nor one that is put elsewhere. -/
theorem insert (f : Forest) (p : NodeId) (position : Int) (ns : List NodeId) :
    f.Retained (f.insert p position ns) :=
  ⟨by simp, fun j _ => bare_insert f p position ns j⟩

/-- Nor one that another is put in the place of. -/
theorem replaceWith (f : Forest) (i : NodeId) (ns : List NodeId) : f.Retained (f.replaceWith i ns) := by
  unfold Forest.replaceWith
  split
  · exact .refl f
  · exact (detach f i).trans (insert _ _ _ _)

end Forest.Retained

/-- The step goes through and retains all old nodes; nothing but the forest
    changes. -/
def Build.Retains {α : Type} (x : Build α) : Prop :=
  ∀ d, ∃ g a, x d = .ok a { d with forest := g } ∧ d.forest.Retained g

namespace Build.Retains

variable {α β : Type}

theorem pure (a : α) : Retains (Pure.pure a) := fun d => ⟨d.forest, a, rfl, .refl _⟩

theorem bind {x : Build α} {k : α → Build β} (hx : Retains x) (hk : ∀ a, Retains (k a)) :
    Retains (x >>= k) := by
  intro d
  obtain ⟨g, a, hrun, hg⟩ := hx d
  obtain ⟨h, b, hrun', hh⟩ := hk a { d with forest := g }
  refine ⟨h, b, ?_, hg.trans hh⟩
  rw [Contract.bind_run, hrun]
  exact hrun'

theorem forM {step : NodeId → Build Unit} (hstep : ∀ i, Retains (step i)) (is : List NodeId) :
    Retains (is.forM step) := by
  induction is with
  | nil => exact pure ()
  | cons i is ih => exact (hstep i).bind fun _ => ih

theorem node (i : NodeId) : Retains (Build.node i) := fun d => ⟨d.forest, d.node i, rfl, .refl _⟩

theorem element (n : Node) (kids : List NodeId) : Retains (Build.element n kids) := by
  refine fun d => ⟨(d.forest.alloc n).2.append d.forest.size kids, d.forest.size, rfl, ?_, fun j hj => ?_⟩
  · rw [Forest.size_append, Forest.size_alloc]
    exact Nat.le_succ _
  · rw [Forest.bare_append, Forest.get_alloc, if_neg (Nat.ne_of_lt hj)]

theorem textElement (n : Node) (text : String) : Retains (Build.textElement n text) := by
  unfold Build.textElement
  split
  · exact element n []
  · exact (element _ _).bind fun _ => element n _

theorem markProblematic (r : NodeId) : Retains (Pass.markProblematic r) := by
  refine (node r).bind fun n => bind (α := String) (fun d => ⟨d.forest, _, rfl, .refl _⟩) fun text => ?_
  exact (textElement _ _).bind fun mark d => ⟨_, ⟨⟩, rfl, .replaceWith _ _ _⟩

end Build.Retains

namespace Pass

variable {d d₁ : Document} {root target t : NodeId} {b : Blame} {made : Resolved}

/-- A target is refused with one sentence about it, and all references to it
    are marked. -/
theorem refuseTarget_eq (root target : NodeId) (why : String) (made : Resolved) :
    refuseTarget root target why made = Build.node target >>= fun t => do
      let _ ← Build.raise .error (Blame.sentence t.names t.refname made.madeUp why) { base := some target }
      (← references root).forM fun r => do
        let n ← Build.node r
        if t.names.contains n.refname && n.refuri = "" then markProblematic r
      Build.update target ({ · with referenced := true })
      return { made with madeUp := made.madeUp + if t.names = [] then 1 else 0 } := by
  unfold refuseTarget
  refine congrArg _ (funext fun t => ?_)
  unfold Blame.sentence targetNaming
  cases t.names with
  | nil => simp only [if_true]
  | cons name names => simp only [reduceCtorEq, if_false, Nat.add_zero]

/-- Refusing a target raises an error about it, and it counts as referred
    to. -/
theorem refuseTarget_run (b : Blame) (made : Resolved) (root target : NodeId) (d : Document) :
    Reaches d.reporter.haltLevel .error (fun made' d' =>
        made' = { made with madeUp := made.madeUp + d.nameless [(target, b)] } ∧
        d.forest.size ≤ d'.forest.size ∧
        (∀ j < d.forest.size, (d'.node j).bare = (d.node j).bare.noted (j = target)) ∧
        ∃ x : Notice, x.said = 
          (.error, Blame.sentence (d.node target).names (d.node target).refname made.madeUp b.text) ∧
          d' = { d with forest := d'.forest, reporter := d.reporter.heard x })
      (refuseTarget root target b.text made d) := by
  have hnode : Build.node target d = .ok (d.node target) d := rfl
  have hcount : (if (d.node target).names = [] then 1 else 0) = d.nameless [(target, b)] := by
    simp [Document.nameless, List.countP_singleton]
  rw [refuseTarget_eq, Contract.bind_run, hnode]
  dsimp only
  generalize hmarking : (fun r => do
    let n ← Build.node r
    if (d.node target).names.contains n.refname && n.refuri = "" then markProblematic r :
      NodeId → Build Unit) = marking
  have hretains : ∀ r, Build.Retains (marking r) := fun r => by
    rw [← hmarking]
    refine (Build.Retains.node r).bind fun n => ?_
    split
    · exact .markProblematic r
    · exact .pure ()
  -- First the error is raised, then the references are marked, and the target is noted last.
  obtain ⟨x, g, hlevel, htext, hextends, hraise⟩ := Build.raise_heard .error
    (Blame.sentence (d.node target).names (d.node target).refname made.madeUp b.text) { base := some target } d
  rw [Contract.bind_run]
  rcases hraise with ⟨hhalt, hraise⟩ | ⟨msg, hraise⟩
  · rw [hraise]
    exact .error (hlevel ▸ Int.le_refl _) (hlevel ▸ hhalt)
  let d₁ : Document := { d with forest := g, reporter := d.reporter.heard x }
  obtain ⟨h, u, hmarks, hretained⟩ :=
    Build.Retains.forM hretains (g.findOutsideDefinitions .reference root) d₁
  have hreferences : references root d₁ = .ok (g.findOutsideDefinitions .reference root) d₁ := rfl
  have hboth := (Forest.Retained.of_extends hextends).trans hretained
  rw [hraise]
  dsimp only
  rw [Contract.bind_run, hreferences]
  dsimp only
  rw [Contract.bind_run, hmarks]
  refine .ok ⟨?_, ?_, fun j hj => ?_, x, by rw [Notice.said, hlevel, htext], rfl⟩
  · rw [hcount]
  · exact hboth.size.trans (Nat.le_of_eq (Forest.size_modify _ _ _).symm)
  · show ((h.modify target ({ · with referenced := true })).get j).bare = _
    have hbare := hboth.bare j hj
    rw [Forest.get_modify]
    by_cases hjt : target = j
    · rw [if_pos ⟨hjt, Nat.lt_of_lt_of_le hj hboth.size⟩]
      have hnoted := congrArg (Node.noted · true) hbare
      simp only [hjt, decide_true]
      refine Eq.trans ?_ hnoted
      simp [Node.noted, Node.bare]
    · rw [if_neg fun h => hjt h.1, hbare]
      simp only [Ne.symm hjt, decide_false]
      exact (Node.noted_false _).symm

/-- A target is linked to another one: it leads where that one leads, and
    that one is referred to. -/
theorem link_run (target other : NodeId) (d : Document) :
    ∃ g, link target other d = .ok ⟨⟩ { d with forest := g } ∧ g.size = d.forest.size ∧
      (∀ j, (g.get j).core = (d.node j).core) ∧
      (∀ j, (g.get j).refuri = if j = target ∧ j < d.forest.size ∧ (d.node other).refuri ≠ ""
        then (d.node other).refuri else (d.node j).refuri) ∧
      ∀ j, (g.get j).referenced
        = ((d.node j).referenced || decide (j = other ∧ j < d.forest.size)) := by
  let f := d.forest.modify other ({ · with referenced := true })
  let g := f.modify target fun t =>
    (if (f.get other).refuri ≠ "" then { t with refuri := (f.get other).refuri } else t).setAttr
      "refid" (identifier t.refname)
  have hf : ∀ j, (f.get j).core = (d.node j).core ∧ (f.get j).refuri = (d.node j).refuri ∧
      (f.get j).referenced = ((d.node j).referenced || decide (j = other ∧ j < d.forest.size)) := by
    intro j
    rw [Forest.get_modify]
    by_cases hj : other = j ∧ j < d.forest.size
    · rw [if_pos hj]
      simp [hj.1, hj.2, Node.core, Node.bare, Document.node]
    · have hno : decide (j = other ∧ j < d.forest.size) = false :=
        decide_eq_false fun h => hj ⟨h.1.symm, h.2⟩
      rw [if_neg hj, hno, Bool.or_false]
      exact ⟨rfl, rfl, rfl⟩
  have hg : ∀ j, (g.get j).core = (f.get j).core ∧
      ((g.get j).refuri = if j = target ∧ j < d.forest.size ∧ (f.get other).refuri ≠ ""
        then (f.get other).refuri else (f.get j).refuri) ∧
      (g.get j).referenced = (f.get j).referenced := by
    intro j
    rw [Forest.get_modify, Forest.size_modify]
    by_cases hj : target = j ∧ j < d.forest.size
    · rw [if_pos hj]
      by_cases huri : (f.get other).refuri = "" <;>
        simp [hj.1, hj.2, huri, Node.core, Node.bare, Node.setAttr]
    · have hno : ¬(j = target ∧ j < d.forest.size ∧ (f.get other).refuri ≠ "") :=
        fun h => hj ⟨h.1.symm, h.2.1⟩
      rw [if_neg hj, if_neg hno]
      exact ⟨rfl, rfl, rfl⟩
  refine ⟨g, rfl, by simp [g, f], fun j => ?_, fun j => ?_, fun j => ?_⟩
  · rw [(hg j).1, (hf j).1]
  · rw [(hg j).2.1, (hf other).2.1, (hf j).2.1]
  · rw [(hg j).2.2, (hf j).2.2]

/-! ## Following targets -/

section Following

variable (d : Document) (starts visiting : List NodeId)

/-- All that a target leads to was dealt with: its own fault was reported, what
    it leads to is referred to and was dealt with, and it has the address its
    chain ends at. -/
structure Settled (d₁ : Document) (targets : List NodeId) (faults : List (NodeId × Blame))
    (t : NodeId) : Prop where
  fault : ∀ b ≠ .circular, d.Deserves t b → (t, b) ∈ faults
  referenced : ∀ n, d.Leads t n → (d₁.node n).referenced = true
  next : ∀ n, d.GoesOn t n → n ∈ targets
  uri : ∀ u, d.Address t u → (d₁.node t).refuri = u

/-- From `d` to `d₁`, some targets were dealt with, and `faults` were reported.
    Those on the way, `visiting`, need not be settled yet, even if they were
    refused. -/
structure Followed (d₁ : Document) (made : Resolved) (faults : List (NodeId × Blame)) : Prop where
  heard : ∃ xs : List Notice, xs.map Notice.said = (d.blameTexts 0 faults).map (Level.error, ·) ∧
    d₁ = { d with forest := d₁.forest, reporter := xs.foldl Reporter.heard d.reporter }
  madeUp : made.madeUp = d.nameless faults
  size : d.forest.size ≤ d₁.forest.size
  core : ∀ j < d.forest.size, (d₁.node j).core = (d.node j).core
  uri : ∀ j < d.forest.size, (d₁.node j).refuri = (d.node j).refuri ∨
    j ∈ made.targets ∧ d.Address j (d₁.node j).refuri
  handled : ∀ t ∈ made.targets, d.Handled starts t
  settled : ∀ t ∈ made.targets, t ∉ visiting → Settled d d₁ made.targets faults t
  blamed : ∀ p ∈ faults, p.1 ∈ made.targets ∧ d.Deserves p.1 p.2
  nodup : (faults.map Prod.fst).Nodup
  cycle : ∀ t ∈ made.targets, d.OnCycle t →
    ∃ c, ReflTransGen d.GoesOn t c ∧ (c, .circular) ∈ faults
  once : ∀ c c', (c, .circular) ∈ faults → (c', .circular) ∈ faults →
    ReflTransGen d.GoesOn c c' → c = c'

end Following

/-- What was settled stays so while more targets are dealt with. -/
theorem Settled.mono {d₂ : Document} {T T' : List NodeId} {F F' : List (NodeId × Blame)}
    (h : Settled d d₁ T F t) (hin : ∀ i ∈ d.named, i < d.forest.size) (hT : T ⊆ T') (hF : F ⊆ F')
    (hreferenced : ∀ j < d.forest.size, (d₁.node j).referenced = true → (d₂.node j).referenced = true)
    (huri : (d₂.node t).refuri = (d₁.node t).refuri) : Settled d d₂ T' F' t where
  fault b hb hdeserves := hF (h.fault b hb hdeserves)
  referenced n hn := hreferenced n (hin n (Document.mem_named hn.2)) (h.referenced n hn)
  next n hn := hT (h.next n hn)
  uri u hu := huri.trans (h.uri u hu)

namespace Followed

variable {starts visiting : List NodeId} {faults : List (NodeId × Blame)}

/-- Nothing is followed to begin with. -/
theorem start (d : Document) (starts : List NodeId) : Followed d starts [] d {} [] where
  heard := ⟨[], rfl, rfl⟩
  madeUp := rfl
  size := Nat.le_refl _
  core _ _ := rfl
  uri _ _ := .inl rfl
  handled := List.forall_mem_nil _
  settled := List.forall_mem_nil _
  blamed := List.forall_mem_nil _
  nodup := List.nodup_nil
  cycle := List.forall_mem_nil _
  once _ _ h := absurd h List.not_mem_nil

/-- Following targets changes no names. -/
theorem names (h : Followed d starts visiting d₁ made faults) : d₁.names = d.names := by
  obtain ⟨xs, -, heq⟩ := h.heard
  rw [heq]

/-- So names are looked up as before. -/
theorem lookup (h : Followed d starts visiting d₁ made faults) : d₁.lookup = d.lookup := by
  funext name
  rw [Document.lookup, Document.lookup, h.names]

/-- And the run halts at the same level. -/
theorem haltLevel (h : Followed d starts visiting d₁ made faults) :
    d₁.reporter.haltLevel = d.reporter.haltLevel := by
  obtain ⟨xs, -, heq⟩ := h.heard
  rw [heq]
  exact Reporter.haltLevel_foldl_heard _ _

/-- What a node refers to stays. -/
theorem refname (h : Followed d starts visiting d₁ made faults) (ht : t < d.forest.size) :
    (d₁.node t).refname = (d.node t).refname := by
  simpa only [Node.refname_core] using congrArg Node.refname (h.core t ht)

/-- A target goes on until an address is found for it, and then it was dealt
    with. -/
theorem indirect (h : Followed d starts visiting d₁ made faults) (ht : t < d.forest.size) :
    isIndirect (d₁.node t) = true ∨ t ∈ made.targets ↔ isIndirect (d.node t) = true := by
  have hkind : (d₁.node t).kind = (d.node t).kind := by
    simpa only [Node.kind_core] using congrArg Node.kind (h.core t ht)
  have hsplit : ∀ n : Node, isIndirect n = (decide (n.kind = .target) && decide (n.refname ≠ "") &&
      decide (n.refuri = "")) := fun _ => rfl
  refine ⟨fun hor => ?_, fun hindirect => ?_⟩
  · rcases hor with hindirect | hmem
    · rcases h.uri t ht with hsame | ⟨-, haddress⟩
      · rwa [hsplit, hkind, h.refname ht, hsame, ← hsplit] at hindirect
      · exact haddress.indirect
    · exact (h.handled t hmem).indirect
  · rcases h.uri t ht with hsame | ⟨hmem, -⟩
    · refine .inl ?_
      rwa [hsplit, hkind, h.refname ht, hsame, ← hsplit]
    · exact .inr hmem

/-- A target is refused.  One that closes a cycle is on the way, and no other
    member of the cycle was refused. -/
theorem refuse (h : Followed d starts visiting d₁ made faults)
    (hin : ∀ i ∈ d.named, i < d.forest.size) (hnew : target ∉ made.targets)
    (hhandled : d.Handled starts target) (hb : d.Deserves target b)
    (hclose : b = .circular → target ∈ visiting ∧
      ∀ c, (c, .circular) ∈ faults → ¬ReflTransGen d.GoesOn target c) (root : NodeId) :
    Reaches d.reporter.haltLevel .error (fun made' d' => made'.targets = made.targets ∧
        Followed d starts visiting d' { made' with targets := target :: made'.targets }
          (faults ++ [(target, b)]))
      (refuseTarget root target b.text made d₁) := by
  have hrun := refuseTarget_run b made root target d₁
  rw [h.haltLevel] at hrun
  refine hrun.mono fun made' d' ⟨hmade, hsize, hbare, x, hx, heq⟩ => ?_
  subst hmade
  refine ⟨rfl, ?_⟩
  have htarget : target < d.forest.size := Document.lt_size_of_indirect hhandled.indirect
  have hlt : ∀ {j}, j < d.forest.size → j < d₁.forest.size := fun hj => Nat.lt_of_lt_of_le hj h.size
  have hnames : (d₁.node target).names = (d.node target).names := by
    simpa only [Node.names_core] using congrArg Node.names (h.core target htarget)
  have hreferenced : ∀ j < d.forest.size, (d₁.node j).referenced = true →
      (d'.node j).referenced = true := fun j hj hj' => by
    have hnoted : (d'.node j).referenced = ((d₁.node j).referenced || decide (j = target)) :=
      congrArg Node.referenced (hbare j (hlt hj))
    rw [hnoted, hj', Bool.true_or]
  have huri : ∀ j < d.forest.size, (d'.node j).refuri = (d₁.node j).refuri := fun j hj => by
    simpa only [Node.refuri_bare, Node.refuri_noted] using congrArg Node.refuri (hbare j (hlt hj))
  have hfresh : target ∉ faults.map Prod.fst := fun hmem => by
    obtain ⟨p, hp, rfl⟩ := List.mem_map.mp hmem
    exact hnew (h.blamed p hp).1
  have hleads : ∀ n, b ≠ .circular → ¬d.Leads target n := fun n hne => hb.not_leads hne
  exact {
    heard := by
      obtain ⟨xs, hxs, heq'⟩ := h.heard
      refine ⟨xs ++ [x], ?_, by rw [heq, heq', List.foldl_append]; rfl⟩
      rw [List.map_append, hxs, Document.blameTexts_concat, List.map_append, List.map_singleton,
        List.map_singleton, hx, hnames, h.refname htarget, h.madeUp, Nat.zero_add]
    madeUp := by
      have hsame : d₁.nameless [(target, b)] = d.nameless [(target, b)] := by
        simp only [Document.nameless, List.countP_singleton, hnames]
      show made.madeUp + d₁.nameless [(target, b)] = _
      rw [hsame, h.madeUp, Document.nameless, Document.nameless, Document.nameless,
        List.countP_append]
    size := Nat.le_trans h.size hsize
    core := fun j hj => by
      have hcore : (d'.node j).core = (d₁.node j).core := by
        simpa only [Node.core_bare, Node.core_noted] using congrArg Node.core (hbare j (hlt hj))
      exact hcore.trans (h.core j hj)
    uri := fun j hj => by
      rw [huri j hj]
      exact (h.uri j hj).imp_right fun hj => ⟨List.mem_cons_of_mem _ hj.1, hj.2⟩
    handled := List.forall_mem_cons.mpr ⟨hhandled, h.handled⟩
    settled := by
      refine List.forall_mem_cons.mpr ⟨fun hout => ?_, fun t ht hout => ?_⟩
      · -- The target is not on the way, so it closes no cycle, and what is wrong with it is `b` alone.
        have hne : b ≠ .circular := fun hcircular => hout (hclose hcircular).1
        exact {
          fault := fun b' hb' hdeserves => by
            obtain rfl : b' = b := hdeserves.unique hb' hb hne
            exact List.mem_append_right _ (List.mem_singleton_self _)
          referenced := fun n hn => absurd hn (hleads n hne)
          next := fun n hn => absurd hn.1 (hleads n hne)
          uri := fun u hu => by
            obtain ⟨n, hn⟩ := hu.leads
            exact absurd hn (hleads n hne) }
      · exact (h.settled t ht hout).mono hin (List.subset_cons_self _ _)
          (List.subset_append_left _ _) hreferenced
          (huri t (Document.lt_size_of_indirect (h.handled t ht).indirect))
    blamed := by
      refine List.forall_mem_append.mpr ⟨fun p hp => ?_, List.forall_mem_singleton.mpr
        ⟨List.mem_cons_self, hb⟩⟩
      exact ⟨List.mem_cons_of_mem _ (h.blamed p hp).1, (h.blamed p hp).2⟩
    nodup := by
      rw [List.map_append]
      refine List.nodup_append.mpr ⟨h.nodup, List.nodup_singleton _, fun i hi j hj heq => ?_⟩
      obtain rfl := List.mem_singleton.mp hj
      exact hfresh (heq ▸ hi)
    cycle := by
      refine List.forall_mem_cons.mpr ⟨fun hcycle => ?_, fun t ht hcycle => ?_⟩
      · by_cases hcircular : b = .circular
        · exact ⟨target, .refl, List.mem_append_right _ (hcircular ▸ List.mem_singleton_self _)⟩
        · obtain ⟨m, hm, -⟩ := TransGen.head'_iff.mp hcycle
          exact absurd hm.1 (hleads m hcircular)
      · obtain ⟨c, hc, hmem⟩ := h.cycle t ht hcycle
        exact ⟨c, hc, List.mem_append_left _ hmem⟩
    once := fun c c' hc hc' hreach => by
      have hlast : ∀ {c}, (c, Blame.circular) ∈ faults ++ [(target, b)] →
          (c, .circular) ∈ faults ∨ c = target ∧ b = .circular := fun hmem =>
        (List.mem_append.mp hmem).imp_right fun hmem => by
          obtain ⟨hfst, hsnd⟩ := Prod.mk.inj (List.mem_singleton.mp hmem)
          exact ⟨hfst, hsnd.symm⟩
      -- Of two members that were refused, an earlier one and the target are not on one cycle.
      rcases hlast hc with hold | ⟨rfl, hcircular⟩
      · rcases hlast hc' with hold' | ⟨rfl, hcircular⟩
        · exact h.once c c' hold hold' hreach
        · have hcycle : d.OnCycle c := (h.blamed _ hold).2
          exact absurd (hcycle.back hreach) ((hclose hcircular).2 c hold)
      · rcases hlast hc' with hold' | ⟨rfl, -⟩
        · exact absurd hreach ((hclose hcircular).2 c' hold')
        · rfl }

/-- A target is linked to the node that its name stands for.  If that node is a
    target that goes on, it was dealt with, and if it is on the way as well,
    it closes a cycle. -/
theorem link {other : NodeId} (h : Followed d starts (visiting ++ [target]) d₁ made faults)
    (hin : ∀ i ∈ d.named, i < d.forest.size) (hhandled : d.Handled starts target)
    (hleads : d.Leads target other) (hmade : d.GoesOn target other → other ∈ made.targets)
    (hclose : d.GoesOn target other → other ∈ visiting ++ [target] → d.OnCycle other) :
    ∃ g, Pass.link target other d₁ = .ok ⟨⟩ { d₁ with forest := g } ∧
      Followed d starts visiting { d₁ with forest := g }
        { made with targets := target :: made.targets } faults := by
  obtain ⟨g, hrun, hsize, hcore, huri, hreferenced⟩ := link_run target other d₁
  have htarget : target < d.forest.size := Document.lt_size_of_indirect hhandled.indirect
  have hother : other < d.forest.size := hin other (Document.mem_named hleads.2)
  have hlt : ∀ {j}, j < d.forest.size → j < d₁.forest.size := fun hj => Nat.lt_of_lt_of_le hj h.size
  have hkept : ∀ j < d.forest.size, (d₁.node j).referenced = true → (g.get j).referenced = true :=
    fun j _ hj => by rw [hreferenced, hj, Bool.true_or]
  have hown : (d₁.node other).refuri ≠ "" → (g.get target).refuri = (d₁.node other).refuri :=
    fun hne => by rw [huri, if_pos ⟨rfl, hlt htarget, hne⟩]
  -- What an address was found for before is not on the way.
  have hsettled : ∀ u, d.Address target u → (g.get target).refuri = u := by
    intro u hu
    cases hu with
    | @here _ n leads known =>
      obtain rfl := hleads.unique leads
      have hsame : (d₁.node other).refuri = (d.node other).refuri :=
        (h.uri other hother).resolve_right fun hmem =>
          known (Document.refuri_of_indirect hmem.2.indirect)
      rw [hown (hsame ▸ known), hsame]
    | @on _ n _ goes rest =>
      obtain rfl := hleads.unique goes.1
      have hout : other ∉ visiting ++ [target] := fun hmem => rest.not_onCycle (hclose goes hmem)
      have hfound := (h.settled other (hmade goes) hout).uri u rest
      rw [hown (hfound ▸ rest.ne_empty), hfound]
  have hfirst : Settled d { d₁ with forest := g } (target :: made.targets) faults target := {
    fault := fun b hb hdeserves => absurd hleads (hdeserves.not_leads hb)
    referenced := fun n hn => by
      obtain rfl := hleads.unique hn
      show (g.get other).referenced = true
      rw [hreferenced, decide_eq_true ⟨rfl, hlt hother⟩, Bool.or_true]
    next := fun n hn => by
      obtain rfl := hleads.unique hn.1
      exact List.mem_cons_of_mem _ (hmade hn)
    uri := hsettled }
  exact ⟨g, hrun, {
    heard := by
      obtain ⟨xs, hxs, heq⟩ := h.heard
      exact ⟨xs, hxs, by rw [heq]⟩
    madeUp := h.madeUp
    size := by
      rw [hsize]
      exact h.size
    core := fun j hj => (hcore j).trans (h.core j hj)
    uri := fun j hj => by
      show (g.get j).refuri = _ ∨ _ ∧ d.Address j (g.get j).refuri
      rw [huri]
      split
      · rename_i hj'
        obtain ⟨rfl, -, hne⟩ := hj'
        refine .inr ⟨List.mem_cons_self, ?_⟩
        rcases h.uri other hother with hsame | ⟨-, haddress⟩
        · rw [hsame] at hne ⊢
          exact .here hleads hne
        · exact .on ⟨hleads, haddress.indirect⟩ haddress
      · exact (h.uri j hj).imp_right fun hj => ⟨List.mem_cons_of_mem _ hj.1, hj.2⟩
    handled := List.forall_mem_cons.mpr ⟨hhandled, h.handled⟩
    settled := by
      refine List.forall_mem_cons.mpr ⟨fun _ => hfirst, fun t ht hout => ?_⟩
      by_cases htt : t = target
      · rw [htt]
        exact hfirst
      · have hout' : t ∉ visiting ++ [target] := by simp [hout, htt]
        refine (h.settled t ht hout').mono hin (List.subset_cons_self _ _) (List.Subset.refl _) hkept ?_
        show (g.get t).refuri = _
        rw [huri, if_neg fun heq => htt heq.1]
    blamed := fun p hp => ⟨List.mem_cons_of_mem _ (h.blamed p hp).1, (h.blamed p hp).2⟩
    nodup := h.nodup
    cycle := by
      refine List.forall_mem_cons.mpr ⟨fun hcycle => ?_, h.cycle⟩
      obtain ⟨m, hm, -⟩ := TransGen.head'_iff.mp hcycle
      obtain rfl := hleads.unique hm.1
      obtain ⟨c, hc, hmem⟩ := h.cycle other (hmade hm) (hcycle.next hm)
      exact ⟨c, .head hm hc, hmem⟩
    once := h.once }⟩

/-- The targets on the way may be more. -/
theorem widen (h : Followed d starts visiting d₁ made faults) (target : NodeId) :
    Followed d starts (visiting ++ [target]) d₁ made faults :=
  { h with settled := fun t ht hout => h.settled t ht fun hmem => hout (List.mem_append_left _ hmem) }

end Followed

/-- The way to a target: each target on it goes on to the next one, and none
    was dealt with. -/
structure Way (d : Document) (visiting : List NodeId) (target : NodeId) (made : Resolved) : Prop where
  nodup : visiting.Nodup
  named : (visiting ++ [target]).tail ⊆ d.named
  next : ∀ v ∈ visiting, ∃ n ∈ visiting ++ [target], d.GoesOn v n
  reach : ∀ v ∈ visiting, TransGen d.GoesOn v target
  fresh : ∀ v ∈ visiting, v ∉ made.targets

namespace Way

variable {visiting : List NodeId} {other n : NodeId}

/-- No target is visited to begin with. -/
theorem start (d : Document) (target : NodeId) (made : Resolved) : Way d [] target made :=
  ⟨List.nodup_nil, List.nil_subset _, List.forall_mem_nil _, List.forall_mem_nil _,
    List.forall_mem_nil _⟩

/-- The way to the target that a target goes on to. -/
theorem on (h : Way d visiting target made) (hnew : target ∉ visiting)
    (hmade : target ∉ made.targets) (hgoes : d.GoesOn target other) :
    Way d (visiting ++ [target]) other made where
  nodup := List.nodup_append.mpr ⟨h.nodup, List.nodup_singleton _, fun i hi j hj heq => by
    obtain rfl := List.mem_singleton.mp hj
    exact hnew (heq ▸ hi)⟩
  named := by
    rw [List.tail_append_of_ne_nil (by simp)]
    exact List.append_subset.mpr ⟨h.named, by simpa using Document.mem_named hgoes.1.2⟩
  next v hv := by
    rcases List.mem_append.mp hv with hv | hv
    · obtain ⟨n, hn, hvn⟩ := h.next v hv
      exact ⟨n, List.mem_append_left _ hn, hvn⟩
    · obtain rfl := List.mem_singleton.mp hv
      exact ⟨other, List.mem_append_right _ (List.mem_singleton_self _), hgoes⟩
  reach v hv := by
    rcases List.mem_append.mp hv with hv | hv
    · exact (h.reach v hv).tail hgoes
    · obtain rfl := List.mem_singleton.mp hv
      exact .single hgoes
  fresh v hv := by
    rcases List.mem_append.mp hv with hv | hv
    · exact h.fresh v hv
    · obtain rfl := List.mem_singleton.mp hv
      exact hmade

/-- Where the way closes, the whole cycle is on it. -/
theorem closed (h : Way d visiting target made) (hmem : target ∈ visiting)
    (hn : ReflTransGen d.GoesOn target n) : n ∈ visiting := by
  induction hn with
  | refl => exact hmem
  | @tail m n _ hmn ih =>
    obtain ⟨n', hn', hmn'⟩ := h.next m ih
    obtain rfl := hmn.unique hmn'
    rcases List.mem_append.mp hn' with hn' | hn'
    · exact hn'
    · exact List.mem_singleton.mp hn' ▸ hmem

/-- A way is no longer than there are nodes that names stand for. -/
theorem length_le (h : Way d visiting target made) : visiting.length ≤ d.named.length + 1 := by
  have hway : visiting.tail ⊆ d.named := by
    cases visiting with
    | nil => exact List.nil_subset _
    | cons first rest => exact fun i hi => h.named (List.mem_append_left _ hi)
  have hle := ((h.nodup.sublist (List.tail_sublist _)).subperm hway).length_le
  rw [List.length_tail] at hle
  omega

end Way

/-- A run dealt with one more target, and with no fewer than before. -/
def Deals (d : Document) (starts visiting : List NodeId) (made : Resolved) (target : NodeId)
    (made' : Resolved) (d' : Document) : Prop :=
  ∃ faults, Followed d starts visiting d' made' faults ∧ made.targets ⊆ made'.targets ∧
    target ∈ made'.targets

namespace Followed

variable {starts visiting : List NodeId} {faults : List (NodeId × Blame)}

/-- To refuse a target is to deal with it. -/
theorem refuse_deals (h : Followed d starts visiting d₁ made faults)
    (hin : ∀ i ∈ d.named, i < d.forest.size) (hnew : target ∉ made.targets)
    (hhandled : d.Handled starts target) (hb : d.Deserves target b)
    (hclose : b = .circular → target ∈ visiting ∧
      ∀ c, (c, .circular) ∈ faults → ¬ReflTransGen d.GoesOn target c) (root : NodeId) :
    Reaches d.reporter.haltLevel .error (Deals d starts visiting made target)
      ((refuseTarget root target b.text made >>= fun made =>
        pure { made with targets := target :: made.targets }) d₁) := by
  refine (h.refuse hin hnew hhandled hb hclose root).bind fun made' d' hmade => .ok ?_
  obtain ⟨hsame, hd'⟩ := hmade
  exact ⟨_, hd', hsame ▸ List.subset_cons_self _ _, List.mem_cons_self⟩

/-- To link a target is to deal with it, once the target that it goes on to
    was dealt with. -/
theorem link_deals {before : Resolved} {other : NodeId}
    (h : Followed d starts (visiting ++ [target]) d₁ made faults)
    (hway : Way d visiting target before) (hin : ∀ i ∈ d.named, i < d.forest.size)
    (hhandled : d.Handled starts target) (hleads : d.Leads target other)
    (hsub : before.targets ⊆ made.targets) (hmade : d.GoesOn target other → other ∈ made.targets) :
    Reaches d.reporter.haltLevel .error (Deals d starts visiting before target)
      ((Pass.link target other >>= fun _ =>
        pure { made with targets := target :: made.targets }) d₁) := by
  obtain ⟨g, hrun, hlinked⟩ := h.link hin hhandled hleads hmade fun hgoes hmem => by
    rcases List.mem_append.mp hmem with hmem | hmem
    · exact .tail (hway.reach other hmem) hgoes
    · exact .single (List.mem_singleton.mp hmem ▸ hgoes)
  rw [Contract.bind_run, hrun]
  exact .ok ⟨faults, hlinked, fun t ht => List.mem_cons_of_mem _ (hsub ht), List.mem_cons_self⟩

end Followed

/-- Following a target deals with it: by induction on the depth, which is more
    than the way can still take. -/
theorem follow_followed {starts visiting : List NodeId} {faults : List (NodeId × Blame)}
    (hin : ∀ i ∈ d.named, i < d.forest.size) (root depth : Nat)
    (h : Followed d starts visiting d₁ made faults) (hway : Way d visiting target made)
    (hhandled : d.Handled starts target) (hdepth : d.named.length + 2 ≤ visiting.length + depth) :
    Reaches d.reporter.haltLevel .error (Deals d starts visiting made target)
      (follow root depth target visiting made d₁) := by
  induction depth generalizing d₁ target visiting made faults with
  | zero =>
    have hle := hway.length_le
    omega
  | succ depth ih =>
    have htarget : target < d.forest.size := Document.lt_size_of_indirect hhandled.indirect
    unfold follow
    dsimp only
    split
    · rename_i hmem
      exact .ok ⟨faults, h, List.Subset.refl _, List.contains_iff_mem.mp hmem⟩
    rename_i hnew
    have hnew : target ∉ made.targets := fun hmem => hnew (List.contains_iff_mem.mpr hmem)
    split
    · rename_i hmem
      have hmem : target ∈ visiting := List.contains_iff_mem.mp hmem
      -- The cycle is on the way, so none of its members was refused.
      refine h.refuse_deals hin hnew hhandled (b := .circular) (hway.reach target hmem)
        (fun _ => ⟨hmem, fun c hc hreach => ?_⟩) root
      exact hway.fresh c (hway.closed hmem hreach) (h.blamed _ hc).1
    rename_i hout
    have hout : target ∉ visiting := fun hmem => hout (List.contains_iff_mem.mpr hmem)
    have hnode : Build.node target d₁ = .ok (d₁.node target) d₁ := rfl
    have hget : (get : Build Document) d₁ = .ok d₁ d₁ := rfl
    rw [Contract.bind_run, hnode]
    dsimp only
    rw [Contract.bind_run, hget]
    dsimp only
    rw [h.refname htarget, h.lookup]
    cases hlookup : d.lookup (d.node target).refname with
    | none =>
      exact h.refuse_deals hin hnew hhandled (b := .unknown) hlookup (fun hb => by cases hb) root
    | some entry =>
      cases entry with
      | none =>
        exact h.refuse_deals hin hnew hhandled (b := .ambiguous) hlookup (fun hb => by cases hb) root
      | some other =>
        dsimp only
        have hleads : d.Leads target other := ⟨hhandled.indirect, hlookup⟩
        have hother : other < d.forest.size := hin other (Document.mem_named hlookup)
        have hnode' : Build.node other d₁ = .ok (d₁.node other) d₁ := rfl
        rw [Contract.bind_run, hnode']
        dsimp only
        split
        · -- The name stands for a target that goes on, which is followed first.
          rename_i hindirect
          have hgoes : d.GoesOn target other := ⟨hleads, (h.indirect hother).mp (.inl hindirect)⟩
          have hfollow := ih (h.widen target) (hway.on hout hnew hgoes) (hhandled.next hgoes) (by
            rw [List.length_append, List.length_singleton]
            omega)
          refine hfollow.bind fun made' d' hmade => ?_
          obtain ⟨faults', h', hsub, hmem⟩ := hmade
          exact h'.link_deals hway hin hhandled hleads hsub fun _ => hmem
        · rename_i hdirect
          refine (h.widen target).link_deals hway hin hhandled hleads (List.Subset.refl _)
            fun hgoes => ?_
          exact ((h.indirect hother).mpr hgoes.2).resolve_left hdirect

/-! ## The pass -/

/-- All targets that refer to names are dealt with, in document order. -/
theorem follows_followed {starts ts : List NodeId} {faults : List (NodeId × Blame)} {depth : Nat}
    (hin : ∀ i ∈ d.named, i < d.forest.size) (root : NodeId) (hts : ts ⊆ starts)
    (hsize : ∀ t ∈ ts, t < d.forest.size) (hdepth : d.named.length + 2 ≤ depth)
    (h : Followed d starts [] d₁ made faults) :
    Reaches d.reporter.haltLevel .error (fun made' d' => ∃ faults',
        Followed d starts [] d' made' faults' ∧ made.targets ⊆ made'.targets ∧
        ∀ t ∈ ts, isIndirect (d.node t) = true → t ∈ made'.targets)
      ((ts.foldlM (fun made t => do
        if isIndirect (← Build.node t) then follow root depth t [] made else pure made) made :
          Build Resolved) d₁) := by
  induction ts generalizing d₁ made faults with
  | nil => exact .ok ⟨faults, h, List.Subset.refl _, List.forall_mem_nil _⟩
  | cons t ts ih =>
    obtain ⟨hstart, hts⟩ := List.cons_subset.mp hts
    obtain ⟨ht, hsize⟩ := List.forall_mem_cons.mp hsize
    have hnode : Build.node t d₁ = .ok (d₁.node t) d₁ := rfl
    have hone : Reaches d.reporter.haltLevel .error (fun made' d' => ∃ faults',
        Followed d starts [] d' made' faults' ∧ made.targets ⊆ made'.targets ∧
        (isIndirect (d.node t) = true → t ∈ made'.targets))
        ((if isIndirect (d₁.node t) then follow root depth t [] made else pure made) d₁) := by
      split
      · rename_i hindirect
        have hhandled : d.Handled starts t := ⟨t, hstart, (h.indirect ht).mp (.inl hindirect), .refl⟩
        have hfollow := follow_followed hin root depth h (.start d t made) hhandled (by
          rwa [List.length_nil, Nat.zero_add])
        exact hfollow.mono fun made' d' ⟨faults', h', hsub, hmem⟩ => ⟨faults', h', hsub, fun _ => hmem⟩
      · rename_i hdirect
        exact .ok ⟨faults, h, List.Subset.refl _, fun hindirect =>
          ((h.indirect ht).mpr hindirect).resolve_left hdirect⟩
    rw [List.foldlM_cons, bind_assoc, Contract.bind_run, hnode]
    refine hone.bind fun made' d' ⟨faults', h', hsub, hmem⟩ => ?_
    refine (ih hts hsize h').mono fun made'' d'' ⟨faults'', h'', hsub', hmem'⟩ =>
      ⟨faults'', h'', fun i hi => hsub' (hsub hi), List.forall_mem_cons.mpr ⟨fun hindirect =>
        hsub' (hmem hindirect), hmem'⟩⟩

/-- **Targets that refer to names resolve to the end of their chains.**  The
    pass comes to an end.  Then a target whose chain ends at an address has
    that address, and there was no error about it; one error was raised for
    each target whose own name is unknown or ambiguous; of each cycle that is
    reached one member was refused, and nothing else was refused as circular;
    and whatever the name of a target stands for is referred to.  The graph
    of targets is that of the document before the pass. -/
theorem resolveIndirect_resolves (hin : ∀ i ∈ d.named, i < d.forest.size) (root target : NodeId) :
    Reaches d.reporter.haltLevel .error (fun _ d' =>
        ∃ (faults : List (NodeId × Blame)) (notices : List Notice) (handled : NodeId → Prop),
          handled = d.Handled (d.forest.findAll .target target) ∧
          notices.map Notice.said = (d.blameTexts 0 faults).map (Level.error, ·) ∧
          d' = { d with
            forest := d'.forest, reporter := notices.foldl Reporter.heard d.reporter } ∧
          (faults.map Prod.fst).Nodup ∧
          (∀ t b, b ≠ .circular → ((t, b) ∈ faults ↔ handled t ∧ d.Deserves t b)) ∧
          (∀ t, (t, .circular) ∈ faults → handled t ∧ d.OnCycle t) ∧
          (∀ t, handled t → d.OnCycle t →
            ∃! c, ReflTransGen d.GoesOn t c ∧ (c, .circular) ∈ faults) ∧
          (∀ t uri, handled t → d.Address t uri →
            (d'.node t).refuri = uri ∧ t ∉ faults.map Prod.fst) ∧
          (∀ t < d.forest.size, (d'.node t).refuri ≠ (d.node t).refuri →
            handled t ∧ d.Address t (d'.node t).refuri) ∧
          ∀ t n, handled t → d.Leads t n → (d'.node n).referenced = true)
      (resolveIndirect root target d) := by
  have hdepth : d.named.length + 2 ≤ d.names.length + 2 :=
    Nat.add_le_add_right (List.length_filterMap_le _ _) 2
  have hfollowed := follows_followed hin root (List.Subset.refl _) (fun t ht =>
    Forest.lt_size_of_kind (by decide) (of_decide_eq_true (List.mem_filter.mp ht).2)) hdepth
    (Followed.start d (d.forest.findAll .target target))
  have hrun : resolveIndirect root target d = (do
      let _ ← (d.forest.findAll .target target).foldlM (fun made t => do
        if isIndirect (← Build.node t) then follow root (d.names.length + 2) t [] made
        else pure made) {} : Build Unit) d := rfl
  rw [hrun]
  refine hfollowed.bind fun made d' ⟨faults, h, _, hstarts⟩ => .ok ?_
  -- What is handled was dealt with, and is settled.
  have hmade : ∀ t, d.Handled (d.forest.findAll .target target) t → t ∈ made.targets := by
    rintro t ⟨s, hs, hindirect, hst⟩
    induction hst with
    | refl => exact hstarts s hs hindirect
    | tail _ hgoes ih => exact (h.settled _ ih List.not_mem_nil).next _ hgoes
  have hsettled := fun t ht => h.settled t (hmade t ht) List.not_mem_nil
  have hhandled : ∀ p ∈ faults, d.Handled (d.forest.findAll .target target) p.1 := fun p hp =>
    h.handled _ (h.blamed p hp).1
  obtain ⟨notices, hsaid, heq⟩ := h.heard
  refine ⟨faults, notices, _, rfl, hsaid, heq, h.nodup, fun t b hb => ⟨fun hmem => ?_, fun hdue => ?_⟩,
    fun t hmem => ⟨hhandled _ hmem, (h.blamed _ hmem).2⟩, fun t ht hcycle => ?_, fun t uri ht haddress => ?_,
    fun t ht hne => ?_, fun t n ht hn => (hsettled t ht).referenced n hn⟩
  · exact ⟨hhandled _ hmem, (h.blamed _ hmem).2⟩
  · exact (hsettled t hdue.1).fault b hb hdue.2
  · obtain ⟨c, hc, hmem⟩ := h.cycle t (hmade t ht) hcycle
    refine ⟨c, ⟨hc, hmem⟩, fun c' ⟨hc', hmem'⟩ => ?_⟩
    exact h.once c' c hmem' hmem ((hcycle.back hc').trans hc)
  · refine ⟨(hsettled t ht).uri uri haddress, fun hmem => ?_⟩
    obtain ⟨⟨t', b⟩, hp, rfl⟩ := List.mem_map.mp hmem
    have hdue := (h.blamed _ hp).2
    obtain ⟨n, hn⟩ := haddress.leads
    by_cases hb : b = .circular
    · subst hb
      exact haddress.not_onCycle hdue
    · exact hdue.not_leads hb hn
  · obtain ⟨hmem, haddress⟩ := (h.uri t ht).resolve_left hne
    exact ⟨h.handled t hmem, haddress⟩

/-- A chain of two targets, and a target that refers to itself. -/
theorem resolveIndirect_resolves_chain :
    ∃ d d' : Document, (∀ i ∈ d.named, i < d.forest.size) ∧ resolveIndirect 0 0 d = .ok ⟨⟩ d' ∧
      (d.node 1).refname = "b" ∧ d.lookup "b" = some (some 2) ∧ (d.node 2).refname = "c" ∧
      d.lookup "c" = some (some 3) ∧ (d'.node 1).refuri = "u" ∧ (d'.node 2).referenced = true := by
  let d : Document := { Document.new "" {} with
    forest := ⟨#[{ kind := .document, children := [1, 2, 3] },
      { kind := .target, refname := "b", parent := some 0 },
      { kind := .target, refname := "c", parent := some 0 },
      { kind := .paragraph, refuri := "u", parent := some 0 }]⟩
    names := [("b", ⟨some 2, true⟩), ("c", ⟨some 3, true⟩)] }
  have hin : ∀ i ∈ d.named, i < d.forest.size := by decide +kernel
  have hfirst : d.Leads 1 2 := ⟨by decide +kernel, by decide +kernel⟩
  have hsecond : d.Leads 2 3 := ⟨by decide +kernel, by decide +kernel⟩
  have hstart : 1 ∈ d.forest.findAll .target 0 := by decide +kernel
  have hhandled : d.Handled (d.forest.findAll .target 0) 1 := ⟨1, hstart, hfirst.1, .refl⟩
  have haddress : d.Address 1 "u" := by
    have hlast : d.Address 2 (d.node 3).refuri := .here hsecond (by decide +kernel)
    exact .on ⟨hfirst, hsecond.1⟩ hlast
  have hrun := resolveIndirect_resolves hin 0 0
  generalize hresult : resolveIndirect 0 0 d = result at hrun
  cases hrun with
  | error known reached =>
    have hnever : Level.never ≤ .error := Int.le_trans reached known
    exact absurd hnever (by decide)
  | @ok _ d' h =>
    obtain ⟨faults, notices, handled, rfl, -, -, -, -, -, -, huri, -, hreferenced⟩ := h
    exact ⟨d, d', hin, hresult, rfl, hfirst.2, rfl, hsecond.2, (huri 1 "u" hhandled haddress).1,
      hreferenced 1 2 hhandled hfirst⟩

end Pass

end MarkupLint
