import MarkupLint.Proofs.Notice
import MarkupLint.Proofs.Shapes

/-! # What substitutions make of a tree

    What becomes of a tree is said of its shape (`Expands`): a reference
    gives way to the shape of its definition, expanded in turn, or to its
    text with a mark.  In a forest, one reference after the other is taken
    out, and each time nothing changes but the reference and the children of
    its parent (`Forest.Spliced`).  So the references that are still to come
    stand where they were found, and the definitions stay as they are, since
    no reference that is expanded stands under one of them. -/

namespace MarkupLint

/-! ## What becomes of a tree -/

/-- Why a reference to a substitution is refused. -/
inductive Refusal where
  | undefined (name : String)
  | circular (name : String)
  deriving DecidableEq, Repr

/-- The text of the message about it. -/
def Refusal.text : Refusal → String
  | .undefined name => "Undefined substitution referenced: \"" ++ name ++ "\"."
  | .circular name => "Circular substitution definition referenced: \"" ++ name ++ "\"."

/-- The notice is an error that refuses a reference. -/
def Notice.refuses (x : Notice) (r : Refusal) : Prop := x.level = .error ∧ x.text = r.text

/-- A node that is given a line if it has none of its own. -/
def Node.lined (line : Int) (n : Node) : Node :=
  { n with line := if n.line = 0 then line else n.line }

/-- Whether references below a node are expanded.  Definitions are passed
    over where they stand, but not the copies made of them; `chain` holds the
    names of the definitions that are copied. -/
def entering (chain : List String) (n : Node) : Bool :=
  !chain.isEmpty || n.kind ≠ .substitutionDefinition

/-- A reference that is refused: a mark that holds its text. -/
def Tree.refused (line : Int) (n : Node) (kids : List Tree) : Tree :=
  let shown := (Tree.node n kids).text
  .node { kind := .problematic, line := (n.lined line).line, source := n.source }
    (if shown = "" then [] else [.node { kind := .text, value := shown } []])

/-- What becomes of trees side by side, and which references in them are
    refused.  `chain` holds the names that are being expanded, and `line` is
    the line of the reference that the trees stand for. -/
inductive Expands (defs : String → Option (List Tree)) :
    List String → Int → List Tree → List Tree → List Refusal → Prop
  | nil {chain : List String} {line : Int} : Expands defs chain line [] [] []
  | stays {chain : List String} {line : Int} {n : Node} {kids kids' rest rest' : List Tree}
      {rs qs : List Refusal} (kind : n.kind ≠ .substitutionReference)
      (enters : entering chain n = true) (below : Expands defs chain line kids kids' rs)
      (beside : Expands defs chain line rest rest' qs) :
      Expands defs chain line (.node n kids :: rest) (.node n kids' :: rest') (rs ++ qs)
  | definition {chain : List String} {line : Int} {n : Node} {kids rest rest' : List Tree}
      {qs : List Refusal} (enters : entering chain n = false)
      (beside : Expands defs chain line rest rest' qs) :
      Expands defs chain line (.node n kids :: rest) (.node n kids :: rest') qs
  | undefined {chain : List String} {line : Int} {n : Node} {kids rest rest' : List Tree}
      {qs : List Refusal} (kind : n.kind = .substitutionReference) (unknown : defs n.refname = none)
      (beside : Expands defs chain line rest rest' qs) :
      Expands defs chain line (.node n kids :: rest) (.refused line n kids :: rest')
        (.undefined n.refname :: qs)
  | circular {chain : List String} {line : Int} {n : Node} {kids rest rest' : List Tree}
      {qs : List Refusal} (kind : n.kind = .substitutionReference)
      (known : (defs n.refname).isSome = true) (again : n.refname ∈ chain)
      (beside : Expands defs chain line rest rest' qs) :
      Expands defs chain line (.node n kids :: rest) (.refused line n kids :: rest')
        (.circular n.refname :: qs)
  | replaced {chain : List String} {line : Int} {n : Node} {kids body body' rest rest' : List Tree}
      {rs qs : List Refusal} (kind : n.kind = .substitutionReference)
      (known : defs n.refname = some body) (new : n.refname ∉ chain)
      (inner : Expands defs (chain ++ [n.refname]) (n.lined line).line body body' rs)
      (beside : Expands defs chain line rest rest' qs) :
      Expands defs chain line (.node n kids :: rest) (body' ++ rest') (rs ++ qs)

/-- References hold leaves with text, and nothing else. -/
inductive Plain : List Tree → Prop
  | nil : Plain []
  | cons {n : Node} {kids rest : List Tree}
      (leaves : n.kind = .substitutionReference → ∀ t ∈ kids, ∃ m, t = .node m [] ∧ m.kind = .text)
      (below : Plain kids) (beside : Plain rest) : Plain (.node n kids :: rest)

variable {defs : String → Option (List Tree)} {chain : List String} {line : Int}
  {ts ts' us us' : List Tree} {rs qs : List Refusal} {n : Node} {kids : List Tree}

/-- Trees beside each other expand to trees beside each other. -/
theorem Expands.append (h : Expands defs chain line ts ts' rs)
    (h' : Expands defs chain line us us' qs) :
    Expands defs chain line (ts ++ us) (ts' ++ us') (rs ++ qs) := by
  induction h with
  | nil => exact h'
  | stays kind enters below _ _ ih =>
    rw [List.append_assoc]
    exact .stays kind enters below (ih h')
  | definition enters _ ih => exact .definition enters (ih h')
  | undefined kind unknown _ ih => exact .undefined kind unknown (ih h')
  | circular kind known again _ ih => exact .circular kind known again (ih h')
  | replaced kind known new inner _ _ ih =>
    rw [List.append_assoc, List.append_assoc]
    exact .replaced kind known new inner (ih h')

theorem Node.lined_zero (n : Node) : n.lined 0 = n := by
  unfold lined
  split
  · rename_i h
    rw [← h]
  · rfl

/-- A reference that was given its line before is expanded as one that is
    given it now. -/
theorem Expands.of_lined (kind : n.kind = .substitutionReference)
    (h : Expands defs chain 0 [.node (n.lined line) kids] ts' rs) :
    Expands defs chain line [.node n kids] ts' rs := by
  have hline : ((n.lined line).lined 0).line = (n.lined line).line := by rw [Node.lined_zero]
  have hrefused : Tree.refused 0 (n.lined line) kids = Tree.refused line n kids := by
    have htext : (Tree.node (n.lined line) kids).text = (Tree.node n kids).text := by
      rw [Tree.text, Tree.text]
      rfl
    simp only [Tree.refused, htext, Node.lined_zero]
    rfl
  cases h with
  | stays hstays => exact absurd kind hstays
  | definition hdefinition =>
    have henters : entering chain (n.lined line) = true := by
      simp [entering, Node.lined, kind]
    rw [henters] at hdefinition
    cases hdefinition
  | undefined _ unknown beside =>
    cases beside
    rw [hrefused]
    exact .undefined kind unknown .nil
  | circular _ known again beside =>
    cases beside
    rw [hrefused]
    exact .circular kind known again .nil
  | replaced _ known new inner beside =>
    cases beside
    rw [hline] at inner
    exact .replaced kind known new inner .nil

namespace Forest

variable {f g h : Forest} {i j c p r a : NodeId} {is js R R' : List NodeId} {P : NodeId → Prop}
  {guarded : NodeId → Prop}

/-! ## The references below a node -/

/-- The references below a node that are expanded. -/
def found (f : Forest) (chain : List String) (i : NodeId) : List NodeId :=
  (f.walk (entering chain) i).filter fun j => (f.get j).kind = .substitutionReference

/-- The references from a node on: itself, and those found below its
    children. -/
theorem WellFormed.found_eq (hf : f.WellFormed) (chain : List String) (i : NodeId) :
    f.found chain i =
      if entering chain (f.get i) then
        (if (f.get i).kind = .substitutionReference then [i] else [])
          ++ (f.children i).flatMap (f.found chain)
      else [] := by
  rw [found, hf.walk_eq]
  cases henter : entering chain (f.get i) with
  | true =>
    rw [if_pos rfl, if_pos rfl, List.filter_cons, List.filter_flatMap]
    by_cases hkind : (f.get i).kind = .substitutionReference <;> simp [hkind] <;> rfl
  | false =>
    have hkind : (f.get i).kind = .substitutionDefinition := by
      simp [entering] at henter
      exact henter.2
    simp [hkind]

/-- In copies of definitions that are all there are. -/
theorem found_eq_findAll (hchain : chain ≠ []) (i : NodeId) :
    f.found chain i = f.findAll .substitutionReference i := by
  have henters : entering chain = fun _ => true := by
    funext n
    cases chain with
    | nil => exact absurd rfl hchain
    | cons name chain => rfl
  rw [found, henters]
  rfl

/-- What is found stands below the node. -/
theorem WellFormed.above_of_mem_found (hf : f.WellFormed) (h : r ∈ f.found chain i) :
    f.Above i r :=
  hf.above_of_mem_walk (List.mem_of_mem_filter h)

/-- And is a reference. -/
theorem kind_of_mem_found (h : r ∈ f.found chain i) :
    (f.get r).kind = .substitutionReference :=
  of_decide_eq_true (List.mem_filter.mp h).2

/-- A reference is a node that is there. -/
theorem lt_size_of_reference (h : (f.get r).kind = .substitutionReference) : r < f.size := by
  by_contra hlt
  rw [get_of_size_le (Nat.le_of_not_lt hlt)] at h
  cases h

/-- What is found below a node is found there as long as the nodes are the
    same. -/
theorem WellFormed.found_congr (hf : f.WellFormed) (hg : g.WellFormed)
    (hclosed : ∀ j, P j → ∀ c ∈ f.children j, P c) (hagree : f.AgreeOn P g) (hi : P i) :
    g.found chain i = f.found chain i := by
  have hwithin := hf.within i
  generalize f.size + 1 = n at hwithin
  induction n generalizing i with
  | zero => exact hwithin.elim
  | succ n ih =>
    obtain ⟨hbare, hkids⟩ := hagree i hi
    have hkind : (g.get i).kind = (f.get i).kind := by
      have := congrArg Node.kind hbare
      exact this
    have hbelow : (f.children i).flatMap (g.found chain) = (f.children i).flatMap (f.found chain) :=
      List.flatMap_congr fun c hc => ih (hclosed i hi c hc) (hwithin c hc)
    rw [hf.found_eq, hg.found_eq, hkids, hbelow, entering, entering, hkind]

/-- Inside a definition every node is entered. -/
theorem entering_concat (chain : List String) (name : String) (n : Node) :
    entering (chain ++ [name]) n = true := by
  simp [entering]

/-- What is found outside a definition would be found inside it. -/
theorem WellFormed.found_concat (hf : f.WellFormed) (name : String) (h : r ∈ f.found chain i) :
    r ∈ f.found (chain ++ [name]) i := by
  have hwithin := hf.within i
  generalize f.size + 1 = n at hwithin
  induction n generalizing i with
  | zero => exact hwithin.elim
  | succ n ih =>
    rw [hf.found_eq] at h
    rw [hf.found_eq, if_pos (entering_concat chain name _)]
    split at h
    · rcases List.mem_append.mp h with h | h
      · exact List.mem_append_left _ h
      · obtain ⟨c, hc, hr⟩ := List.mem_flatMap.mp h
        exact List.mem_append_right _ (List.mem_flatMap.mpr ⟨c, hc, ih hr (hwithin c hc)⟩)
    · cases h

/-- There is nothing to be found in texts. -/
theorem WellFormed.found_of_leaves (hf : f.WellFormed) (h : f.Shows is ts)
    (hleaves : ∀ t ∈ ts, ∃ m, t = .node m [] ∧ m.kind = .text) : ∀ i ∈ is, f.found chain i = [] := by
  induction h with
  | nil => simp
  | @cons i is kids rest below _ _ ih =>
    obtain ⟨⟨m, hm, hkind⟩, hrest⟩ := List.forall_mem_cons.mp hleaves
    obtain ⟨rfl, rfl⟩ := Tree.node.inj hm
    refine List.forall_mem_cons.mpr ⟨?_, ih hrest⟩
    have hnot : (f.get i).kind ≠ .substitutionReference := by
      have htext : (f.get i).kind = .text := hkind
      rw [htext]
      decide
    rw [hf.found_eq, if_neg hnot]
    generalize f.children i = cs at below
    cases below
    simp

/-- Nothing is left to be expanded in what was expanded. -/
theorem found_of_expands (hg : g.WellFormed) (h : Expands defs chain line ts ts' rs)
    (hshows : g.Shows is ts') : ∀ i ∈ is, g.found chain i = [] := by
  have hnone : ∀ {chain : List String} {i : NodeId}, (g.get i).kind ≠ .substitutionReference →
      (∀ c ∈ g.children i, g.found chain c = []) → g.found chain i = [] := by
    intro chain i hkind hkids
    rw [hg.found_eq, if_neg hkind, List.nil_append, List.flatMap_eq_nil_iff.mpr hkids, ite_self]
  -- A mark holds a leaf with text, or nothing.
  have hmark : ∀ {chain : List String} {line : Int} {n : Node} {kids : List Tree}
      {i : NodeId} {kids' : List Tree}, Tree.node (g.get i).bare kids' = Tree.refused line n kids →
      g.Shows (g.children i) kids' → g.found chain i = [] := by
    intro chain line n kids i kids' heq hkids
    obtain ⟨hbare, rfl⟩ := Tree.node.inj heq
    have hkind : (g.get i).kind = .problematic := congrArg Node.kind hbare
    refine hnone (by rw [hkind]; decide) ?_
    generalize g.children i = cs at hkids
    split at hkids
    · cases hkids
      simp
    · generalize hleaf : Tree.node { kind := .text, value := _ } [] = leaf at hkids
      cases hkids with
      | @cons c _ kids _ below beside =>
        obtain ⟨hbare, rfl⟩ := Tree.node.inj hleaf
        cases beside
        have hkind : (g.get c).kind = .text := (congrArg Node.kind hbare).symm
        refine List.forall_mem_singleton.mpr (hnone (by rw [hkind]; decide) ?_)
        generalize g.children c = ds at below
        cases below
        simp
  induction h generalizing is with
  | nil =>
    cases hshows
    simp
  | stays kind enters _ _ ih₁ ih₂ =>
    cases hshows with
    | cons below beside => exact List.forall_mem_cons.mpr ⟨hnone kind (ih₁ below), ih₂ beside⟩
  | definition enters _ ih =>
    cases hshows with
    | @cons i _ _ _ below beside =>
      have hpassed : entering _ (g.get i) = false := enters
      refine List.forall_mem_cons.mpr ⟨?_, ih beside⟩
      rw [hg.found_eq, hpassed]
      rfl
  | @undefined chain line n kids rest rest' qs kind unknown _ ih =>
    generalize hrefused : Tree.refused line n kids = mark at hshows
    cases hshows with
    | cons below beside =>
      exact List.forall_mem_cons.mpr ⟨hmark hrefused.symm below, ih beside⟩
  | @circular chain line n kids rest rest' qs kind known again _ ih =>
    generalize hrefused : Tree.refused line n kids = mark at hshows
    cases hshows with
    | cons below beside =>
      exact List.forall_mem_cons.mpr ⟨hmark hrefused.symm below, ih beside⟩
  | @replaced chain line n kids body body' rest rest' rs qs kind known new inner _ ih₁ ih₂ =>
    obtain ⟨is₁, is₂, rfl, hbody, hrest⟩ := hshows.of_append
    intro i hi
    rcases List.mem_append.mp hi with hi | hi
    · refine List.eq_nil_iff_forall_not_mem.mpr fun r hr => ?_
      have hr' := hg.found_concat n.refname hr
      rw [ih₁ hbody i hi] at hr'
      cases hr'
    · exact ih₂ hrest i hi

/-! ## Taking references out -/

/-- From `f` to `g`, the nodes `R` were taken out of their parents or given
    something, and new nodes were put among the children of these parents;
    nothing else happened to old nodes. -/
structure Spliced (f g : Forest) (R : List NodeId) : Prop where
  size : f.size ≤ g.size
  bare : ∀ j < f.size, j ∉ R → (g.get j).bare = (f.get j).bare
  parent : ∀ j < f.size, j ∉ R → g.parent? j = f.parent? j
  orphan : ∀ j < f.size, g.parent? j = f.parent? j ∨ g.parent? j = none
  children : ∀ j < f.size, (∀ r ∈ R, f.parent? r ≠ some j) → g.children j = f.children j

namespace Spliced

/-- Nothing is taken out to begin with. -/
theorem refl (f : Forest) : f.Spliced f [] :=
  ⟨Nat.le_refl _, fun _ _ _ => rfl, fun _ _ _ => rfl, fun _ _ => .inl rfl, fun _ _ _ => rfl⟩

/-- Some references are taken out, and then others that were there before. -/
theorem trans (hfg : f.Spliced g R) (hgh : g.Spliced h R') (hold : ∀ r ∈ R', r < f.size) :
    f.Spliced h (R ++ R') := by
  have hlt : ∀ {j}, j < f.size → j < g.size := fun hj => Nat.lt_of_lt_of_le hj hfg.size
  refine ⟨Nat.le_trans hfg.size hgh.size, fun j hj hjR => ?_, fun j hj hjR => ?_, fun j hj => ?_,
    fun j hj hparents => ?_⟩
  · simp only [List.mem_append, not_or] at hjR
    exact (hgh.bare j (hlt hj) hjR.2).trans (hfg.bare j hj hjR.1)
  · simp only [List.mem_append, not_or] at hjR
    exact (hgh.parent j (hlt hj) hjR.2).trans (hfg.parent j hj hjR.1)
  · rcases hgh.orphan j (hlt hj) with h | h
    · rw [h]
      exact hfg.orphan j hj
    · exact .inr h
  · refine (hgh.children j (hlt hj) fun r hr hrj => ?_).trans
      (hfg.children j hj fun r hr => hparents r (List.mem_append_left _ hr))
    rcases hfg.orphan r (hold r hr) with h | h
    · exact hparents r (List.mem_append_right _ hr) (h ▸ hrj)
    · rw [h] at hrj
      cases hrj

/-- One may say of more nodes that they may be taken out. -/
theorem mono (h : f.Spliced g R) (hsub : R ⊆ R') : f.Spliced g R' :=
  ⟨h.size, fun j hj hjR => h.bare j hj fun hmem => hjR (hsub hmem),
    fun j hj hjR => h.parent j hj fun hmem => hjR (hsub hmem), h.orphan,
    fun j hj hparents => h.children j hj fun r hr => hparents r (hsub hr)⟩

/-- New nodes are of no account, if their parents are new or lost a child
    before. -/
theorem trans_new (hfg : f.Spliced g R) (hgh : g.Spliced h R') (hnew : ∀ r ∈ R', f.size ≤ r)
    (hparents : ∀ r ∈ R', ∀ q < f.size, g.parent? r = some q → ∃ r ∈ R, f.parent? r = some q) :
    f.Spliced h R := by
  have hlt : ∀ {j}, j < f.size → j < g.size := fun hj => Nat.lt_of_lt_of_le hj hfg.size
  have hnot : ∀ j < f.size, j ∉ R' := fun j hj hmem => Nat.not_lt.mpr (hnew j hmem) hj
  refine ⟨Nat.le_trans hfg.size hgh.size, fun j hj hjR => ?_, fun j hj hjR => ?_, fun j hj => ?_,
    fun j hj hold => ?_⟩
  · exact (hgh.bare j (hlt hj) (hnot j hj)).trans (hfg.bare j hj hjR)
  · exact (hgh.parent j (hlt hj) (hnot j hj)).trans (hfg.parent j hj hjR)
  · rw [hgh.parent j (hlt hj) (hnot j hj)]
    exact hfg.orphan j hj
  · refine (hgh.children j (hlt hj) fun r hr hrj => ?_).trans (hfg.children j hj hold)
    obtain ⟨s, hs, hsj⟩ := hparents r hr j hj hrj
    exact hold s hs hsj

/-- Above an old node is what was above it. -/
theorem above_old (h : f.Spliced g R) (hf : f.WellFormed) (hj : j < f.size) (ha : g.Above a j) :
    f.Above a j := by
  induction ha with
  | here => exact .here
  | @up j q hq _ ih =>
    rcases h.orphan j hj with hsame | hnone
    · rw [hsame] at hq
      exact .up hq (ih (lt_size_of_mem_children ((hf.linked.mem_iff j q).mpr hq)))
    · rw [hnone] at hq
      cases hq

/-- What stood above an old node was there before. -/
theorem lt_size_of_above (h : f.Spliced g R) (hf : f.WellFormed) (hj : j < f.size)
    (ha : g.Above a j) : a < f.size :=
  hf.lt_size_of_above hj (h.above_old hf hj ha)

/-- Where there are neither such nodes nor parents of them, all is as it
    was. -/
theorem agreeOn (h : f.Spliced g R)
    (hP : ∀ j, P j → j < f.size ∧ j ∉ R ∧ ∀ r ∈ R, f.parent? r ≠ some j) : f.AgreeOn P g :=
  fun j hj => ⟨h.bare j (hP j hj).1 (hP j hj).2.1, h.children j (hP j hj).1 (hP j hj).2.2⟩

end Spliced

/-- The node stands below one of some nodes, or is one of them. -/
def Below (f : Forest) (is : List NodeId) (j : NodeId) : Prop := ∃ c ∈ is, f.Above c j

/-- Below what stands below a node is below it. -/
theorem WellFormed.below_closed (hf : f.WellFormed) (is : List NodeId) :
    ∀ j, f.Below is j → ∀ c ∈ f.children j, f.Below is c :=
  fun j ⟨a, ha, haj⟩ c hc => ⟨a, ha, .up (hf.only c j hc) haj⟩

/-- Some children of a node and others. -/
structure Siblings (f : Forest) (p : NodeId) (is js : List NodeId) : Prop where
  left : ∀ c ∈ is, f.parent? c = some p
  right : ∀ c ∈ js, f.parent? c = some p
  disjoint : ∀ c ∈ is, c ∉ js

/-- Children of one node stand beside each other. -/
theorem WellFormed.siblings (hf : f.WellFormed) {pre post : List NodeId}
    (h : f.children p = pre ++ is ++ (js ++ post)) : f.Siblings p is js := by
  have hnodup := hf.linked.nodup p
  rw [h] at hnodup
  refine ⟨fun c hc => hf.only c p ?_, fun c hc => hf.only c p ?_, fun c hc hcj => ?_⟩
  · rw [h]
    simp [hc]
  · rw [h]
    simp [hc]
  · exact (List.nodup_append.mp hnodup).2.2 c (List.mem_append_right _ hc) c
      (List.mem_append_left _ hcj) rfl

/-- Each beside the other. -/
theorem Siblings.symm (h : f.Siblings p is js) : f.Siblings p js is :=
  ⟨h.right, h.left, fun c hc hci => h.disjoint c hci hc⟩

/-- What happens below some children of a node changes nothing below the
    others. -/
theorem Siblings.agreeOn (h : f.Siblings p is js) (hf : f.WellFormed) (hs : f.Spliced g R)
    (hR : ∀ r ∈ R, f.Below js r) : f.AgreeOn (f.Below is) g := by
  have hapart : ∀ j, f.Below is j → ¬f.Below js j := fun j ⟨c, hc, hcj⟩ ⟨b, hb, hbj⟩ =>
    hf.apart_of_siblings (h.left c hc) (h.right b hb) (fun heq => h.disjoint c hc (heq ▸ hb)) hcj hbj
  refine hs.agreeOn fun j hj => ⟨?_, fun hjR => hapart j hj (hR j hjR), fun r hr hparent => ?_⟩
  · obtain ⟨c, hc, hcj⟩ := hj
    rcases hcj.eq_or with rfl | ⟨q, hq, -⟩
    · exact lt_size_of_parent? (h.left _ hc)
    · exact lt_size_of_parent? hq
  · obtain ⟨c, hc, hcj⟩ := hj
    exact hapart r ⟨c, hc, .up hparent hcj⟩ (hR r hr)

/-! ## Definitions -/

/-- The node stands under no guarded one. -/
def Free (f : Forest) (guarded : NodeId → Prop) (r : NodeId) : Prop :=
  ∀ i, guarded i → ¬f.Above i r

/-- What a table of definitions holds are guarded nodes, and the shapes under
    them are known. -/
structure Stocked (f : Forest) (guarded : NodeId → Prop) (table : String → Option NodeId)
    (defs : String → Option (List Tree)) : Prop where
  inside : ∀ i, guarded i → i < f.size
  entries : ∀ name, table name = none ∧ defs name = none ∨
    ∃ i body, table name = some i ∧ guarded i ∧ defs name = some body ∧ Plain body ∧
      f.Shows (f.children i) body

/-- Under guarded nodes nothing happens if the references are free of them. -/
theorem Spliced.agreeOn_guarded (h : f.Spliced g R) (hin : ∀ i, guarded i → i < f.size)
    (hfree : ∀ r ∈ R, f.Free guarded r) :
    f.AgreeOn (fun j => ∃ i, guarded i ∧ f.Above i j) g := by
  refine h.agreeOn fun j ⟨i, hi, hij⟩ => ⟨?_, fun hjR => hfree j hjR i hi hij, fun r hr hparent =>
    hfree r hr i hi (.up hparent hij)⟩
  rcases hij.eq_or with rfl | ⟨q, hq, -⟩
  · exact hin _ hi
  · exact lt_size_of_parent? hq

/-- Definitions stay as they are where no guarded reference is taken out. -/
theorem Stocked.keep {table : String → Option NodeId} (h : f.Stocked guarded table defs)
    (hf : f.WellFormed) (hs : f.Spliced g R) (hfree : ∀ r ∈ R, f.Free guarded r) :
    g.Stocked guarded table defs := by
  have hagree := hs.agreeOn_guarded h.inside hfree
  refine ⟨fun i hi => Nat.lt_of_lt_of_le (h.inside i hi) hs.size, fun name => ?_⟩
  refine (h.entries name).imp_right fun ⟨i, body, hi, hguarded, hbody, hplain, hshows⟩ =>
    ⟨i, body, hi, hguarded, hbody, hplain, ?_⟩
  rw [(hagree i ⟨i, hguarded, .here⟩).2]
  refine hshows.keep (fun j ⟨a, ha, haj⟩ c hc => ⟨a, ha, .up (hf.only c j hc) haj⟩) hagree
    fun c hc => ⟨i, hguarded, .up (hf.only c i hc) .here⟩

end Forest

end MarkupLint
