import MarkupLint.Proofs.Marking
import MarkupLint.Proofs.Passes

/-! # Titles of documents

    A section is alone if it is the last child of the root and nothing but
    preamble stands before it (`Forest.LoneSection`).  Then it gives way to
    what is in it: its title goes to the front of the root and the rest to
    the end (`Forest.Promoted`).  The nodes are met in the same order as
    before, but for those of the title, which come first
    (`Promoted.inOrder`).

    This is done at most twice, and a second application of the pass does
    nothing (`Pass.promoteTitle_loses_nothing`). -/

namespace MarkupLint

namespace Forest

variable {f g h : Forest} {i j a c root lone title : NodeId} {front preamble content : List NodeId}
  {kind : Kind} {become : Node → Node}

/-! ## Document order -/

/-- The nodes from `i` down in document order. -/
def inOrder (f : Forest) (i : NodeId) : List NodeId := f.walk (fun _ => true) i

theorem WellFormed.inOrder_eq (hf : f.WellFormed) (i : NodeId) :
    f.inOrder i = i :: (f.children i).flatMap f.inOrder := by
  rw [inOrder, hf.walk_eq, if_pos rfl]
  rfl

theorem WellFormed.mem_inOrder (hf : f.WellFormed) : j ∈ f.inOrder i ↔ f.Above i j := by
  rw [inOrder, hf.mem_walk_iff]
  exact and_iff_left fun _ _ _ => .inr rfl

theorem WellFormed.nodup_inOrder (hf : f.WellFormed) (i : NodeId) : (f.inOrder i).Nodup :=
  hf.nodup_walk _ i

/-- What is left of a list of different elements without those in its middle. -/
theorem filter_not_mem_middle {before middle after : List NodeId}
    (h : (before ++ (middle ++ after)).Nodup) :
    (before ++ (middle ++ after)).filter (· ∉ middle) = before ++ after := by
  obtain ⟨-, hrest, hbefore⟩ := List.nodup_append.mp h
  obtain ⟨-, -, hafter⟩ := List.nodup_append.mp hrest
  rw [List.filter_append, List.filter_append]
  congr 1
  · refine List.filter_eq_self.mpr fun i hi => decide_eq_true fun hm => ?_
    exact hbefore i hi i (List.mem_append_left _ hm) rfl
  · rw [List.filter_eq_nil_iff.mpr fun i hi => by simp [hi], List.nil_append]
    refine List.filter_eq_self.mpr fun i hi => decide_eq_true fun hm => ?_
    exact hafter i hm i hi rfl

/-- The same nodes are met where they have the same children. -/
theorem WellFormed.inOrder_congr (hf : f.WellFormed) (hg : g.WellFormed)
    (hagree : ∀ j, f.Above i j → g.children j = f.children j) : g.inOrder i = f.inOrder i := by
  have hwithin := hf.within i
  generalize f.size + 1 = n at hwithin
  induction n generalizing i with
  | zero => exact hwithin.elim
  | succ n ih =>
    rw [hf.inOrder_eq, hg.inOrder_eq, hagree i .here]
    refine congrArg _ (List.flatMap_congr fun c hc => ih (fun j hj => hagree j ?_) (hwithin c hc))
    exact (Above.up (hf.only c i hc) .here).trans hj

/-- What has its parent in one forest has it in the other. -/
theorem Above.of_parents (h : g.Above a j) (hparent : ∀ i p, g.parent? i = some p → f.parent? i = some p) :
    f.Above a j := by
  induction h with
  | here => exact .here
  | up hp _ ih => exact .up (hparent _ _ hp) ih

/-- A child does not stand above its parent. -/
theorem WellFormed.not_above_parent (hf : f.WellFormed) (hc : c ∈ f.children i) : ¬f.Above c i :=
  Above.not_circle (hf.ends c) (hf.only c i hc)

/-! ## Sections that are alone -/

/-- The last child of `root` is a section with a title, and nothing but
    preamble stands between it and the children `front`. -/
structure LoneSection (f : Forest) (root : NodeId) (front preamble : List NodeId)
    (lone title : NodeId) (content : List NodeId) : Prop where
  siblings : f.children root = front ++ preamble ++ [lone]
  preamble : ∀ c ∈ preamble, (f.get c).kind.isPreamble = true
  division : (f.get lone).kind = .division
  children : f.children lone = title :: content
  titled : (f.get title).kind = .title

theorem loneSection?_eq_some_iff {is : List NodeId} :
    Pass.loneSection? f is = some lone ↔ ∃ preamble, is = preamble ++ [lone] ∧
      (∀ c ∈ preamble, (f.get c).kind.isPreamble = true) ∧ (f.get lone).kind = .division := by
  induction is with
  | nil => simp [Pass.loneSection?]
  | cons i is ih =>
    rw [Pass.loneSection?]
    by_cases hpreamble : (f.get i).kind.isPreamble = true
    · rw [if_pos hpreamble, ih]
      constructor
      · rintro ⟨preamble, rfl, hall, hkind⟩
        exact ⟨i :: preamble, rfl, List.forall_mem_cons.mpr ⟨hpreamble, hall⟩, hkind⟩
      · rintro ⟨preamble, heq, hall, hkind⟩
        cases preamble with
        | nil =>
          obtain ⟨rfl, rfl⟩ := List.cons.inj heq
          rw [hkind] at hpreamble
          cases hpreamble
        | cons c preamble =>
          obtain ⟨rfl, rfl⟩ := List.cons.inj heq
          exact ⟨preamble, rfl, (List.forall_mem_cons.mp hall).2, hkind⟩
    · rw [if_neg hpreamble]
      constructor
      · intro h
        split at h
        · rename_i hlone
          obtain ⟨hkind, hlast⟩ := Bool.and_eq_true_iff.mp hlone
          obtain rfl := Option.some.inj h
          rw [List.isEmpty_iff.mp hlast]
          exact ⟨[], rfl, List.forall_mem_nil _, of_decide_eq_true hkind⟩
        · cases h
      · rintro ⟨preamble, heq, hall, hkind⟩
        cases preamble with
        | nil =>
          obtain ⟨rfl, rfl⟩ := List.cons.inj heq
          simp [hkind]
        | cons c preamble =>
          obtain ⟨rfl, rfl⟩ := List.cons.inj heq
          exact absurd (List.forall_mem_cons.mp hall).1 hpreamble

/-- A section is promoted just if it is alone. -/
theorem promoted?_eq_some_iff {position : Nat} :
    Pass.promoted? f root position = some (lone, title, content) ↔
      ∃ front preamble, front.length = position ∧
        f.LoneSection root front preamble lone title content := by
  constructor
  · intro h
    have htitle := Pass.kind_of_promoted? h
    simp only [Pass.promoted?] at h
    split at h
    · cases h
    rename_i hlone
    split at h
    · cases h
    rename_i hkids
    split at h
    · cases h
      obtain ⟨preamble, hdrop, hall, hkind⟩ := loneSection?_eq_some_iff.mp hlone
      have hlength : position ≤ (f.children root).length := by
        by_contra hshort
        rw [List.drop_of_length_le (by omega)] at hdrop
        simp at hdrop
      refine ⟨(f.children root).take position, preamble, List.length_take_of_le hlength, ?_, hall,
        hkind, hkids, htitle⟩
      rw [List.append_assoc, ← hdrop, List.take_append_drop]
    · cases h
  · rintro ⟨front, preamble, rfl, hsiblings, hall, hkind, hkids, htitle⟩
    have hlone : Pass.loneSection? f ((f.children root).drop front.length) = some lone := by
      refine loneSection?_eq_some_iff.mpr ⟨preamble, ?_, hall, hkind⟩
      rw [hsiblings, List.append_assoc, List.drop_left]
    simp only [Pass.promoted?, hlone, hkids, htitle, if_true]

/-! ## Promotion -/

/-- From `f` to `g`, a section that is alone gave way to its title, put
    behind the children `front` of the root, and its content, put at the
    end.  The title is of another kind then, and the root what it became. -/
structure Promoted (f g : Forest) (root : NodeId) (front preamble : List NodeId)
    (lone title : NodeId) (content : List NodeId) (kind : Kind) (become : Node → Node) : Prop where
  alone : f.LoneSection root front preamble lone title content
  size : g.size = f.size
  wellFormed : g.WellFormed
  siblings : g.children root = front ++ title :: preamble ++ content
  emptied : g.children lone = []
  children : ∀ j, j ≠ root → j ≠ lone → g.children j = f.children j
  parent : ∀ j, g.parent? j
    = if j = lone then none else if j ∈ title :: content then some root else f.parent? j
  relabelled : (g.get title).bare = { (f.get title).bare with kind := kind }
  renamed : (g.get root).bare = become (f.get root).bare
  bare : ∀ j, j ≠ root → j ≠ title → (g.get j).bare = (f.get j).bare

/-- From `f` to `l`, a section that is alone was taken out of the root, and its
    title is of another kind. -/
structure Lifted (f l : Forest) (root : NodeId) (front preamble : List NodeId)
    (lone title : NodeId) (kind : Kind) : Prop where
  size : l.size = f.size
  wellFormed : l.WellFormed
  parent : ∀ j, l.parent? j = if j = lone then none else f.parent? j
  children : ∀ j, l.children j = if j = root then front ++ preamble else f.children j
  bare : ∀ j, (l.get j).bare
    = if j = title then { (f.get j).bare with kind := kind } else (f.get j).bare

namespace LoneSection

variable (hl : f.LoneSection root front preamble lone title content) (hf : f.WellFormed)

include hl

theorem mem_siblings : lone ∈ f.children root := by simp [hl.siblings]

include hf

theorem parent_lone : f.parent? lone = some root := hf.only lone root hl.mem_siblings

theorem parent_child (hc : c ∈ title :: content) : f.parent? c = some lone :=
  hf.only c lone (hl.children ▸ hc)

theorem root_ne_lone : root ≠ lone := fun heq =>
  hf.not_above_parent hl.mem_siblings (heq ▸ .here)

/-- What is in the section does not stand above the root. -/
theorem not_above_root (hc : c ∈ title :: content) : ¬f.Above c root := fun h =>
  hf.not_above_parent (hl.children ▸ hc : c ∈ f.children lone)
    (h.trans (.up (hl.parent_lone hf) .here))

theorem child_ne_root (hc : c ∈ title :: content) : c ≠ root := fun heq =>
  hl.not_above_root hf hc (heq ▸ .here)

theorem child_ne_lone (hc : c ∈ title :: content) : c ≠ lone := fun heq =>
  hf.not_above_parent (hl.children ▸ hc : c ∈ f.children lone) (heq ▸ .here)

theorem nodup : (title :: content).Nodup := hl.children ▸ hf.linked.nodup lone

theorem lone_not_mem : lone ∉ front ++ preamble := fun h => by
  have hnodup := hf.linked.nodup root
  rw [hl.siblings] at hnodup
  exact (List.nodup_append.mp hnodup).2.2 lone h lone (List.mem_singleton_self lone) rfl

/-- The section is taken out, and its title is of another kind. -/
theorem lifted (kind : Kind) :
    f.Lifted ((f.detach lone).modify title ({ · with kind := kind })) root front preamble lone title
      kind := by
  have hkids : ∀ j, ((f.detach lone).modify title ({ · with kind := kind })).children j
      = (f.detach lone).children j :=
    fun j => children_modify (g := ({ · with kind := kind })) _ title j fun _ => rfl
  have hparent : ∀ j, ((f.detach lone).modify title ({ · with kind := kind })).parent? j
      = (f.detach lone).parent? j :=
    fun j => parent?_modify (g := ({ · with kind := kind })) _ title j fun _ => rfl
  refine ⟨by simp, (hf.detach lone).congr hparent hkids, fun j => ?_, fun j => ?_, fun j => ?_⟩
  · rw [hparent, parent?_detach]
  · rw [hkids, children_detach_eq_filter (hf.linked.nodup j) (hf.linked.mem_iff lone j).mp]
    split
    · rename_i hj
      rw [hj, hl.siblings, List.filter_append, filter_ne_of_not_mem (hl.lone_not_mem hf)]
      simp
    · rename_i hj
      refine filter_ne_of_not_mem fun hmem => hj ?_
      exact Option.some.inj ((hf.only lone j hmem).symm.trans (hl.parent_lone hf))
  · have htitle : title < (f.detach lone).size := by
      rw [size_detach]
      exact lt_size_of_parent? (hl.parent_child hf List.mem_cons_self)
    by_cases hj : j = title
    · rw [hj, get_modify_self htitle, if_pos rfl, ← bare_detach f lone]
      rfl
    · rw [get_modify_of_ne _ hj, if_neg hj, bare_detach]

/-- What was in the section can be hung under the root. -/
theorem mayHold_lifted {l : Forest} (hlift : f.Lifted l root front preamble lone title kind)
    {ns : List NodeId} (hns : ns.Sublist (title :: content)) : l.MayHold root ns := by
  refine ⟨?_, (hl.nodup hf).sublist hns, fun c hc => ?_, fun c hc habove => ?_⟩
  · rw [hlift.size]
    exact lt_size_of_mem_children hl.mem_siblings
  · rw [hlift.size]
    exact lt_size_of_parent? (hl.parent_child hf (hns.subset hc))
  · refine hl.not_above_root hf (hns.subset hc) (habove.of_parents fun i p hp => ?_)
    rw [hlift.parent] at hp
    split at hp
    · cases hp
    · exact hp

/-- What was in the section is among the children of no other node. -/
theorem filter_lifted {l : Forest} (hlift : f.Lifted l root front preamble lone title kind)
    (hj : j ≠ lone) {ns : List NodeId} (hns : ns ⊆ title :: content) :
    (l.children j).filter (· ∉ ns) = l.children j := by
  refine List.filter_eq_self.mpr fun c hc => decide_eq_true fun hcn => hj ?_
  have hp := hlift.wellFormed.only c j hc
  rw [hlift.parent, if_neg (hl.child_ne_lone hf (hns hcn)), hl.parent_child hf (hns hcn)] at hp
  exact (Option.some.inj hp).symm

/-- **A section that is alone gives way to what is in it.** -/
theorem promoted (kind : Kind) :
    f.Promoted ((((f.detach lone).modify title ({ · with kind := kind })).insert root
      (front.length : Nat) [title]).append root content) root front preamble lone title content kind
      id := by
  have hlift := hl.lifted hf kind
  generalize (f.detach lone).modify title ({ · with kind := kind }) = l at hlift
  have hroot := hl.root_ne_lone hf
  obtain ⟨htitle, hnodup⟩ := List.nodup_cons.mp (hl.nodup hf)
  have hone : [title].Sublist (title :: content) := by simp
  have hrest : content.Sublist (title :: content) := List.sublist_cons_self _ _
  -- The title is put behind the front, then the content at the end.
  have hmay := hl.mayHold_lifted hf hlift hone
  have hfirst := rehung_insert hlift.wellFormed.linked hmay.inside hmay.lt_size
    (front.length : Nat)
  have hmay' : (l.insert root (front.length : Nat) [title]).MayHold root content := by
    have hlater := hl.mayHold_lifted hf hlift hrest
    exact ⟨hfirst.size ▸ hlater.inside, hnodup, fun c hc => hfirst.size ▸ hlater.lt_size c hc,
      fun c hc h => hlater.not_above c hc (hfirst.above_old hmay.not_above h)⟩
  have hwell := hlift.wellFormed.insert hmay (front.length : Nat)
  have hsecond := rehung_append hwell.linked hmay'.inside hmay'.nodup hmay'.lt_size
  exact {
    alone := hl
    size := hsecond.size.trans (hfirst.size.trans hlift.size)
    wellFormed := hwell.append hmay'
    siblings := by
      have hlength : min (front.length : Int).toNat (l.children root).length = front.length := by
        rw [hlift.children, if_pos rfl, List.length_append]
        omega
      have hapart := hl.filter_lifted hf hlift hroot hrest.subset
      rw [hlift.children, if_pos rfl, List.filter_append] at hapart
      obtain ⟨hfront, hpreamble⟩ := List.append_inj' hapart (by
        have := congrArg List.length hapart
        have := (front.length_filter_le (· ∉ content))
        have := (preamble.length_filter_le (· ∉ content))
        simp only [List.length_append] at *
        omega)
      rw [hsecond.children, if_pos rfl, hfirst.children, if_pos rfl, hlength,
        hl.filter_lifted hf hlift hroot hone.subset, hlift.children, if_pos rfl, List.take_left,
        List.drop_left, List.filter_append, List.filter_append, hfront, hpreamble]
      simp [htitle]
    emptied := by
      rw [hsecond.children, if_neg hroot.symm, hfirst.children, if_neg hroot.symm, hlift.children,
        if_neg hroot.symm, hl.children, List.filter_filter]
      refine List.filter_eq_nil_iff.mpr fun c hc => ?_
      rcases List.mem_cons.mp hc with rfl | hc
      · simp
      · simp [hc]
    children := fun j hj hjl => by
      rw [hsecond.children, if_neg hj, hfirst.children, if_neg hj,
        hl.filter_lifted hf hlift hjl hone.subset, hl.filter_lifted hf hlift hjl hrest.subset,
        hlift.children, if_neg hj]
    parent := fun j => by
      rw [hsecond.parent, hfirst.parent, hlift.parent]
      by_cases hjl : j = lone
      · have hout : lone ∉ title :: content := fun hmem => hl.child_ne_lone hf hmem rfl
        rw [List.mem_cons, not_or] at hout
        rw [hjl, if_neg hout.2, if_neg (by simpa using hout.1), if_pos rfl, if_pos rfl]
      · by_cases hjt : j = title
        · simp [hjt, hl.child_ne_lone hf List.mem_cons_self]
        · simp [hjl, hjt]
    relabelled := by rw [hsecond.bare, hfirst.bare, hlift.bare, if_pos rfl]
    renamed := by
      rw [hsecond.bare, hfirst.bare, hlift.bare,
        if_neg (Ne.symm (hl.child_ne_root hf List.mem_cons_self))]
      rfl
    bare := fun j hj hjt => by rw [hsecond.bare, hfirst.bare, hlift.bare, if_neg hjt] }

end LoneSection

namespace Promoted

/-- The root may get names and attributes besides. -/
theorem modify (hp : f.Promoted g root front preamble lone title content kind id) (hf : f.WellFormed)
    (hbare : ∀ n, (become n).bare = become n.bare) (hkids : ∀ n, (become n).children = n.children)
    (hparent : ∀ n, (become n).parent = n.parent) :
    f.Promoted (g.modify root become) root front preamble lone title content kind become := by
  have hkids' : ∀ j, (g.modify root become).children j = g.children j := fun j =>
    children_modify g root j hkids
  have hparent' : ∀ j, (g.modify root become).parent? j = g.parent? j := fun j =>
    parent?_modify g root j hparent
  have hroot : root < g.size := lt_size_of_mem_children (i := title) (by simp [hp.siblings])
  have htitle : title ≠ root := hp.alone.child_ne_root hf List.mem_cons_self
  exact {
    alone := hp.alone
    size := (size_modify _ _ _).trans hp.size
    wellFormed := hp.wellFormed.congr hparent' hkids'
    siblings := by rw [hkids', hp.siblings]
    emptied := by rw [hkids', hp.emptied]
    children := fun j hj hjl => by rw [hkids', hp.children j hj hjl]
    parent := fun j => by rw [hparent', hp.parent]
    relabelled := by rw [get_modify_of_ne _ htitle, hp.relabelled]
    renamed := by
      rw [get_modify_self hroot, hbare, hp.renamed]
      rfl
    bare := fun j hj hjt => by rw [get_modify_of_ne _ hj, hp.bare j hj hjt] }

/-- A title that stays one keeps its text. -/
theorem asText_title (hp : f.Promoted g root front preamble lone title content .title become)
    (hf : f.WellFormed) : g.asText title = f.asText title := by
  have hnot := hp.alone.not_above_root hf (c := title) List.mem_cons_self
  have hnot' : ¬f.Above title lone :=
    hf.not_above_parent (hp.alone.children ▸ List.mem_cons_self : title ∈ f.children lone)
  have hbare : ∀ j, f.Above title j → (g.get j).bare = (f.get j).bare := by
    intro j hj
    by_cases hjt : j = title
    · rw [hjt, hp.relabelled, ← show (f.get title).bare.kind = .title from hp.alone.titled]
    · exact hp.bare j (fun heq => hnot (heq ▸ hj)) hjt
  refine hf.asText_congr (P := f.Above title) (Nat.le_of_eq hp.size.symm) (fun j hj c hc => ?_)
    (fun j hj => ⟨kind_of_bare (hbare j hj), ?_, ?_⟩) .here
  · exact hj.trans (.up (hf.only c j hc) .here)
  · have hvalue := congrArg Node.value (hbare j hj)
    exact hvalue
  · exact hp.children j (fun heq => hnot (heq ▸ hj)) fun heq => hnot' (heq ▸ hj)

variable (hp : f.Promoted g root front preamble lone title content kind become) (hf : f.WellFormed)

include hp

/-- The section stands nowhere any more. -/
theorem ne_lone {p : NodeId} (h : g.parent? i = some p) : i ≠ lone := by
  rintro rfl
  rw [hp.parent, if_pos rfl] at h
  cases h

/-- From a node that does not stand above the root, the nodes are met that
    were met before. -/
theorem inOrder_below (hf : f.WellFormed) {p : NodeId} (hi : g.parent? i = some p)
    (hroot : ¬g.Above i root) : g.inOrder i = f.inOrder i := by
  refine (hp.wellFormed.inOrder_congr hf fun j hj => (hp.children j ?_ ?_).symm).symm
  · rintro rfl
    exact hroot hj
  · rcases hj.eq_or with rfl | ⟨q, hq, -⟩
    · exact hp.ne_lone hi
    · exact hp.ne_lone hq

include hf

/-- The nodes of the title are met first, then the others but the section, in
    the order in which they were met before. -/
theorem inOrder :
    ∃ rest, f.inOrder root = root :: (front.flatMap f.inOrder ++ rest) ∧
      g.inOrder root = root :: (front.flatMap f.inOrder ++
        (f.inOrder title ++ rest.filter (· ∉ lone :: f.inOrder title))) := by
  have hsame : ∀ c ∈ g.children root, g.inOrder c = f.inOrder c := fun c hc =>
    hp.inOrder_below hf (hp.wellFormed.only c root hc) (hp.wellFormed.not_above_parent hc)
  have hwalk : f.inOrder root = root :: (front.flatMap f.inOrder ++ (preamble.flatMap f.inOrder ++
      (lone :: f.inOrder title ++ content.flatMap f.inOrder))) := by
    rw [hf.inOrder_eq, hp.alone.siblings]
    simp only [List.flatMap_append, List.flatMap_cons, List.flatMap_nil, List.append_nil]
    rw [hf.inOrder_eq lone, hp.alone.children, List.flatMap_cons, List.append_assoc]
    rfl
  refine ⟨_, hwalk, ?_⟩
  have hnodup := hf.nodup_inOrder root
  rw [hwalk] at hnodup
  rw [filter_not_mem_middle (List.nodup_append.mp (List.nodup_cons.mp hnodup).2).2.1,
    hp.wellFormed.inOrder_eq, List.flatMap_congr hsame, hp.siblings]
  simp only [List.flatMap_append, List.flatMap_cons, List.append_assoc]

/-- Below the root stand the nodes that stood there, but for the section. -/
theorem above : g.Above root j ↔ f.Above root j ∧ j ≠ lone := by
  obtain ⟨rest, hbefore, hafter⟩ := hp.inOrder hf
  have hout : ∀ j, g.Above root j → j ≠ lone := fun j hj => by
    rcases hj.eq_or with rfl | ⟨q, hq, -⟩
    · exact hp.alone.root_ne_lone hf
    · exact hp.ne_lone hq
  constructor
  · intro hj
    refine ⟨hf.mem_inOrder.mp ?_, hout j hj⟩
    have hmem := hp.wellFormed.mem_inOrder.mpr hj
    rw [hafter, List.mem_cons, List.mem_append, List.mem_append] at hmem
    rcases hmem with rfl | hmem | hmem | hmem
    · exact hbefore ▸ List.mem_cons_self
    · exact hbefore ▸ List.mem_cons_of_mem _ (List.mem_append_left _ hmem)
    · have hin := hf.mem_inOrder.mp hmem
      have htitle := hp.alone.parent_child hf List.mem_cons_self
      exact hf.mem_inOrder.mpr
        ((Above.up (hp.alone.parent_lone hf) .here).trans ((Above.up htitle .here).trans hin))
    · exact hbefore ▸ List.mem_cons_of_mem _ (List.mem_append_right _ (List.mem_of_mem_filter hmem))
  · rintro ⟨hj, hne⟩
    refine hp.wellFormed.mem_inOrder.mp ?_
    have hmem := hf.mem_inOrder.mpr hj
    rw [hbefore, List.mem_cons, List.mem_append] at hmem
    rw [hafter, List.mem_cons, List.mem_append, List.mem_append, List.mem_filter]
    rcases hmem with rfl | hmem | hmem
    · exact .inl rfl
    · exact .inr (.inl hmem)
    · by_cases hin : j ∈ f.inOrder title
      · exact .inr (.inr (.inl hin))
      · refine .inr (.inr (.inr ⟨hmem, decide_eq_true ?_⟩))
        rw [List.mem_cons, not_or]
        exact ⟨hne, hin⟩

end Promoted

/-! ## Title and subtitle -/

/-- What the root becomes when the title of a section is made that of the
    document: it has the names of the section and the text of the title. -/
def entitle (f : Forest) (lone title : NodeId) (n : Node) : Node :=
  { n with names := n.names ++ (f.get lone).names }.setAttr "title" (f.asText title)

/-- A tree has no title, got one, or got a title and a subtitle: with the
    sections that gave way and the titles that were promoted. -/
inductive Entitled (f : Forest) (root : NodeId) : List NodeId → List NodeId → Forest → Prop
  | unchanged (h : ((f.get root).attr? "title").isSome ∨
        ∀ preamble lone title content, ¬f.LoneSection root [] preamble lone title content) :
      Entitled f root [] [] f
  | title {g : Forest} {preamble content : List NodeId} {lone title : NodeId}
      (untitled : (f.get root).attr? "title" = none)
      (first : f.Promoted g root [] preamble lone title content .title (f.entitle lone title))
      (last : ∀ preamble lone' title' content',
        ¬g.LoneSection root [title] preamble lone' title' content') :
      Entitled f root [lone] [title] g
  | subtitle {g h : Forest} {preamble content preamble' content' : List NodeId}
      {lone title lone' title' : NodeId}
      (untitled : (f.get root).attr? "title" = none)
      (first : f.Promoted g root [] preamble lone title content .title (f.entitle lone title))
      (second : g.Promoted h root [title] preamble' lone' title' content' .subtitle id) :
      Entitled f root [lone, lone'] [title, title'] h

namespace Entitled

variable {sections titles : List NodeId}

theorem wellFormed (h : f.Entitled root sections titles g) (hf : f.WellFormed) : g.WellFormed := by
  cases h with
  | unchanged => exact hf
  | title _ first => exact first.wellFormed
  | subtitle _ _ second => exact second.wellFormed

/-- After the pass, the tree has a title or nothing that could be made one. -/
theorem settled (h : f.Entitled root sections titles g) :
    ((g.get root).attr? "title").isSome ∨
      ∀ preamble lone title content, ¬g.LoneSection root [] preamble lone title content := by
  have hattr : ∀ {lone title : NodeId} {n : Node}, n.bare = f.entitle lone title (f.get root).bare →
      (n.attr? "title").isSome := fun {lone title n} hn => by
    have hset : n.bare.attrs = (f.entitle lone title (f.get root).bare).attrs := by rw [hn]
    rw [Node.attr?, show n.attrs = _ from hset]
    exact Option.isSome_iff_exists.mpr ⟨_, Data.Table.get?_set_self _ _ _⟩
  cases h with
  | unchanged h => exact h
  | title _ first => exact .inl (hattr first.renamed)
  | subtitle _ first second => exact .inl (hattr (second.renamed.trans first.renamed))

/-- Such a tree is unchanged. -/
theorem eq_of_settled (h : f.Entitled root sections titles g)
    (hsettled : ((f.get root).attr? "title").isSome ∨
      ∀ preamble lone title content, ¬f.LoneSection root [] preamble lone title content) : g = f := by
  rcases hsettled with hattr | hnone
  · cases h with
    | unchanged => rfl
    | title untitled => rw [untitled] at hattr; cases hattr
    | subtitle untitled => rw [untitled] at hattr; cases hattr
  · cases h with
    | unchanged => rfl
    | title _ first => exact absurd first.alone (hnone _ _ _ _)
    | subtitle _ first => exact absurd first.alone (hnone _ _ _ _)

/-- **No node but the sections is lost.** -/
theorem above (h : f.Entitled root sections titles g) (hf : f.WellFormed) :
    g.Above root j ↔ f.Above root j ∧ j ∉ sections := by
  cases h with
  | unchanged => simp
  | title _ first => simpa using first.above hf
  | subtitle _ first second =>
    rw [second.above first.wellFormed, first.above hf, and_assoc]
    simp

/-- **The nodes of the titles are met first, the others in their order.** -/
theorem inOrder (h : f.Entitled root sections titles g) (hf : f.WellFormed) :
    g.inOrder root = root :: (titles.flatMap f.inOrder ++
      (f.inOrder root).tail.filter (· ∉ sections ++ titles.flatMap f.inOrder)) := by
  cases h with
  | unchanged =>
    rw [hf.inOrder_eq]
    simp
  | title _ first =>
    obtain ⟨rest, hbefore, hafter⟩ := first.inOrder hf
    rw [hafter, hbefore]
    simp
  | @subtitle between _ _ _ _ _ lone title lone' title' _ first second =>
    obtain ⟨rest, hbefore, hbetween⟩ := first.inOrder hf
    obtain ⟨rest', hbetween', hafter⟩ := second.inOrder first.wellFormed
    have hin : title ∈ between.children root := by simp [first.siblings]
    have htitle : between.inOrder title = f.inOrder title :=
      first.inOrder_below hf (first.wellFormed.only title root hin)
        (first.wellFormed.not_above_parent hin)
    have hsubtitle : between.inOrder title' = f.inOrder title' :=
      first.inOrder_below hf (second.alone.parent_child first.wellFormed List.mem_cons_self)
        (second.alone.not_above_root first.wellFormed List.mem_cons_self)
    -- What comes after the title is the same in both descriptions of the tree between.
    rw [hbetween] at hbetween'
    simp only [List.flatMap_nil, List.nil_append, List.flatMap_singleton, htitle] at hbetween'
    have hrest := List.append_cancel_left (List.cons.inj hbetween').2
    rw [hafter, hbefore, ← hrest, List.filter_filter]
    simp only [List.flatMap_cons, List.flatMap_nil, List.append_nil, List.nil_append, List.tail_cons,
      List.append_assoc, htitle, hsubtitle]
    congr 3
    refine List.filter_congr fun i _ => ?_
    rw [← Bool.decide_and]
    refine decide_eq_decide.mpr ?_
    simp only [List.mem_cons, List.mem_append, List.not_mem_nil, or_false, not_or]
    tauto

end Entitled

end Forest

namespace Pass

variable {d : Document} {root : NodeId}

/-- A section that is alone is promoted, and nothing is done if there is none. -/
theorem promote_cases (hf : d.forest.WellFormed) (root : NodeId) (position : Nat) (kind : Kind) :
    (promote root position kind d = .ok false d ∧
      ∀ front preamble lone title content, front.length = position →
        ¬d.forest.LoneSection root front preamble lone title content) ∨
    ∃ front preamble lone title content g, front.length = position ∧
      promote root position kind d = .ok true { d with forest := g } ∧
      d.forest.Promoted g root front preamble lone title content kind
        (if kind = .title then d.forest.entitle lone title else id) := by
  have hget : (get : Build Document) d = .ok d d := rfl
  rw [promote, Contract.bind_run, hget]
  dsimp only
  cases hfound : promoted? d.forest root position with
  | none =>
    refine .inl ⟨rfl, fun front preamble lone title content hlength hl => ?_⟩
    rw [Forest.promoted?_eq_some_iff.mpr ⟨front, preamble, hlength, hl⟩] at hfound
    cases hfound
  | some found =>
    obtain ⟨lone, title, content⟩ := found
    obtain ⟨front, preamble, rfl, hl⟩ := Forest.promoted?_eq_some_iff.mp hfound
    have hp := hl.promoted hf kind
    refine .inr ⟨front, preamble, lone, title, content, ?_⟩
    dsimp only
    generalize hmoved : (((d.forest.detach lone).modify title ({ · with kind := kind })).insert root
      (front.length : Nat) [title]).append root content = g at hp
    have hedit : Build.edit (fun f =>
        (((f.detach lone).modify title ({ · with kind := kind })).insert root
          (front.length : Nat) [title]).append root content) d = .ok ⟨⟩ { d with forest := g } := by
      rw [← hmoved]
      rfl
    rw [Contract.bind_run, hedit]
    dsimp only
    by_cases hkind : kind = .title
    · subst hkind
      refine ⟨_, rfl, rfl, ?_⟩
      rw [if_pos rfl, hp.asText_title hf]
      exact hp.modify hf (fun _ => rfl) (fun _ => rfl) fun _ => rfl
    · rw [if_neg hkind, if_neg hkind]
      exact ⟨g, rfl, rfl, hp⟩

/-- What the pass does to a tree. -/
theorem promoteTitle_entitled (hf : d.forest.WellFormed) (root : NodeId) :
    ∃ g sections titles, promoteTitle root d = .ok ⟨⟩ { d with forest := g } ∧
      d.forest.Entitled root sections titles g := by
  have hnode : Build.node root d = .ok (d.forest.get root) d := rfl
  rw [promoteTitle, Contract.bind_run, hnode]
  dsimp only
  by_cases htitled : ((d.forest.get root).attr? "title").isSome
  · rw [if_neg (by simpa [← Option.isSome_iff_ne_none] using htitled)]
    exact ⟨d.forest, [], [], rfl, .unchanged (.inl htitled)⟩
  have huntitled : (d.forest.get root).attr? "title" = none := by simpa using htitled
  rw [if_pos (by simp [huntitled]), Contract.bind_run]
  rcases promote_cases hf root 0 .title with ⟨hrun, hnone⟩ |
    ⟨front, preamble, lone, title, content, g, hlength, hrun, hfirst⟩
  · rw [hrun]
    exact ⟨d.forest, [], [], rfl, .unchanged (.inr fun preamble lone title content =>
      hnone [] preamble lone title content rfl)⟩
  obtain rfl := List.length_eq_zero_iff.mp hlength
  rw [hrun]
  dsimp only
  rw [if_pos rfl, Contract.bind_run]
  rw [if_pos rfl] at hfirst
  -- The first child of the root is the title now.
  have hfront : ∀ front preamble lone' title' content', front.length = 1 →
      g.LoneSection root front preamble lone' title' content' → front = [title] := by
    intro front preamble lone' title' content' hlength hl
    have hsiblings := hfirst.siblings.symm.trans hl.siblings
    obtain ⟨c, rfl⟩ := List.length_eq_one_iff.mp hlength
    rw [List.append_assoc] at hsiblings
    rw [(List.cons.inj hsiblings).1]
  rcases promote_cases (d := { d with forest := g }) hfirst.wellFormed root 1 .subtitle with
    ⟨hrun', hnone⟩ | ⟨front, preamble', lone', title', content', h, hlength', hrun', hsecond⟩
  · rw [hrun']
    exact ⟨g, [lone], [title], rfl, .title huntitled hfirst fun preamble lone' title' content' =>
      hnone [title] preamble lone' title' content' rfl⟩
  · obtain rfl := hfront _ _ _ _ _ hlength' hsecond.alone
    rw [hrun']
    exact ⟨h, [lone, lone'], [title, title'], rfl, .subtitle huntitled hfirst hsecond⟩

/-- **The title of a document is promoted without loss.**  The pass leaves a
    tree unchanged, or its only section, with nothing but preamble before it,
    gives way to its title, put in front, and to its content, put at the end;
    then one more section may give way to the subtitle, put in second place,
    and to its content.  Every other node stays in the tree, and all but the
    nodes of the titles in their order.  A second application does nothing. -/
theorem promoteTitle_loses_nothing (hf : d.forest.WellFormed) (root : NodeId) :
    ∃ g sections titles, promoteTitle root d = .ok ⟨⟩ { d with forest := g } ∧
      d.forest.Entitled root sections titles g ∧
      (∀ j, g.Above root j ↔ d.forest.Above root j ∧ j ∉ sections) ∧
      g.inOrder root = root :: (titles.flatMap d.forest.inOrder ++
        (d.forest.inOrder root).tail.filter (· ∉ sections ++ titles.flatMap d.forest.inOrder)) ∧
      promoteTitle root { d with forest := g } = .ok ⟨⟩ { d with forest := g } := by
  obtain ⟨g, sections, titles, hrun, hentitled⟩ := promoteTitle_entitled hf root
  refine ⟨g, sections, titles, hrun, hentitled, fun _ => hentitled.above hf, hentitled.inOrder hf, ?_⟩
  obtain ⟨h, sections', titles', hagain, hentitled'⟩ :=
    promoteTitle_entitled (d := { d with forest := g }) (hentitled.wellFormed hf) root
  rw [hagain]
  obtain rfl := hentitled'.eq_of_settled hentitled.settled
  rfl

/-- A section in the only section of a document, which stands after a comment. -/
theorem promoteTitle_loses_nothing_comment :
    ∃ (d : Document) (g : Forest), d.forest.WellFormed ∧ d.forest.children 0 = [7, 6] ∧
      d.forest.children 6 = [2, 5] ∧ d.forest.children 5 = [3, 4] ∧
      promoteTitle 0 d = .ok ⟨⟩ { d with forest := g } ∧
      g.children 0 = [2, 3, 7, 4] ∧ (g.get 0).attr? "title" = some "Birds" ∧
      g.inOrder 0 = [0, 2, 1, 3, 7, 4] ∧
      promoteTitle 0 { d with forest := g } = .ok ⟨⟩ { d with forest := g } := by
  have h₁ := Forest.Edited.empty.element { kind := .document } [] nofun
  have h₂ := h₁.element { kind := .text, value := "Birds" } [] nofun
  have h₃ := h₂.element { kind := .title } [1] (by decide)
  have h₄ := h₃.element { kind := .title } [] nofun
  have h₅ := h₄.element { kind := .paragraph } [] nofun
  have h₆ := h₅.element { kind := .division } [3, 4] (by decide)
  have h₇ := h₆.element { kind := .division } [2, 5] (by decide)
  have h₈ := h₇.element { kind := .comment } [] nofun
  have h₉ := h₈.step (.append 0 (.own [7, 6])) ⟨by decide, by decide,
    Forest.not_above_of_orphan rfl (by decide)⟩
  generalize hforest : Forest.Edit.run _ _ = f at h₉
  let d : Document := { Document.new "" {} with forest := f }
  have hf : d.forest.WellFormed := h₉.wellFormed_of
  have htree : f.children 0 = [7, 6] ∧ f.children 6 = [2, 5] ∧ f.children 5 = [3, 4] := by
    subst hforest
    decide +kernel
  have hafter : (stateAfter (promoteTitle 0) d).forest.children 0 = [2, 3, 7, 4] ∧
      ((stateAfter (promoteTitle 0) d).forest.get 0).attr? "title" = some "Birds" ∧
      (stateAfter (promoteTitle 0) d).forest.inOrder 0 = [0, 2, 1, 3, 7, 4] := by
    subst hforest
    decide +kernel
  obtain ⟨g, sections, titles, hrun, -, -, -, hagain⟩ := promoteTitle_loses_nothing hf 0
  rw [stateAfter_of_ok hrun] at hafter
  exact ⟨d, g, hf, htree.1, htree.2.1, htree.2.2, hrun, hafter.1, hafter.2.1, hafter.2.2, hagain⟩

end Pass

end MarkupLint
