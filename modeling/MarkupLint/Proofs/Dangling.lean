import MarkupLint.Proofs.Marking

/-! # References and targets that are left over

    A reference that seeks a target by its name is wrong if that name stands
    for nothing or for several things.  Which complaint there is about a
    reference (`Document.complaint?`) and which node it refers to
    (`Document.referent?`) can be read off the document as it was before the
    pass: neither marks nor messages change the names.  Then targets are
    looked at that nothing refers to. -/

namespace MarkupLint

namespace Node

/-- Whether the node is to be led somewhere by the name it refers to. -/
def seeks (n : Node) : Bool := n.refname ≠ "" && n.refuri = ""

/-- Whether a target is neither referred to nor anonymous. -/
def overlooked (n : Node) : Bool := !n.referenced && !n.anonymous

/-- The note about a target that nothing refers to. -/
def overlookedText (n : Node) : String :=
  let naming := match n.names with
    | name :: _ => name
    | [] => (n.attr? "refid").getD ""
  "Hyperlink target \"" ++ naming ++ "\" is not referenced."

end Node

namespace Document

/-- What is wrong with a reference: its name is unknown or ambiguous. -/
def complaint? (d : Document) (r : NodeId) : Option String :=
  if (d.node r).seeks then
    match d.lookup (d.node r).refname with
    | none => some ("Unknown target name: \"" ++ (d.node r).refname ++ "\".")
    | some none => some ("Duplicate target name, cannot be used as a unique reference: \""
        ++ (d.node r).refname ++ "\".")
    | some (some _) => none
  else none

/-- The node that a reference refers to by its name. -/
def referent? (d : Document) (r : NodeId) : Option NodeId :=
  if (d.node r).seeks then (d.lookup (d.node r).refname).join else none

/-- The references outside substitution definitions, in document order. -/
def references (d : Document) (root : NodeId) : List NodeId :=
  d.forest.findOutsideDefinitions .reference root

/-- Those of some references that are complained about. -/
def refused (d : Document) (rs : List NodeId) : List NodeId :=
  rs.filter fun r => (d.complaint? r).isSome

/-- Those of some targets that nothing refers to, apart from what some
    references refer to. -/
def overlooked (d : Document) (rs ts : List NodeId) : List NodeId :=
  ts.filter fun t => (d.node t).overlooked && decide (t ∉ rs.filterMap d.referent?)

/-- A reference that seeks a target is complained about just if its name does
    not stand for one node. -/
theorem complaint?_eq_none_iff {d : Document} {r : NodeId} :
    d.complaint? r = none ↔
      ((d.node r).seeks = true → ∃ n, d.lookup (d.node r).refname = some (some n)) := by
  unfold complaint?
  split
  · rename_i hseeks
    split <;> simp_all
  · rename_i hseeks
    simp [hseeks]

end Document

/-! ## What is left of a tree -/

namespace Forest.Marked

variable {f g : Forest} {i j a r root : NodeId} {rs ns : List NodeId} {mark : NodeId → NodeId}

/-- Between two nodes, one above the other, stand the nodes that stood
    there. -/
theorem between {i j a : NodeId} (hs : f.Marked g rs ns mark)
    (hf : f.WellFormed) (hj : j < f.size) (hij : g.Above i j) (hia : f.Above i a)
    (haj : f.Above a j) : g.Above i a ∧ g.Above a j := by
  induction hij with
  | here =>
    obtain rfl := hf.above_antisymm hia haj
    exact ⟨.here, .here⟩
  | @up j q hq hiq ih =>
    have hq' := hq
    rw [hs.parent j hj] at hq'
    split at hq'
    · cases hq'
    rcases haj.eq_or with rfl | ⟨p, hp, hap⟩
    · exact ⟨.up hq hiq, .here⟩
    · obtain rfl := Option.some.inj (hq'.symm.trans hp)
      obtain ⟨hia', haq⟩ :=
        ih (lt_size_of_mem_children ((hf.linked.mem_iff j q).mpr hq')) hap
      exact ⟨hia', .up hq haq⟩

/-- References that are left were there, and were not marked. -/
theorem left (hs : f.Marked g rs ns mark) (hf : f.WellFormed)
    (hroot : (f.get root).kind ≠ .reference)
    (hr : r ∈ g.findOutsideDefinitions .reference root) :
    r ∈ f.findOutsideDefinitions .reference root ∧ r ∉ rs ∧ r < f.size := by
  obtain ⟨⟨habove, houtside⟩, hkind⟩ := hs.wellFormed.mem_findOutsideDefinitions.mp hr
  have hold : r < f.size := by
    by_contra hnew
    have hremark := hs.remarks r (Nat.le_of_not_lt hnew) (lt_size_of_kind (by decide) hkind)
    rw [hkind] at hremark
    cases hremark
  have hkinds : ∀ j < f.size, (g.get j).kind = (f.get j).kind := fun j hj =>
    hs.view_old Node.kind (fun _ _ => rfl) hj
  have habove' := hs.above_old hf hold habove
  have hkind' : (f.get r).kind = .reference := (hkinds r hold).symm.trans hkind
  refine ⟨hf.mem_findOutsideDefinitions.mpr ⟨⟨habove', fun a hia har => ?_⟩, hkind'⟩, fun hmem => ?_,
    hold⟩
  · obtain ⟨hia', har'⟩ := hs.between hf hold habove hia har
    rw [← hkinds a (hf.lt_size_of_above hold har)]
    exact houtside a hia' har'
  · -- A node that was marked has no parent any more.
    rcases habove.eq_or with rfl | ⟨p, hp, -⟩
    · exact hroot hkind'
    · rw [hs.parent r hold, if_pos hmem] at hp
      cases hp

end Forest.Marked

namespace Pass

variable {d d₁ : Document} {rs ns ts : List NodeId} {root r : NodeId} {top : Level}

/-! ## References -/

/-- From `d` to `d'`, some notices were heard, some nodes were marked and some
    were said to be referred to. -/
structure Noted (d d' : Document) (said : List (Level × String)) (rs ns : List NodeId) : Prop where
  heard : ∃ xs : List Notice, xs.map Notice.said = said ∧
    d' = { d with forest := d'.forest, reporter := xs.foldl Reporter.heard d.reporter }
  marked : ∃ mark, d.forest.Marked d'.forest rs ns mark

theorem Noted.refl (hf : d.forest.WellFormed) : Noted d d [] [] [] :=
  ⟨⟨[], rfl, rfl⟩, id, .refl hf⟩

theorem Noted.names {said : List (Level × String)} (h : Noted d d₁ said rs ns) :
    d₁.names = d.names := by
  obtain ⟨⟨xs, -, heq⟩, -⟩ := h
  rw [heq]

theorem Noted.haltLevel {said : List (Level × String)} (h : Noted d d₁ said rs ns) :
    d₁.reporter.haltLevel = d.reporter.haltLevel := by
  obtain ⟨⟨xs, -, heq⟩, -⟩ := h
  rw [heq]
  exact Reporter.haltLevel_foldl_heard _ _

theorem Noted.trans {d₂ : Document} {said said' : List (Level × String)} {rs' ns' : List NodeId}
    (h : Noted d d₁ said rs ns) (h' : Noted d₁ d₂ said' rs' ns') (hf : d.forest.WellFormed)
    (hold : ∀ r ∈ rs', r < d.forest.size) (hnot : ∀ r' ∈ rs', ∀ r ∈ rs, ¬d.forest.Above r' r) :
    Noted d d₂ (said ++ said') (rs ++ rs') (ns ++ ns') := by
  obtain ⟨⟨xs, hxs, heq⟩, mark, hs⟩ := h
  obtain ⟨⟨xs', hxs', heq'⟩, mark', hs'⟩ := h'
  refine ⟨⟨xs ++ xs', by rw [List.map_append, hxs, hxs'], ?_⟩, _, hs.trans hs' hf hold hnot⟩
  rw [heq', heq, List.foldl_append]

/-- What is wrong with an old node is read off what it was. -/
theorem Noted.same {said : List (Level × String)} (h : Noted d d₁ said rs ns) (hr : r < d.forest.size) :
    d₁.complaint? r = d.complaint? r ∧ d₁.referent? r = d.referent? r := by
  obtain ⟨mark, hs⟩ := h.marked
  have hname : (d₁.node r).refname = (d.node r).refname :=
    hs.view_old Node.refname (fun _ _ => rfl) hr
  have huri : (d₁.node r).refuri = (d.node r).refuri := hs.view_old Node.refuri (fun _ _ => rfl) hr
  have hlookup : d₁.lookup = d.lookup := by
    funext name
    rw [Document.lookup, Document.lookup, h.names]
  have hseeks : (d₁.node r).seeks = (d.node r).seeks := by rw [Node.seeks, Node.seeks, hname, huri]
  refine ⟨?_, ?_⟩
  · rw [Document.complaint?, Document.complaint?, hseeks, hname, hlookup]
  · rw [Document.referent?, Document.referent?, hseeks, hname, hlookup]

/-- A reference is refused with an error and a mark. -/
theorem refuseReference_noted (htop : .error ≤ top) (hf : d.forest.WellFormed)
    (hr : r < d.forest.size) (text : String) :
    Reaches d.reporter.haltLevel top (fun _ d' => Noted d d' [(.error, text)] [r] [])
      (refuseReference r text d) := by
  refine (Build.raise_reaches htop text { base := some r } hf).bind
    fun msg d₁ ⟨x, hx, htext, hs, _, _, heq⟩ => ?_
  obtain ⟨g, m, hrun, hone⟩ :=
    markProblematic_marked hs.wellFormed (Nat.lt_of_lt_of_le hr hs.extended.size)
  have haside : d.forest.Marked d₁.forest [] [] id := .of_drafted hs
  rw [hrun]
  refine .ok ⟨⟨[x], ?_, by rw [heq]; rfl⟩, _, haside.trans hone hf
    (List.forall_mem_singleton.mpr hr) fun _ _ _ hmem => absurd hmem List.not_mem_nil⟩
  rw [List.map_singleton, Notice.said, hx, htext]

/-- One reference is refused, or what it refers to is known to be referred
    to, or nothing happens. -/
theorem checkReference_noted (htop : d.complaint? r ≠ none → .error ≤ top)
    (hf : d.forest.WellFormed) (hr : r < d.forest.size) :
    Reaches d.reporter.haltLevel top (fun _ d' => Noted d d'
        (([r].filterMap d.complaint?).map (Level.error, ·)) (d.refused [r])
        ([r].filterMap d.referent?))
      (checkReference r d) := by
  have hrun : checkReference r d = (if (d.node r).refname = "" || (d.node r).refuri ≠ "" then pure ⟨⟩
      else match d.lookup (d.node r).refname with
      | none => refuseReference r ("Unknown target name: \"" ++ (d.node r).refname ++ "\".")
      | some none => refuseReference r
          ("Duplicate target name, cannot be used as a unique reference: \""
            ++ (d.node r).refname ++ "\".")
      | some (some n) => Build.update n ({ · with referenced := true }) : Build Unit) d := by
    have hnode : Build.node r d = .ok (d.node r) d := rfl
    simp only [checkReference, Contract.bind_run, hnode]
    split
    · rfl
    · rfl
  have hseeks : (d.node r).seeks = !((d.node r).refname = "" || (d.node r).refuri ≠ "") := by
    simp [Node.seeks]
  rw [hrun]
  split
  · -- It has an address or no name, and nothing is said about it.
    rename_i hskip
    have hno : (d.node r).seeks = false := by rw [hseeks, hskip]; rfl
    have hnone : d.complaint? r = none ∧ d.referent? r = none := by
      simp [Document.complaint?, Document.referent?, hno]
    simp only [Document.refused, List.filterMap_cons, List.filterMap_nil, List.filter_cons, hnone]
    exact .ok (.refl hf)
  · rename_i hskip
    have hyes : (d.node r).seeks = true := by
      rw [hseeks, Bool.eq_false_iff.mpr hskip]
      rfl
    have hcomplaint : d.complaint? r = _ := if_pos hyes
    have hreferent : d.referent? r = _ := if_pos hyes
    cases hlookup : d.lookup (d.node r).refname with
    | none =>
      rw [hlookup] at hcomplaint hreferent
      simp only [Document.refused, List.filterMap_cons, List.filterMap_nil, List.filter_cons,
        hcomplaint, hreferent]
      exact refuseReference_noted (htop (by simp [hcomplaint])) hf hr _
    | some entry =>
      cases entry with
      | none =>
        rw [hlookup] at hcomplaint hreferent
        simp only [Document.refused, List.filterMap_cons, List.filterMap_nil, List.filter_cons,
          hcomplaint, hreferent]
        exact refuseReference_noted (htop (by simp [hcomplaint])) hf hr _
      | some n =>
        -- The name stands for one node, which is noted to be referred to.
        rw [hlookup] at hcomplaint hreferent
        simp only [Document.refused, List.filterMap_cons, List.filterMap_nil, List.filter_cons,
          hcomplaint, hreferent]
        have hnoted : d.forest.Marked (d.forest.modify n ({ · with referenced := true })) [] [n] id :=
          .note hf n
        exact .ok ⟨⟨[], rfl, rfl⟩, id, hnoted⟩

/-- References are dealt with one after the other, none after one below
    it. -/
theorem checkReferences_noted (htop : ∀ r ∈ rs, d.complaint? r ≠ none → .error ≤ top)
    (done : List NodeId) (hf : d.forest.WellFormed)
    (hs : Noted d d₁ ((done.filterMap d.complaint?).map (Level.error, ·)) (d.refused done)
      (done.filterMap d.referent?))
    (hpairwise : (done ++ rs).Pairwise d.forest.Precedes) (hin : ∀ r ∈ rs, r < d.forest.size) :
    Reaches d.reporter.haltLevel top (fun _ d' => Noted d d'
        (((done ++ rs).filterMap d.complaint?).map (Level.error, ·)) (d.refused (done ++ rs))
        ((done ++ rs).filterMap d.referent?))
      (rs.forM checkReference d₁) := by
  induction rs generalizing d₁ done with
  | nil =>
    rw [List.append_nil]
    exact .ok hs
  | cons r rs ih =>
    obtain ⟨hr, hin⟩ := List.forall_mem_cons.mp hin
    obtain ⟨mark, hmarked⟩ := hs.marked
    obtain ⟨htop, htops⟩ := List.forall_mem_cons.mp htop
    have hone := checkReference_noted (d := d₁) (by rw [(hs.same hr).1]; exact htop)
      hmarked.wellFormed (Nat.lt_of_lt_of_le hr hmarked.size)
    rw [hs.haltLevel] at hone
    refine hone.bind fun _ d₂ hd₂ => ?_
    have hsingle : ([r].filterMap d₁.complaint? = [r].filterMap d.complaint?) ∧
        d₁.refused [r] = d.refused [r] ∧ [r].filterMap d₁.referent? = [r].filterMap d.referent? := by
      obtain ⟨hcomplaint, hreferent⟩ := hs.same hr
      refine ⟨?_, ?_, ?_⟩
      · simp only [List.filterMap_cons, List.filterMap_nil, hcomplaint]
      · simp only [Document.refused, List.filter_cons, List.filter_nil, hcomplaint]
      · simp only [List.filterMap_cons, List.filterMap_nil, hreferent]
    rw [hsingle.1, hsingle.2.1, hsingle.2.2] at hd₂
    have hboth := hs.trans hd₂ hf
      (fun r' hr' => List.mem_singleton.mp (List.mem_of_mem_filter hr') ▸ hr)
      fun r' hr' r'' hr'' => hf.not_above_of_precedes ((List.pairwise_append.mp hpairwise).2.2 r''
        (List.mem_of_mem_filter hr'') r'
        (List.mem_singleton.mp (List.mem_of_mem_filter hr') ▸ List.mem_cons_self))
    rw [← List.map_append, ← List.filterMap_append, ← List.filterMap_append, Document.refused,
      Document.refused, ← List.filter_append] at hboth
    rw [List.append_cons] at hpairwise ⊢
    exact ih htops (done ++ [r]) hboth hpairwise hin

/-! ## Targets -/

/-- A target that nothing refers to is noted. -/
theorem checkTarget_noted (htop : .info ≤ top) (hf : d.forest.WellFormed) (t : NodeId) :
    Reaches d.reporter.haltLevel top (fun _ d' => Noted d d'
        (([t].filter fun t => (d.node t).overlooked).map fun t =>
          (Level.info, (d.node t).overlookedText)) [] [])
      (checkTarget t d) := by
  have hnode : Build.node t d = .ok (d.node t) d := rfl
  simp only [checkTarget, Contract.bind_run, hnode]
  have hoverlooked : (d.node t).overlooked
      = !((d.node t).referenced || (d.node t).anonymous) := by simp [Node.overlooked]
  split
  · rename_i hskip
    have hno : (d.node t).overlooked = false := by rw [hoverlooked, hskip]; rfl
    simp only [List.filter_cons, List.filter_nil, hno]
    exact .ok (.refl hf)
  · rename_i hskip
    have hyes : (d.node t).overlooked = true := by
      rw [hoverlooked, Bool.eq_false_iff.mpr hskip]
      rfl
    simp only [List.filter_cons, List.filter_nil, hyes]
    refine (Build.raise_reaches htop (d.node t).overlookedText { base := some t } hf).bind
      fun msg d₁ ⟨x, hx, htext, hs, _, _, heq⟩ => ?_
    have haside : d.forest.Marked d₁.forest [] [] id := .of_drafted hs
    refine .ok ⟨⟨[x], ?_, by rw [heq]; rfl⟩, id, haside⟩
    simp [Notice.said, hx, htext]

/-- Targets are looked at one after the other. -/
theorem checkTargets_noted (htop : .info ≤ top) (done ts : List NodeId) (hf : d.forest.WellFormed)
    (hs : Noted d d₁ ((done.filter fun t => (d.node t).overlooked).map fun t =>
      (Level.info, (d.node t).overlookedText)) [] [])
    (hin : ∀ t ∈ ts, t < d.forest.size) :
    Reaches d.reporter.haltLevel top (fun _ d' => Noted d d'
        (((done ++ ts).filter fun t => (d.node t).overlooked).map fun t =>
          (Level.info, (d.node t).overlookedText)) [] [])
      (ts.forM checkTarget d₁) := by
  induction ts generalizing d₁ done with
  | nil =>
    rw [List.append_nil]
    exact .ok hs
  | cons t ts ih =>
    obtain ⟨ht, hin⟩ := List.forall_mem_cons.mp hin
    obtain ⟨mark, hmarked⟩ := hs.marked
    have hone := checkTarget_noted htop hmarked.wellFormed t
    rw [hs.haltLevel] at hone
    refine hone.bind fun _ d₂ hd₂ => ?_
    have hsame : (d₁.node t).bare = (d.node t).bare :=
      (hmarked.bare t ht).trans (Node.noted_false _)
    have hsingle : (([t].filter fun t => (d₁.node t).overlooked).map fun t =>
        (Level.info, (d₁.node t).overlookedText))
        = ([t].filter fun t => (d.node t).overlooked).map fun t =>
          (Level.info, (d.node t).overlookedText) := by
      have hoverlooked : (d₁.node t).overlooked = (d.node t).overlooked := by
        have h := congrArg Node.overlooked hsame
        exact h
      have htext : (d₁.node t).overlookedText = (d.node t).overlookedText := by
        have h := congrArg Node.overlookedText hsame
        exact h
      simp only [List.filter_cons, List.filter_nil, hoverlooked]
      split <;> simp only [List.map_cons, List.map_nil, htext]
    rw [hsingle] at hd₂
    have hboth := hs.trans hd₂ hf (List.forall_mem_nil _) (List.forall_mem_nil _)
    rw [← List.map_append, ← List.filter_append] at hboth
    rw [List.append_cons]
    exact ih (done ++ [t]) hboth hin

/-! ## The pass -/

/-- Targets that nothing refers to any more are those that were overlooked. -/
theorem Noted.overlooked {said : List (Level × String)} (h : Noted d d₁ said (d.refused rs)
    (rs.filterMap d.referent?)) (root : NodeId) :
    (((d₁.forest.findAll .target root).filter fun t => (d₁.node t).overlooked).map fun t =>
      (Level.info, (d₁.node t).overlookedText))
      = (d.overlooked rs (d₁.forest.findAll .target root)).map fun t =>
        (Level.info, (d.node t).overlookedText) := by
  obtain ⟨mark, hs⟩ := h.marked
  have hold : ∀ t ∈ d₁.forest.findAll .target root, t < d.forest.size := fun t ht => by
    have hkind := of_decide_eq_true (List.mem_filter.mp ht).2
    by_contra hnew
    have hremark := hs.remarks t (Nat.le_of_not_lt hnew) (Forest.lt_size_of_kind (by decide) hkind)
    rw [hkind] at hremark
    cases hremark
  have hbare : ∀ t ∈ d₁.forest.findAll .target root, (d₁.node t).overlooked
      = ((d.node t).overlooked && decide (t ∉ rs.filterMap d.referent?)) ∧
      (d₁.node t).overlookedText = (d.node t).overlookedText := fun t ht => by
    have hbare := hs.bare t (hold t ht)
    have hoverlooked := congrArg Node.overlooked hbare
    have htext := congrArg Node.overlookedText hbare
    refine ⟨hoverlooked.trans ?_, htext⟩
    by_cases hmem : t ∈ rs.filterMap d.referent? <;>
      simp [Node.overlooked, Node.noted, Node.bare, Document.node, hmem]
  rw [Document.overlooked, List.filter_congr fun t ht => (hbare t ht).1]
  exact List.map_congr_left fun t ht => by rw [(hbare t (List.mem_of_mem_filter ht)).2]

/-- What the pass says and does. -/
theorem reportDangling_noted (hinfo : .info ≤ top)
    (htop : ∀ r ∈ d.references root, d.complaint? r ≠ none → .error ≤ top)
    (hf : d.forest.WellFormed) (hin : root < d.forest.size) :
    Reaches d.reporter.haltLevel top (fun _ d' => Noted d d'
        (((d.references root).filterMap d.complaint?).map (Level.error, ·) ++
          (d.overlooked (d.references root) (d'.forest.findAll .target root)).map fun t =>
            (Level.info, (d.node t).overlookedText))
        (d.refused (d.references root)) ((d.references root).filterMap d.referent?))
      (reportDangling root d) := by
  have hrefs := checkReferences_noted htop [] hf (.refl hf)
    (hf.pairwise_findOutsideDefinitions .reference root) fun r hr =>
    Forest.lt_size_of_kind (by decide) (hf.mem_findOutsideDefinitions.mp hr).2
  have hrun : reportDangling root d = ((d.references root).forM checkReference >>= fun _ =>
      (nodesOf .target root >>= fun ts => ts.forM checkTarget)) d := rfl
  rw [hrun]
  refine hrefs.bind fun _ d₁ hd₁ => ?_
  rw [List.nil_append] at hd₁
  obtain ⟨mark, hmarked⟩ := hd₁.marked
  have htargets := checkTargets_noted hinfo [] (d₁.forest.findAll .target root) hmarked.wellFormed
    (.refl hmarked.wellFormed) fun t ht =>
    Forest.lt_size_of_kind (by decide) (hmarked.wellFormed.mem_findAll.mp ht).2
  rw [hd₁.haltLevel] at htargets
  refine Reaches.mono htargets fun _ d₂ hd₂ => ?_
  obtain ⟨mark', hmarked'⟩ := hd₂.marked
  have hsame : d₂.forest.findAll .target root = d₁.forest.findAll .target root :=
    hmarked.wellFormed.findAll_congr hmarked'.wellFormed (P := (· < d₁.forest.size))
      (fun j _ c hc => hmarked.wellFormed.inside j c hc)
      (fun j hj => ⟨hmarked'.view_old Node.kind (fun _ _ => rfl) hj,
        (hmarked'.children j hj).trans (Forest.map_unmarked fun _ _ => List.not_mem_nil)⟩)
      (Nat.lt_of_lt_of_le hin hmarked.size)
  have hboth := hd₁.trans hd₂ hf (List.forall_mem_nil _) (List.forall_mem_nil _)
  rw [List.nil_append, hd₁.overlooked, List.append_nil, List.append_nil] at hboth
  rw [hsame]
  exact hboth

/-- **Dangling references are reported once each.**  For each reference
    outside substitution definitions whose name is unknown or ambiguous one
    error is raised, in document order, and a mark with its text takes its
    place.  Then one note is raised for each target of the tree, as it is
    then, that is not anonymous and that nothing is known to refer to.  No
    such reference is left, and the pass has no error to raise when it is
    done again. -/
theorem reportDangling_once (hf : d.forest.WellFormed) (hin : root < d.forest.size)
    (hroot : (d.node root).kind ≠ .reference) :
    Reaches d.reporter.haltLevel .error (fun _ d' => ∃ (errors notes : List Notice) (mark : NodeId → NodeId),
        errors.map Notice.said = ((d.references root).filterMap d.complaint?).map (Level.error, ·) ∧
        notes.map Notice.said = (d.overlooked (d.references root)
          (d'.forest.findAll .target root)).map (fun t => (Level.info, (d.node t).overlookedText)) ∧
        d' = { d with
          forest := d'.forest, reporter := (errors ++ notes).foldl Reporter.heard d.reporter } ∧
        d.forest.Marked d'.forest (d.refused (d.references root))
          ((d.references root).filterMap d.referent?) mark ∧
        (∀ r ∈ d'.references root, (d'.node r).seeks = true →
          ∃ n, d'.lookup (d'.node r).refname = some (some n)) ∧
        Reaches d'.reporter.haltLevel .info (fun _ d'' => ∃ notes : List Notice,
            (∀ x ∈ notes, x.level = .info) ∧ d'' = { d' with
              forest := d''.forest, reporter := notes.foldl Reporter.heard d'.reporter })
          (reportDangling root d'))
      (reportDangling root d) := by
  refine (reportDangling_noted (by decide) (fun _ _ _ => Int.le_refl _) hf hin).mono fun _ d' hd' => ?_
  obtain ⟨xs, hsaid, heq⟩ := hd'.heard
  obtain ⟨mark, hs⟩ := hd'.marked
  obtain ⟨errors, notes, rfl, herrors, hnotes⟩ := List.map_eq_append_iff.mp hsaid
  -- Of the references that are left, none is complained about.
  have hleft : ∀ r ∈ d'.references root, d'.complaint? r = none := fun r hr => by
    obtain ⟨hmem, hnot, hold⟩ := hs.left hf hroot hr
    rw [(hd'.same hold).1]
    by_contra hsome
    exact hnot (List.mem_filter.mpr ⟨hmem, Option.isSome_iff_ne_none.mpr hsome⟩)
  refine ⟨errors, notes, mark, herrors, hnotes, heq, hs, fun r hr =>
    Document.complaint?_eq_none_iff.mp (hleft r hr), ?_⟩
  have hagain := reportDangling_noted (Int.le_refl _) (fun r hr hsome => absurd (hleft r hr) hsome)
    hs.wellFormed (Nat.lt_of_lt_of_le hin hs.size)
  refine hagain.mono fun _ d'' hd'' => ?_
  obtain ⟨⟨xs, hsaid', heq'⟩, -⟩ := hd''
  rw [List.filterMap_eq_nil_iff.mpr hleft, List.map_nil, List.nil_append] at hsaid'
  refine ⟨xs, fun x hx => ?_, heq'⟩
  have hmem : x.said ∈ xs.map Notice.said := List.mem_map_of_mem hx
  rw [hsaid'] at hmem
  obtain ⟨t, -, ht⟩ := List.mem_map.mp hmem
  exact (congrArg Prod.fst ht).symm

/-- A reference to an unknown name and a target that nothing refers to. -/
theorem reportDangling_once_unknown :
    ∃ (d : Document) (x y : Notice) (g : Forest), d.forest.WellFormed ∧ d.references 0 = [1] ∧
      reportDangling 0 d
        = .ok ⟨⟩ { d with forest := g, reporter := [x, y].foldl Reporter.heard d.reporter } ∧
      x.said = (.error, "Unknown target name: \"x\".") ∧
      y.said = (.info, "Hyperlink target \"t\" is not referenced.") := by
  have h₁ := Forest.Edited.empty.element { kind := .document } [] nofun
  have h₂ := h₁.element { kind := .reference, refname := "x" } [] nofun
  have h₃ := h₂.element { kind := .paragraph } [1] (by decide)
  have h₄ := h₃.element { kind := .target, names := ["t"], refuri := "u" } [] nofun
  have h₅ := h₄.step (.append 0 (.own [2, 3])) ⟨by decide, by decide, fun c hc h => ?_⟩
  · generalize hforest : Forest.Edit.run _ _ = f at h₅
    let d : Document := { Document.new "" {} with forest := f }
    have hf : d.forest.WellFormed := h₅.wellFormed_of
    have hin : 0 < d.forest.size ∧ (d.node 0).kind ≠ .reference := by
      show 0 < f.size ∧ (f.get 0).kind ≠ .reference
      subst hforest
      decide
    have hrefs : d.references 0 = [1] := by
      show f.findOutsideDefinitions .reference 0 = [1]
      subst hforest
      decide +kernel
    have hwrong : [1].filterMap d.complaint? = ["Unknown target name: \"x\"."] ∧
        [1].filterMap d.referent? = [] := by
      subst hforest
      decide +kernel
    have htarget : (d.node 3).overlooked = true ∧
        (d.node 3).overlookedText = "Hyperlink target \"t\" is not referenced." := by
      subst hforest
      decide +kernel
    have hleft : (stateAfter (reportDangling 0) d).forest.findAll .target 0 = [3] := by
      subst hforest
      decide +kernel
    rw [stateAfter] at hleft
    have hrun := reportDangling_once hf hin.1 hin.2
    generalize hresult : reportDangling 0 d = result at hrun hleft
    cases hrun with
    | error known reached =>
      have hnever : Level.never ≤ .error := Int.le_trans reached known
      exact absurd hnever (by decide)
    | @ok _ d' h =>
      obtain ⟨errors, notes, mark, herrors, hnotes, heq, -⟩ := h
      have hnoted : d.overlooked [1] [3] = [3] := by
        rw [Document.overlooked, List.filter_cons, htarget.1, hwrong.2]
        rfl
      have hleft' : d'.forest.findAll .target 0 = [3] := hleft
      rw [hrefs, hwrong.1] at herrors
      rw [hrefs, hleft', hnoted] at hnotes
      obtain ⟨x, rfl, hx⟩ := List.map_eq_singleton_iff.mp herrors
      obtain ⟨y, rfl, hy⟩ := List.map_eq_singleton_iff.mp hnotes
      refine ⟨d, x, y, d'.forest, hf, hrefs, hresult.trans (congrArg _ heq), hx,
        hy.trans (congrArg (Prod.mk Level.info) htarget.2)⟩
  · -- The document has no parent, so nothing but itself stands above it.
    rcases h.eq_or with h | ⟨p, hp, -⟩
    · subst h
      revert hc
      decide
    · cases hp

end Pass

end MarkupLint
