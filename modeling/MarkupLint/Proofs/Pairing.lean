import MarkupLint.Proofs.Marking

/-! # Anonymous references and their targets

    Anonymous references and anonymous targets belong to each other by their
    order in the document.  Pairs have no node in common, so what one pair
    becomes does not depend on the others (`Paired`); references that cannot
    be paired are marked in document order (`Pass.markProblematic_each`). -/

namespace MarkupLint

/-- The reference, leading where a target leads: to its address, or else to
    the name it refers to, or else to an identifier. -/
def Node.pairedWith (r t : Node) : Node :=
  if t.refuri ≠ "" then { r with anonymous := false, refuri := t.refuri }
  else if t.refname ≠ "" then { r with anonymous := false, refname := t.refname }
  else { r with anonymous := false }.setAttr "refid" "anonymous"

namespace Document

/-- The anonymous references outside substitution definitions, in document
    order. -/
def anonymousReferences (d : Document) (root : NodeId) : List NodeId :=
  (d.forest.findOutsideDefinitions .reference root).filter fun i => (d.node i).anonymous

/-- The anonymous targets in document order. -/
def anonymousTargets (d : Document) (root : NodeId) : List NodeId :=
  (d.forest.findAll .target root).filter fun i => (d.node i).anonymous

end Document

namespace Pass

variable {d : Document} {f g : Forest} {r t : NodeId}

/-! ## Pairs -/

/-- Every reference of some pairs leads where its target leads, every target
    is referred to, and nothing else happened. -/
structure Paired (f g : Forest) (pairs : List (NodeId × NodeId)) : Prop where
  size : g.size = f.size
  refs : ∀ r t, (r, t) ∈ pairs → g.get r = (f.get r).pairedWith (f.get t)
  targets : ∀ r t, (r, t) ∈ pairs → g.get t = { f.get t with referenced := true }
  others : ∀ j, (∀ r t, (r, t) ∈ pairs → j ≠ r ∧ j ≠ t) → g.get j = f.get j

theorem pair_run (hr : r < d.forest.size) (ht : t < d.forest.size) (hne : r ≠ t) :
    ∃ g, pair r t d = .ok ⟨⟩ { d with forest := g } ∧ Paired d.forest g [(r, t)] := by
  let paired (m : Node) : Node :=
    let m := { m with anonymous := false }
    if (d.forest.get t).refuri ≠ "" then { m with refuri := (d.forest.get t).refuri }
    else if (d.forest.get t).refname ≠ "" then { m with refname := (d.forest.get t).refname }
    else m.setAttr "refid" "anonymous"
  have hget : ∀ j, ((d.forest.modify t ({ · with referenced := true })).modify r paired).get j =
      if j = r then (d.forest.get r).pairedWith (d.forest.get t)
      else if j = t then { d.forest.get t with referenced := true } else d.forest.get j := by
    intro j
    rw [Forest.get_modify, Forest.get_modify, Forest.size_modify]
    by_cases hjr : j = r
    · subst hjr
      simp only [hr, Ne.symm hne, and_true, if_true, if_false]
      rfl
    · by_cases hjt : j = t
      · subst hjt
        simp [ht, hne, hjr]
      · simp [hjr, hjt, Ne.symm hjr, Ne.symm hjt]
  refine ⟨_, rfl, ⟨by simp, ?_, ?_, fun j hj => ?_⟩⟩
  · simp only [List.mem_singleton, Prod.mk.injEq, and_imp, forall_eq_apply_imp_iff, forall_eq]
    exact (hget r).trans (if_pos rfl)
  · simp only [List.mem_singleton, Prod.mk.injEq, and_imp, forall_eq_apply_imp_iff, forall_eq]
    exact (hget t).trans ((if_neg (Ne.symm hne)).trans (if_pos rfl))
  · obtain ⟨hjr, hjt⟩ := hj r t (List.mem_singleton_self _)
    exact (hget j).trans ((if_neg hjr).trans (if_neg hjt))

/-- Pairs without nodes in common become what each of them becomes. -/
theorem pairs_run (pairs : List (NodeId × NodeId)) (hfst : (pairs.map Prod.fst).Nodup)
    (hsnd : (pairs.map Prod.snd).Nodup)
    (hin : ∀ p ∈ pairs, p.1 < d.forest.size ∧ p.2 < d.forest.size)
    (hapart : ∀ p ∈ pairs, ∀ q ∈ pairs, p.1 ≠ q.2) :
    ∃ g, (pairs.forM (fun (r, t) => pair r t) : Build Unit) d = .ok ⟨⟩ { d with forest := g } ∧
      Paired d.forest g pairs := by
  induction pairs generalizing d with
  | nil => exact ⟨d.forest, rfl, ⟨rfl, by simp, by simp, fun _ _ => rfl⟩⟩
  | cons p pairs ih =>
    obtain ⟨r, t⟩ := p
    obtain ⟨hr, hfst⟩ := List.nodup_cons.mp hfst
    obtain ⟨ht, hsnd⟩ := List.nodup_cons.mp hsnd
    obtain ⟨⟨hrin, htin⟩, hin⟩ := List.forall_mem_cons.mp hin
    obtain ⟨g, hrun, hone⟩ := pair_run hrin htin (hapart _ List.mem_cons_self _ List.mem_cons_self)
    obtain ⟨h, hruns, hrest⟩ := ih (d := { d with forest := g }) hfst hsnd
      (fun p hp => by rw [hone.size]; exact hin p hp)
      fun p hp q hq => hapart p (List.mem_cons_of_mem _ hp) q (List.mem_cons_of_mem _ hq)
    -- The nodes of the other pairs are neither `r` nor `t`.
    have hother : ∀ r' t', (r', t') ∈ pairs → (r' ≠ r ∧ r' ≠ t) ∧ (t' ≠ r ∧ t' ≠ t) := by
      intro r' t' hmem
      have hmem' := List.mem_cons_of_mem (r, t) hmem
      refine ⟨⟨fun heq => hr (List.mem_map.mpr ⟨_, hmem, heq⟩), ?_⟩, ?_, fun heq => ?_⟩
      · exact hapart _ hmem' _ List.mem_cons_self
      · exact (hapart _ List.mem_cons_self _ hmem').symm
      · exact ht (List.mem_map.mpr ⟨_, hmem, heq⟩)
    have hkeep : ∀ j, j ≠ r ∧ j ≠ t → g.get j = d.forest.get j := fun j hj =>
      hone.others j fun r' t' hmem => by
        obtain ⟨rfl, rfl⟩ := Prod.mk.inj (List.mem_singleton.mp hmem)
        exact hj
    refine ⟨h, ?_, ⟨hrest.size.trans hone.size, fun r' t' hmem => ?_, fun r' t' hmem => ?_,
      fun j hj => ?_⟩⟩
    · show (pair r t >>= fun _ => pairs.forM fun (r, t) => pair r t) d = _
      rw [Contract.bind_run, hrun]
      exact hruns
    · rcases List.mem_cons.mp hmem with heq | hmem
      · obtain ⟨rfl, rfl⟩ := Prod.mk.inj heq
        rw [hrest.others _ fun r' t' hmem => ⟨(hother r' t' hmem).1.1.symm, (hother r' t' hmem).2.1.symm⟩]
        exact hone.refs _ _ (List.mem_singleton_self _)
      · rw [hrest.refs r' t' hmem, hkeep r' (hother r' t' hmem).1, hkeep t' (hother r' t' hmem).2]
    · rcases List.mem_cons.mp hmem with heq | hmem
      · obtain ⟨rfl, rfl⟩ := Prod.mk.inj heq
        rw [hrest.others _ fun r' t' hmem => ⟨(hother r' t' hmem).1.2.symm, (hother r' t' hmem).2.2.symm⟩]
        exact hone.targets _ _ (List.mem_singleton_self _)
      · rw [hrest.targets r' t' hmem, hkeep t' (hother r' t' hmem).2]
    · rw [hrest.others j fun r' t' hmem => hj r' t' (List.mem_cons_of_mem _ hmem)]
      exact hkeep j (hj r t List.mem_cons_self)

/-! ## Marks -/

/-- Nodes are marked one after the other, none after a node below it. -/
theorem markProblematic_each {ns : List NodeId} {mark : NodeId → NodeId} (done rs : List NodeId)
    (hf : f.WellFormed) (hs : f.Marked d.forest done ns mark)
    (hpairwise : (done ++ rs).Pairwise f.Precedes) (hin : ∀ r ∈ rs, r < f.size) :
    ∃ g mark', rs.forM markProblematic d = .ok ⟨⟩ { d with forest := g } ∧
      f.Marked g (done ++ rs) ns mark' := by
  induction rs generalizing d done mark with
  | nil => exact ⟨d.forest, mark, rfl, by rwa [List.append_nil]⟩
  | cons r rs ih =>
    obtain ⟨hr, hin⟩ := List.forall_mem_cons.mp hin
    obtain ⟨g, m, hrun, hone⟩ :=
      markProblematic_marked hs.wellFormed (Nat.lt_of_lt_of_le hr hs.size)
    have hboth := hs.trans hone hf (List.forall_mem_singleton.mpr hr)
      (List.forall_mem_singleton.mpr fun r' hr' => hf.not_above_of_precedes
        ((List.pairwise_append.mp hpairwise).2.2 r' hr' r List.mem_cons_self))
    rw [List.append_nil] at hboth
    rw [List.append_cons] at hpairwise
    obtain ⟨h, mark', hruns, hall⟩ := ih (d := { d with forest := g }) (done ++ [r]) hboth hpairwise hin
    refine ⟨h, mark', ?_, by rwa [List.append_cons]⟩
    show (markProblematic r >>= fun _ => rs.forM markProblematic) d = _
    rw [Contract.bind_run, hrun]
    exact hruns

/-! ## The pass -/

/-- The complaint about numbers of references and targets that differ. -/
def mismatch (references targets : Nat) : String :=
  "Anonymous hyperlink mismatch: " ++ Text.natText references ++ " references but "
    ++ Text.natText targets ++ " targets.\nSee \"backrefs\" attribute for IDs."

/-- **Anonymous references pair up in order or not at all.**  If there are
    as many anonymous references outside substitution definitions as there
    are anonymous targets, the pass raises nothing, the references lead where
    the targets at the same positions lead, all of these targets are referred
    to, and no other node changes.  Otherwise one error is raised that states
    both numbers, a mark with its text takes the place of each of these
    references, and nothing else in the tree changes. -/
theorem pairAnonymous_pairs (hf : d.forest.WellFormed) (root : NodeId) :
    let refs := d.anonymousReferences root
    let targets := d.anonymousTargets root
    (refs.length = targets.length →
      ∃ g, pairAnonymous root d = .ok ⟨⟩ { d with forest := g } ∧ g.size = d.forest.size ∧
        (∀ (i : Nat) (r t : NodeId), refs[i]? = some r → targets[i]? = some t →
          g.get r = (d.node r).pairedWith (d.node t)) ∧
        (∀ t ∈ targets, g.get t = { d.node t with referenced := true }) ∧
        ∀ j, j ∉ refs → j ∉ targets → g.get j = d.forest.get j) ∧
    (refs.length ≠ targets.length →
      Reaches d.reporter.haltLevel .error (fun _ d' => ∃ (x : Notice) (mark : NodeId → NodeId),
          x.level = .error ∧ x.text = mismatch refs.length targets.length ∧
          d' = { d with forest := d'.forest, reporter := d.reporter.heard x } ∧
          d.forest.Marked d'.forest refs [] mark)
        (pairAnonymous root d)) := by
  intro refs targets
  have hrun : pairAnonymous root d = (if refs.length ≠ targets.length then do
      let _ ← Build.raise .error (mismatch refs.length targets.length)
      refs.forM markProblematic
    else (refs.zip targets).forM fun (r, t) => pair r t : Build Unit) d := rfl
  have hpairwise : refs.Pairwise d.forest.Precedes :=
    (hf.pairwise_findOutsideDefinitions .reference root).filter _
  have hnodupRefs : refs.Nodup := ((hf.nodup_walk _ root).filter _).filter _
  have hnodup : targets.Nodup := ((hf.nodup_walk _ root).filter _).filter _
  have hreference : ∀ r ∈ refs, (d.forest.get r).kind = .reference := fun r hr =>
    (hf.mem_findOutsideDefinitions.mp (List.mem_of_mem_filter hr)).2
  have htarget : ∀ t ∈ targets, (d.forest.get t).kind = .target := fun t ht =>
    (hf.mem_findAll.mp (List.mem_of_mem_filter ht)).2
  clear_value refs targets
  rw [hrun]
  refine ⟨fun hlength => ?_, fun hlength => ?_⟩
  · rw [if_neg (not_not_intro hlength)]
    have hzip : ∀ p ∈ refs.zip targets, p.1 ∈ refs ∧ p.2 ∈ targets := fun p hp =>
      ⟨(List.of_mem_zip hp).1, (List.of_mem_zip hp).2⟩
    obtain ⟨g, hpairs, hpaired⟩ := pairs_run (d := d) (refs.zip targets)
      (by rwa [List.map_fst_zip (Nat.le_of_eq hlength)])
      (by rwa [List.map_snd_zip (Nat.le_of_eq hlength.symm)])
      (fun p hp => ⟨Forest.lt_size_of_kind (by decide) (hreference _ (hzip p hp).1),
        Forest.lt_size_of_kind (by decide) (htarget _ (hzip p hp).2)⟩)
      (fun p hp q hq heq => by
        have hkind := hreference _ (hzip p hp).1
        rw [heq, htarget _ (hzip q hq).2] at hkind
        cases hkind)
    refine ⟨g, hpairs, hpaired.size, fun i r t hr ht => ?_, fun t ht => ?_, fun j hjr hjt => ?_⟩
    · exact hpaired.refs r t (List.mem_of_getElem? (List.getElem?_zip_eq_some.mpr ⟨hr, ht⟩))
    · obtain ⟨i, hi, rfl⟩ := List.getElem_of_mem ht
      have hi' : i < refs.length := hlength ▸ hi
      exact hpaired.targets refs[i] _ (List.mem_of_getElem? (i := i)
        (List.getElem?_zip_eq_some.mpr ⟨List.getElem?_eq_getElem hi', List.getElem?_eq_getElem hi⟩))
    · refine hpaired.others j fun r t hmem => ⟨fun heq => ?_, fun heq => ?_⟩
      · exact hjr (heq ▸ (hzip _ hmem).1)
      · exact hjt (heq ▸ (hzip _ hmem).2)
  · rw [if_pos hlength]
    have hlevel : Level.error ≤ .error := by decide
    have hraise := Build.raise_reaches hlevel (mismatch refs.length targets.length) {} hf
    refine hraise.bind fun msg d₁ ⟨x, hx, htext, hs, _, _, heq⟩ => ?_
    have haside : d.forest.Marked d₁.forest [] [] id := .of_drafted hs
    obtain ⟨g, mark, hmarks, hmarked⟩ := markProblematic_each [] refs hf haside hpairwise
      fun r hr => Forest.lt_size_of_kind (by decide) (hreference r hr)
    rw [hmarks]
    exact .ok ⟨x, mark, hx, htext, by rw [heq], hmarked⟩

/-- A reference in a paragraph and the target after it. -/
theorem pairAnonymous_pairs_one :
    ∃ d : Document, d.forest.WellFormed ∧ d.anonymousReferences 0 = [1] ∧
      d.anonymousTargets 0 = [3] ∧ ∃ g, pairAnonymous 0 d = .ok ⟨⟩ { d with forest := g } ∧
      (g.get 1).refuri = "u" ∧ (g.get 1).anonymous = false ∧ (g.get 3).referenced = true := by
  have h₁ := Forest.Edited.empty.element { kind := .document } [] nofun
  have h₂ := h₁.element { kind := .reference, anonymous := true } [] nofun
  have h₃ := h₂.element { kind := .paragraph } [1] (by decide)
  have h₄ := h₃.element { kind := .target, anonymous := true, refuri := "u" } [] nofun
  have h₅ := h₄.step (.append 0 (.own [2, 3])) ⟨by decide, by decide, fun c hc h => ?_⟩
  · generalize hforest : Forest.Edit.run _ _ = f at h₅
    let d : Document := { Document.new "" {} with forest := f }
    have hf : d.forest.WellFormed := h₅.wellFormed_of
    have hrefs : d.anonymousReferences 0 = [1] := by
      show ((f.findOutsideDefinitions .reference 0).filter fun i => (f.get i).anonymous) = [1]
      subst hforest
      decide +kernel
    have htargets : d.anonymousTargets 0 = [3] := by
      show ((f.findAll .target 0).filter fun i => (f.get i).anonymous) = [3]
      subst hforest
      decide +kernel
    have huri : (f.get 3).refuri = "u" := by
      subst hforest
      decide +kernel
    obtain ⟨g, hrun, -, hpaired, hreferenced, -⟩ :=
      (pairAnonymous_pairs hf 0).1 (by rw [hrefs, htargets]; rfl)
    rw [hrefs, htargets] at hpaired
    have hone : g.get 1 = (f.get 1).pairedWith (f.get 3) := hpaired 0 1 3 rfl rfl
    have htwo := hreferenced 3 (by rw [htargets]; exact List.mem_singleton_self 3)
    have hne : (f.get 3).refuri ≠ "" := by rw [huri]; decide
    rw [Node.pairedWith, if_pos hne] at hone
    exact ⟨d, hf, hrefs, htargets, g, hrun, by rw [hone]; exact huri, by rw [hone], by rw [htwo]⟩
  · -- The document has no parent, so nothing but itself stands above it.
    rcases h.eq_or with h | ⟨p, hp, -⟩
    · subst h
      revert hc
      decide
    · cases hp

end Pass

end MarkupLint
