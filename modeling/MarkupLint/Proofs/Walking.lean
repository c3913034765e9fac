import Mathlib.Data.List.Pairwise
import MarkupLint.Proofs.Shapes

/-! # Document order

    A walk meets the nodes of a tree in document order: a node before what
    stands below it, and what stands below one of two siblings before what
    stands below the other (`Precedes`).  A walk meets just the nodes that
    can be reached without passing one that is not entered
    (`mem_walk_iff`), each of them once (`nodup_walk`). -/

namespace MarkupLint

namespace Forest

variable {f g : Forest} {i j c p a b x y : NodeId} {enter : Node → Bool} {k : Kind}

/-! ## The way down -/

theorem Above.eq_or_child (h : f.Above i j) : j = i ∨ ∃ c, f.parent? c = some i ∧ f.Above c j := by
  induction h with
  | here => exact .inl rfl
  | @up j q hq _ ih =>
    rcases ih with rfl | ⟨c, hc, hcq⟩
    · exact .inr ⟨j, hq, .here⟩
    · exact .inr ⟨c, hc, .up hq hcq⟩

/-- Of two different nodes at most one is above the other. -/
theorem WellFormed.above_antisymm (hf : f.WellFormed) (hxy : f.Above x y) (hyx : f.Above y x) :
    x = y := by
  rcases hxy.eq_or with rfl | ⟨p, hp, hxp⟩
  · rfl
  · exact absurd (hyx.trans hxp) (Above.not_circle (hf.ends y) hp)

/-! ## Nodes met on a walk -/

theorem WellFormed.mem_walk_iff (hf : f.WellFormed) :
    j ∈ f.walk enter i ↔
      f.Above i j ∧ ∀ a, f.Above i a → f.Above a j → a = j ∨ enter (f.get a) = true := by
  refine ⟨fun h => ⟨hf.above_of_mem_walk h, fun a hia haj => ?_⟩, fun h => ?_⟩
  · rcases hf.enter_of_mem_walk h haj with heq | hin | ⟨p, hp, hap⟩
    · exact .inl heq
    · exact .inr hin
    · exact absurd (hia.trans hap) (Above.not_circle (hf.ends i) hp)
  have hwithin := hf.within i
  generalize f.size + 1 = n at hwithin
  induction n generalizing i with
  | zero => exact hwithin.elim
  | succ n ih =>
    obtain ⟨habove, henter⟩ := h
    rw [hf.walk_eq]
    rcases habove.eq_or_child with rfl | ⟨c, hc, hcj⟩
    · split <;> simp
    · have hmem : c ∈ f.children i := (hf.linked.mem_iff c i).mpr hc
      have hne : i ≠ j := fun heq => hcj.not_circle (hf.ends c) (heq ▸ hc)
      have hin := (henter i .here habove).resolve_left hne
      rw [if_pos hin]
      refine List.mem_cons_of_mem _ (List.mem_flatMap.mpr ⟨c, hmem, ih ⟨hcj, fun a hca haj => ?_⟩
        (hwithin c hmem)⟩)
      exact henter a ((Above.up hc .here).trans hca) haj

theorem WellFormed.mem_findAll (hf : f.WellFormed) :
    j ∈ f.findAll k i ↔ f.Above i j ∧ (f.get j).kind = k := by
  rw [findAll, List.mem_filter, hf.mem_walk_iff, decide_eq_true_iff]
  exact and_congr_left fun _ => and_iff_left fun _ _ _ => .inr rfl

theorem WellFormed.mem_findOutsideDefinitions (hf : f.WellFormed) :
    j ∈ f.findOutsideDefinitions k i ↔
      (f.Above i j ∧ ∀ a, f.Above i a → f.Above a j →
        a = j ∨ (f.get a).kind ≠ .substitutionDefinition) ∧ (f.get j).kind = k := by
  rw [findOutsideDefinitions, List.mem_filter, hf.mem_walk_iff, decide_eq_true_iff]
  simp only [decide_eq_true_iff]

/-- The same nodes are met if they have the same kinds and children. -/
theorem WellFormed.findAll_congr (hf : f.WellFormed) (hg : g.WellFormed) {P : NodeId → Prop}
    (hclosed : ∀ j, P j → ∀ c ∈ f.children j, P c)
    (hagree : ∀ j, P j → (g.get j).kind = (f.get j).kind ∧ g.children j = f.children j) (hi : P i) :
    g.findAll k i = f.findAll k i := by
  have hwithin := hf.within i
  generalize f.size + 1 = n at hwithin
  induction n generalizing i with
  | zero => exact hwithin.elim
  | succ n ih =>
    have hbelow : (f.children i).flatMap (g.findAll k) = (f.children i).flatMap (f.findAll k) :=
      List.flatMap_congr fun c hc => ih (hclosed i hi c hc) (hwithin c hc)
    have hunfold : ∀ {h : Forest}, h.WellFormed → h.findAll k i
        = (if (h.get i).kind = k then [i] else []) ++ (h.children i).flatMap (h.findAll k) := by
      intro h hh
      rw [findAll, hh.walk_eq, if_pos rfl, List.filter_cons, List.filter_flatMap]
      by_cases hkind : (h.get i).kind = k <;> simp [hkind] <;> rfl
    rw [hunfold hf, hunfold hg, (hagree i hi).1, (hagree i hi).2, hbelow]

/-! ## Order -/

/-- The nodes stand below two siblings, or are siblings themselves, the
    first before the second. -/
def Before (f : Forest) (x y : NodeId) : Prop :=
  ∃ p a b, [a, b].Sublist (f.children p) ∧ f.Above a x ∧ f.Above b y

/-- The first node comes before the second in document order. -/
def Precedes (f : Forest) (x y : NodeId) : Prop := (x ≠ y ∧ f.Above x y) ∨ f.Before x y

/-- Siblings, one before the other, have nothing below them in common. -/
theorem WellFormed.apart_of_sublist (hf : f.WellFormed) (h : [a, b].Sublist (f.children p))
    (hax : f.Above a x) : ¬f.Above b x := by
  have hne : a ≠ b := (List.pairwise_pair.mp ((hf.linked.nodup p).sublist h))
  exact hf.apart_of_siblings (hf.only a p (h.subset (by simp))) (hf.only b p (h.subset (by simp)))
    hne hax

/-- Of what comes before a node, nothing stands below it. -/
theorem WellFormed.not_above_of_precedes (hf : f.WellFormed) (h : f.Precedes x y) :
    ¬f.Above y x := by
  intro hyx
  rcases h with ⟨hne, hxy⟩ | ⟨p, a, b, hab, hax, hby⟩
  · exact hne (hf.above_antisymm hxy hyx)
  · exact hf.apart_of_sublist hab hax (hby.trans hyx)

/-- Of two siblings one comes first. -/
theorem WellFormed.not_sublist_swap (hf : f.WellFormed) (hab : [a, b].Sublist (f.children p)) :
    ¬[b, a].Sublist (f.children p) := by
  intro hba
  obtain ⟨l, r, hlr, hal, hbr⟩ := List.cons_sublist_iff.mp hab
  obtain ⟨l', r', hlr', hbl, har⟩ := List.cons_sublist_iff.mp hba
  rw [List.singleton_sublist] at hbr har
  have hdisjoint := (List.nodup_append'.mp (hlr ▸ hf.linked.nodup p)).2.2
  have hdisjoint' := (List.nodup_append'.mp (hlr' ▸ hf.linked.nodup p)).2.2
  rcases List.append_eq_append_iff.mp (hlr.symm.trans hlr') with ⟨_, rfl, -⟩ | ⟨_, rfl, -⟩
  · exact hdisjoint' (List.mem_append_left _ hal) har
  · exact hdisjoint (List.mem_append_left _ hbl) hbr

/-- Of what comes before a node, nothing comes after it. -/
theorem WellFormed.not_before_of_precedes (hf : f.WellFormed) (h : f.Precedes x y) :
    ¬f.Before y x := by
  rintro ⟨q, c, e, hce, hcy, hex⟩
  rcases h with ⟨-, hxy⟩ | ⟨p, a, b, hab, hax, hby⟩
  · exact hf.apart_of_sublist hce hcy (hex.trans hxy)
  have ha : f.parent? a = some p := hf.only a p (hab.subset (by simp))
  have hb : f.parent? b = some p := hf.only b p (hab.subset (by simp))
  have hc : f.parent? c = some q := hf.only c q (hce.subset (by simp))
  have he : f.parent? e = some q := hf.only e q (hce.subset (by simp))
  have haq : ¬f.Above a q := fun h =>
    hf.apart_of_sublist hab (h.trans ((Above.up hc .here).trans hcy)) hby
  have hep : ¬f.Above e p := fun h =>
    hf.apart_of_sublist hce hcy (h.trans ((Above.up hb .here).trans hby))
  -- Both `a` and `e` stand above `x`, so they are the same child of one node.
  obtain rfl : a = e := by
    by_contra hne
    rcases hax.total hex with hae | hea
    · obtain ⟨q', hq', haq'⟩ := hae.eq_or.resolve_left (Ne.symm hne)
      exact haq (Option.some.inj (he.symm.trans hq') ▸ haq')
    · obtain ⟨p', hp', hep'⟩ := hea.eq_or.resolve_left hne
      exact hep (Option.some.inj (ha.symm.trans hp') ▸ hep')
  obtain rfl := Option.some.inj (ha.symm.trans he)
  obtain rfl : b = c := by
    by_contra hne
    exact hf.apart_of_siblings hb hc hne hby hcy
  exact hf.not_sublist_swap hab hce

/-- A walk meets nodes in document order: by induction on the levels below,
    and at each level the children stand in their order. -/
theorem WellFormed.pairwise_walk (hf : f.WellFormed) (enter : Node → Bool) (i : NodeId) :
    (f.walk enter i).Pairwise f.Precedes := by
  have hwithin := hf.within i
  generalize f.size + 1 = n at hwithin
  induction n generalizing i with
  | zero => exact hwithin.elim
  | succ n ih =>
    rw [hf.walk_eq]
    split
    · refine List.pairwise_cons.mpr ⟨fun y hy => ?_, List.pairwise_flatMap.mpr
        ⟨fun c hc => ih c (hwithin c hc), List.pairwise_iff_forall_sublist.mpr ?_⟩⟩
      · obtain ⟨c, hc, hy⟩ := List.mem_flatMap.mp hy
        have hcy := hf.above_of_mem_walk hy
        have hparent := hf.only c i hc
        exact .inl ⟨fun heq => hcy.not_circle (hf.ends c) (heq ▸ hparent),
          (Above.up hparent .here).trans hcy⟩
      · exact fun hab x hx y hy =>
          .inr ⟨i, _, _, hab, hf.above_of_mem_walk hx, hf.above_of_mem_walk hy⟩
    · exact List.pairwise_singleton _ _

theorem WellFormed.nodup_walk (hf : f.WellFormed) (enter : Node → Bool) (i : NodeId) :
    (f.walk enter i).Nodup :=
  (hf.pairwise_walk enter i).imp fun {x y} h (heq : x = y) =>
    hf.not_above_of_precedes h (heq ▸ .here)

theorem WellFormed.pairwise_findAll (hf : f.WellFormed) (k : Kind) (i : NodeId) :
    (f.findAll k i).Pairwise f.Precedes :=
  (hf.pairwise_walk _ i).filter _

theorem WellFormed.pairwise_findOutsideDefinitions (hf : f.WellFormed) (k : Kind) (i : NodeId) :
    (f.findOutsideDefinitions k i).Pairwise f.Precedes :=
  (hf.pairwise_walk _ i).filter _

end Forest

end MarkupLint
