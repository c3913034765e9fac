import MarkupLint.Proofs.Marking

/-! # Transitions that change their place

    A transition may be lifted behind a node above it, and an error may be
    put among the children of any node (`Forest.Rearranged`).  Both put one
    node between two runs of siblings (`Forest.Inserted`).  What is not
    lifted keeps its parent, what is above it, and its order, so document
    order among such nodes is that of the beginning
    (`Rearranged.before_old`). -/

namespace MarkupLint

namespace Forest

variable {o f g h : Forest} {a b c i j k m n p q x y root : NodeId}
  {u v rest first post is moved todo : List NodeId}

/-! ## One node more -/

/-- From `f` to `g`, a node was put among the children of `p`, between `u`
    and `v`. -/
structure Inserted (f g : Forest) (n p : NodeId) (u v : List NodeId) : Prop where
  size : g.size = f.size
  wellFormed : g.WellFormed
  bare : ∀ j, (g.get j).bare = (f.get j).bare
  parent : ∀ j, g.parent? j = if j = n then some p else f.parent? j
  children : ∀ j, g.children j = if j = p then u ++ n :: v else f.children j
  siblings : f.children p = u ++ v

/-- A node that stands nowhere can be put anywhere but below itself. -/
theorem WellFormed.inserted (hf : f.WellFormed) (hp : p < f.size) (hn : n < f.size)
    (hnone : f.parent? n = none) (hbelow : ¬f.Above n p) (hkids : f.children p = u ++ v) :
    f.Inserted (f.insert p u.length [n]) n p u v := by
  have hsingle : ∀ c ∈ [n], c < f.size := List.forall_mem_singleton.mpr hn
  have hrehung := rehung_insert hf.linked hp hsingle u.length
  have hnowhere : ∀ j, (f.children j).filter (· ∉ [n]) = f.children j := fun j => by
    refine List.filter_eq_self.mpr fun c hc => decide_eq_true fun hcn => ?_
    obtain rfl := List.mem_singleton.mp hcn
    rw [hf.only c j hc] at hnone
    cases hnone
  refine ⟨hrehung.size,
    hf.insert ⟨hp, List.nodup_singleton n, hsingle, List.forall_mem_singleton.mpr hbelow⟩ _,
    hrehung.bare, fun j => ?_, fun j => ?_, hkids⟩
  · simpa only [List.mem_singleton] using hrehung.parent j
  · have hlength : min (u.length : Int).toNat (f.children p).length = u.length := by
      rw [hkids, List.length_append]
      omega
    rw [hrehung.children, hnowhere, hnowhere, hlength, hkids]
    simp

/-- The children that were there keep their order. -/
theorem Inserted.filter_children (hi : f.Inserted g n p u v) {P : NodeId → Bool}
    (hn : P n = false) (q : NodeId) :
    (g.children q).filter P = (f.children q).filter P := by
  rw [hi.children]
  split
  · rename_i hq
    rw [hq, hi.siblings, List.filter_append, List.filter_append, List.filter_cons, hn]
    simp
  · rfl

/-- From `f` to `g`, a new error was put among the children of `p`, between
    `u` and `v`. -/
structure Complained (f g : Forest) (m p : NodeId) (u v : List NodeId) : Prop where
  drafted : ∃ aside, Build.Drafted f aside [m] ∧ aside.Inserted g m p u v
  kind : (g.get m).kind = .systemMessage
  level : (g.get m).level = .error

theorem Complained.kind_old (hm : f.Complained g m p u v) (hj : j < f.size) :
    (g.get j).kind = (f.get j).kind := by
  obtain ⟨aside, hs, hi⟩ := hm.drafted
  rw [kind_of_bare (hi.bare j), hs.extended.old j hj]

theorem level_of_bare (h : (g.get i).bare = (f.get j).bare) : (g.get i).level = (f.get j).level := by
  have hlevel := congrArg Node.level h
  exact hlevel

/-- A new error that stands aside can be put anywhere among old nodes. -/
theorem WellFormed.complained (hf : f.WellFormed) (hs : Build.Drafted f g [m])
    (hkind : (g.get m).kind = .systemMessage) (hlevel : (g.get m).level = .error) (hp : p < f.size)
    (hkids : f.children p = u ++ v) : f.Complained (g.insert p u.length [m]) m p u v := by
  have hm := List.mem_singleton_self m
  have haside : f.Marked g [] [] id := .of_drafted hs
  have hbelow : ¬g.Above m p := fun h =>
    absurd (hf.lt_size_of_above hp (haside.above_old hf hp h)) (Nat.not_lt.mpr (hs.new m hm))
  have hkids' : g.children p = u ++ v := by
    rw [children, hs.extended.old p hp]
    exact hkids
  have hi := hs.wellFormed.inserted (Nat.lt_of_lt_of_le hp hs.extended.size) (hs.inside m hm).1
    (hs.inside m hm).2 hbelow hkids'
  exact ⟨⟨g, hs, hi⟩, (kind_of_bare (hi.bare m)).trans hkind,
    (level_of_bare (hi.bare m)).trans hlevel⟩

/-! ## Rearranged trees -/

/-- From `o` to `f`, the transitions `moved` were lifted behind nodes above
    them, and new errors were put among the children of nodes; nothing else
    that was there changed. -/
structure Rearranged (o f : Forest) (root : NodeId) (moved : List NodeId) : Prop where
  size : o.size ≤ f.size
  wellFormed : f.WellFormed
  bare : ∀ j < o.size, (f.get j).bare = (o.get j).bare
  parent : ∀ j < o.size, j ∉ moved → f.parent? j = o.parent? j
  order : ∀ q, (f.children q).filter (fun c => c < o.size ∧ c ∉ moved)
    = (o.children q).filter (· ∉ moved)
  lifted : ∀ k ∈ moved, ((o.get k).kind = .transition ∧ o.children k = []) ∧
    ∃ q, f.parent? k = some q ∧ o.Above root q ∧ o.Above q k ∧ q ≠ k
  added : ∀ q < o.size, ∀ c ∈ f.children q, o.size ≤ c →
    (f.get c).kind = .systemMessage ∧ (f.get c).level = .error
  remarks : ∀ j, o.size ≤ j → j < f.size → (f.get j).kind.isRemark = true

namespace Rearranged

theorem refl (ho : o.WellFormed) : Rearranged o o root [] where
  size := Nat.le_refl _
  wellFormed := ho
  bare _ _ := rfl
  parent _ _ _ := rfl
  order q := List.filter_congr fun c hc => by simp [ho.inside q c hc]
  lifted := List.forall_mem_nil _
  added q _ c hc hnew := absurd (ho.inside q c hc) (Nat.not_lt.mpr hnew)
  remarks _ hle hlt := absurd hlt (Nat.not_lt.mpr hle)

theorem kind_old (hr : Rearranged o f root moved) (hj : j < o.size) :
    (f.get j).kind = (o.get j).kind :=
  kind_of_bare (hr.bare j hj)

/-- What is not a transition was not lifted. -/
theorem not_moved (hr : Rearranged o f root moved) (hk : (o.get k).kind ≠ .transition) : k ∉ moved :=
  fun hmem => hk (hr.lifted k hmem).1.1

/-- Nothing stood below what was lifted. -/
theorem eq_of_above (hr : Rearranged o f root moved) (ho : o.WellFormed) (ha : o.Above a j)
    (hmem : a ∈ moved) : j = a := by
  rcases ha.eq_or_child with heq | ⟨c, hc, -⟩
  · exact heq
  · have hin := (ho.linked.mem_iff c a).mpr hc
    rw [(hr.lifted a hmem).1.2] at hin
    exact absurd hin List.not_mem_nil

theorem not_moved_of_above (hr : Rearranged o f root moved) (ho : o.WellFormed) (ha : o.Above a j)
    (hj : j ∉ moved) : a ∉ moved :=
  fun hmem => hj (hr.eq_of_above ho ha hmem ▸ hmem)

/-- Above what was not lifted stands what stood above it. -/
theorem above_iff (hr : Rearranged o f root moved) (ho : o.WellFormed) (hj : j < o.size)
    (hmoved : j ∉ moved) : f.Above a j ↔ o.Above a j := by
  have hup : ∀ {j q}, j < o.size → j ∉ moved → o.parent? j = some q → q < o.size ∧ q ∉ moved :=
    fun hj hmoved hq => ⟨ho.lt_size_of_above hj (.up hq .here),
      hr.not_moved_of_above ho (.up hq .here) hmoved⟩
  constructor
  · intro h
    induction h with
    | here => exact .here
    | up hq _ ih =>
      have hq' := (hr.parent _ hj hmoved).symm.trans hq
      obtain ⟨hlt, hnot⟩ := hup hj hmoved hq'
      exact .up hq' (ih hlt hnot)
  · intro h
    induction h with
    | here => exact .here
    | up hq _ ih =>
      obtain ⟨hlt, hnot⟩ := hup hj hmoved hq
      exact .up ((hr.parent _ hj hmoved).trans hq) (ih hlt hnot)

/-- Siblings that were not lifted stand in the order in which they stood. -/
theorem sublist_old (hr : Rearranged o f root moved) (hab : [a, b].Sublist (f.children p))
    (ha : a < o.size ∧ a ∉ moved) (hb : b < o.size ∧ b ∉ moved) : [a, b].Sublist (o.children p) := by
  have hboth := hab.filter fun c => decide (c < o.size ∧ c ∉ moved)
  have hkept : [a, b].filter (fun c => decide (c < o.size ∧ c ∉ moved)) = [a, b] := by
    simp [ha, hb]
  rw [hr.order, hkept] at hboth
  exact hboth.trans List.filter_sublist

theorem before_old (hr : Rearranged o f root moved) (ho : o.WellFormed) (h : f.Before x y)
    (hx : x < o.size ∧ x ∉ moved) (hy : y < o.size ∧ y ∉ moved) : o.Before x y := by
  obtain ⟨p, a, b, hab, hax, hby⟩ := h
  rw [hr.above_iff ho hx.1 hx.2] at hax
  rw [hr.above_iff ho hy.1 hy.2] at hby
  exact ⟨p, a, b, hr.sublist_old hab
    ⟨ho.lt_size_of_above hx.1 hax, hr.not_moved_of_above ho hax hx.2⟩
    ⟨ho.lt_size_of_above hy.1 hby, hr.not_moved_of_above ho hby hy.2⟩, hax, hby⟩

/-! ### What keeps a tree rearranged -/

theorem drafted (hr : Rearranged o f root moved) (hs : Build.Drafted f g is) :
    Rearranged o g root moved := by
  have hold : ∀ j < o.size, g.get j = f.get j := fun j hj =>
    hs.extended.old j (Nat.lt_of_lt_of_le hj hr.size)
  exact {
    size := Nat.le_trans hr.size hs.extended.size
    wellFormed := hs.wellFormed
    bare := fun j hj => by rw [hold j hj, hr.bare j hj]
    parent := fun j hj hmoved => by
      rw [parent?, hold j hj]
      exact hr.parent j hj hmoved
    order := fun q => by
      rw [← hr.order]
      by_cases hq : q < f.size
      · rw [children, hs.extended.old q hq, ← children]
      · -- What is new holds nothing that was there.
        rw [children_of_size_le (Nat.le_of_not_lt hq)]
        refine List.filter_eq_nil_iff.mpr fun c hc => ?_
        rw [decide_eq_true_iff]
        rintro ⟨hlt, -⟩
        have hparent := hs.wellFormed.only c q hc
        rw [parent?, hold c hlt] at hparent
        exact hq (lt_size_of_mem_children ((hr.wellFormed.linked.mem_iff c q).mpr hparent))
    lifted := fun k hk => by
      obtain ⟨hleaf, q, hq, habove⟩ := hr.lifted k hk
      refine ⟨hleaf, q, ?_, habove⟩
      rw [parent?, hold k (lt_size_of_kind (by decide) hleaf.1)]
      exact hq
    added := fun q hq c hc hnew => by
      rw [children, hold q hq] at hc
      rw [hs.extended.old c (hr.wellFormed.inside q c hc)]
      exact hr.added q hq c hc hnew
    remarks := fun j hle hlt => by
      by_cases hj : j < f.size
      · rw [hs.extended.old j hj]
        exact hr.remarks j hle hj
      · exact hs.remarks j (Nat.le_of_not_lt hj) hlt }

/-- An error may be put anywhere. -/
theorem complained (hr : Rearranged o f root moved) (hm : f.Complained g m p u v) :
    Rearranged o g root moved := by
  obtain ⟨⟨aside, hs, hi⟩, hkind, hlevel⟩ := hm
  have ha := hr.drafted hs
  have hnew : o.size ≤ m := Nat.le_trans hr.size (hs.new m (List.mem_singleton_self m))
  exact {
    size := hi.size ▸ ha.size
    wellFormed := hi.wellFormed
    bare := fun j hj => (hi.bare j).trans (ha.bare j hj)
    parent := fun j hj hmoved => by
      rw [hi.parent, if_neg (Nat.ne_of_lt (Nat.lt_of_lt_of_le hj hnew))]
      exact ha.parent j hj hmoved
    order := fun q => by
      rw [hi.filter_children (decide_eq_false fun h => Nat.not_lt.mpr hnew h.1)]
      exact ha.order q
    lifted := fun k hk => by
      obtain ⟨hleaf, q, hq, habove⟩ := ha.lifted k hk
      have hlt : k < o.size := lt_size_of_kind (by decide) hleaf.1
      exact ⟨hleaf, q, by rw [hi.parent, if_neg (Nat.ne_of_lt (Nat.lt_of_lt_of_le hlt hnew)), hq],
        habove⟩
    added := fun q hq c hc hle => by
      by_cases hcm : c = m
      · exact hcm ▸ ⟨hkind, hlevel⟩
      · have hc' : c ∈ aside.children q := by
          rw [hi.children] at hc
          split at hc
          · rename_i hqp
            rw [hqp, hi.siblings]
            simpa [hcm] using hc
          · exact hc
        obtain ⟨hkind', hlevel'⟩ := ha.added q hq c hc' hle
        exact ⟨(kind_of_bare (hi.bare c)).trans hkind', (level_of_bare (hi.bare c)).trans hlevel'⟩
    remarks := fun j hle hlt => by
      rw [kind_of_bare (hi.bare j)]
      exact ha.remarks j hle (hi.size ▸ hlt) }

/-- A transition may be lifted. -/
theorem lift (hr : Rearranged o f root moved) (hi : (f.detach n).Inserted g n p u v)
    (hleaf : (o.get n).kind = .transition ∧ o.children n = []) (hroot : o.Above root p)
    (habove : o.Above p n) (hne : p ≠ n) : Rearranged o g root (n :: moved) := by
  have hn : n < o.size := lt_size_of_kind (by decide) hleaf.1
  have hkids : ∀ q, (f.detach n).children q = (f.children q).filter (· ≠ n) := fun q =>
    children_detach_eq_filter (hr.wellFormed.linked.nodup q) (hr.wellFormed.linked.mem_iff n q).mp
  have hbare : ∀ j, (g.get j).bare = (f.get j).bare := fun j => (hi.bare j).trans (bare_detach f n j)
  have hparent : ∀ j, j ≠ n → g.parent? j = f.parent? j := fun j hj => by
    rw [hi.parent, if_neg hj, parent?_detach, if_neg hj]
  have hsize : g.size = f.size := hi.size.trans (size_detach f n)
  exact {
    size := hsize ▸ hr.size
    wellFormed := hi.wellFormed
    bare := fun j hj => (hbare j).trans (hr.bare j hj)
    parent := fun j hj hmoved => by
      rw [List.mem_cons, not_or] at hmoved
      rw [hparent j hmoved.1]
      exact hr.parent j hj hmoved.2
    order := fun q => by
      have hsplit : (o.children q).filter (· ∉ n :: moved)
          = ((o.children q).filter (· ∉ moved)).filter (· ≠ n) := by
        rw [List.filter_filter]
        refine List.filter_congr fun c _ => ?_
        rw [Bool.eq_iff_iff]
        simp
      rw [hi.filter_children (by simp), hkids, hsplit, ← hr.order, List.filter_filter,
        List.filter_filter]
      refine List.filter_congr fun c _ => ?_
      rw [Bool.eq_iff_iff]
      simp only [List.mem_cons, not_or, Bool.and_eq_true, decide_eq_true_eq]
      tauto
    lifted := by
      have hown : g.parent? n = some p := by rw [hi.parent, if_pos rfl]
      refine List.forall_mem_cons.mpr ⟨⟨hleaf, p, hown, hroot, habove, hne⟩, fun k hk => ?_⟩
      by_cases hkn : k = n
      · exact hkn ▸ ⟨hleaf, p, hown, hroot, habove, hne⟩
      · obtain ⟨hleaf', q, hq, habove'⟩ := hr.lifted k hk
        exact ⟨hleaf', q, (hparent k hkn).trans hq, habove'⟩
    added := fun q hq c hc hle => by
      have hcn : c ≠ n := fun heq => absurd hn (Nat.not_lt.mpr (heq ▸ hle))
      have hc' : c ∈ f.children q := by
        refine (hr.wellFormed.linked.mem_iff c q).mpr ?_
        rw [← hparent c hcn]
        exact hi.wellFormed.only c q hc
      obtain ⟨hkind, hlevel⟩ := hr.added q hq c hc' hle
      exact ⟨(kind_of_bare (hbare c)).trans hkind, (level_of_bare (hbare c)).trans hlevel⟩
    remarks := fun j hle hlt => by
      rw [kind_of_bare (hbare j)]
      exact hr.remarks j hle (hsize ▸ hlt) }

/-- The transitions below the root are those that were there. -/
theorem mem_findAll (hr : Rearranged o f root moved) (ho : o.WellFormed) :
    k ∈ f.findAll .transition root ↔ k ∈ o.findAll .transition root := by
  rw [hr.wellFormed.mem_findAll, ho.mem_findAll]
  constructor
  · rintro ⟨habove, hkind⟩
    have hk : k < o.size := by
      by_contra hnew
      have hremark := hr.remarks k (Nat.le_of_not_lt hnew) (lt_size_of_kind (by decide) hkind)
      rw [hkind] at hremark
      cases hremark
    refine ⟨?_, hr.kind_old hk ▸ hkind⟩
    by_cases hmoved : k ∈ moved
    · obtain ⟨-, q, -, hroot, hqk, -⟩ := hr.lifted k hmoved
      exact hroot.trans hqk
    · exact (hr.above_iff ho hk hmoved).mp habove
  · rintro ⟨habove, hkind⟩
    have hk : k < o.size := lt_size_of_kind (by decide) hkind
    refine ⟨?_, (hr.kind_old hk).trans hkind⟩
    by_cases hmoved : k ∈ moved
    · obtain ⟨-, q, hq, hroot, hqk, hne⟩ := hr.lifted k hmoved
      have hunmoved : q ∉ moved := fun hmem => hne (hr.eq_of_above ho hqk hmem).symm
      exact .up hq ((hr.above_iff ho (ho.lt_size_of_above hk hqk) hunmoved).mpr hroot)
    · exact (hr.above_iff ho hk hmoved).mpr habove

end Rearranged

end Forest

end MarkupLint
