import MarkupLint.Pass.Structure
import MarkupLint.Proofs.Rearranging

/-! # Where transitions end up

    Transitions are visited in document order.  A visit may put an error
    before or behind a transition, or lift it behind a node above it.  A
    transition that was visited stands as it may, and keeps doing so
    (`Forest.Settled`): no later visit puts anything between it and the node
    before it, because that node stands above no transition that is still to
    be visited, and none takes away the last node behind it, because what is
    lifted does not follow a transition directly. -/

namespace MarkupLint

namespace Forest

variable {o f g h : Forest} {a b c i j k m n p q x y root : NodeId}
  {u v rest first pre post before is moved todo : List NodeId}

/-- Nothing but the title of a section or document, or that and a subtitle. -/
def opens (f : Forest) (before : List NodeId) : Prop :=
  (before.map fun i => (f.get i).kind) = [.title] ∨
    (before.map fun i => (f.get i).kind) = [.title, .subtitle]

/-- The transition `k` stands between two of its siblings.  The first one is
    no transition, and no title or subtitle at the beginning, unless `k`
    stood below it in `o`. -/
def LegallyPlaced (o f : Forest) (k : NodeId) : Prop :=
  ∀ p pre post, f.children p = pre ++ k :: post → ∃ first a, pre = first ++ [a] ∧
    (f.get a).kind ≠ .transition ∧ (f.opens pre → o.Above a k) ∧ post ≠ []

/-- The transition `k` stands as it may, and the node before it stands above
    none of those still to be visited. -/
def Settled (o f : Forest) (todo : List NodeId) (k : NodeId) : Prop :=
  ∀ p pre post, f.children p = pre ++ k :: post → ∃ first a, pre = first ++ [a] ∧
    (f.get a).kind ≠ .transition ∧ (f.opens pre → o.Above a k) ∧ post ≠ [] ∧
    ∀ j ∈ todo, ¬o.Above a j

theorem opens_congr (h : ∀ c ∈ before, (g.get c).kind = (f.get c).kind) :
    g.opens before ↔ f.opens before := by
  rw [opens, opens, List.map_congr_left h]

/-- What is neither a title nor a subtitle does not stand before the
    beginning. -/
theorem not_opens_of_mem (hc : c ∈ before)
    (hkind : (f.get c).kind ≠ .title ∧ (f.get c).kind ≠ .subtitle) : ¬f.opens before := by
  have hmem : (f.get c).kind ∈ before.map fun i => (f.get i).kind := List.mem_map_of_mem hc
  rintro (heq | heq) <;> rw [heq] at hmem
  · exact hkind.1 (List.mem_singleton.mp hmem)
  · rcases List.mem_cons.mp hmem with h | h
    · exact hkind.1 h
    · exact hkind.2 (List.mem_singleton.mp h)

namespace Settled

theorem legal (hs : Settled o f [] k) : o.LegallyPlaced f k := by
  intro p pre post hsplit
  obtain ⟨first, a, hpre, hkind, hopens, hpost, -⟩ := hs p pre post hsplit
  exact ⟨first, a, hpre, hkind, hopens, hpost⟩

theorem mono (hs : Settled o f (i :: todo) k) : Settled o f todo k := by
  intro p pre post hsplit
  obtain ⟨first, a, hpre, hkind, hopens, hpost, hclear⟩ := hs p pre post hsplit
  exact ⟨first, a, hpre, hkind, hopens, hpost, fun j hj => hclear j (List.mem_cons_of_mem _ hj)⟩

/-- A node stands in one place only. -/
theorem here (hf : f.WellFormed) (hkids : f.children p = (first ++ [a]) ++ k :: post)
    (hkind : (f.get a).kind ≠ .transition) (hopens : f.opens (first ++ [a]) → o.Above a k)
    (hpost : post ≠ []) (hclear : ∀ j ∈ todo, ¬o.Above a j) : Settled o f todo k := by
  intro q pre' post' hsplit
  have hp : f.parent? k = some p := hf.only k p (by simp [hkids])
  have hq : f.parent? k = some q := hf.only k q (by simp [hsplit])
  obtain rfl := Option.some.inj (hp.symm.trans hq)
  obtain ⟨hpre, hpost'⟩ := hf.not_mem_of_split hsplit
  obtain ⟨rfl, -, rfl⟩ :=
    (List.append_cons_inj_of_notMem hpre hpost').mp (hsplit.symm.trans hkids)
  exact ⟨first, a, rfl, hkind, hopens, hpost, hclear⟩

theorem drafted (hs : Settled o f todo k) (hf : f.WellFormed) (hk : k < f.size)
    (hd : Build.Drafted f g is) : Settled o g todo k := by
  intro p pre post hsplit
  have hp : f.parent? k = some p := by
    rw [parent?, ← hd.extended.old k hk]
    exact hd.wellFormed.only k p (by simp [hsplit])
  have hold : g.children p = f.children p := by
    rw [children, hd.extended.old p (lt_size_of_mem_children ((hf.linked.mem_iff k p).mpr hp)),
      children]
  rw [hold] at hsplit
  obtain ⟨first, a, rfl, hkind, hopens, hpost, hclear⟩ := hs p pre post hsplit
  have hkinds : ∀ c ∈ first ++ [a], (g.get c).kind = (f.get c).kind := fun c hc => by
    rw [hd.extended.old c (hf.inside p c (hsplit ▸ List.mem_append_left _ hc))]
  exact ⟨first, a, rfl, by rwa [hkinds a (by simp)], (hopens <| (opens_congr hkinds).mp ·), hpost,
    hclear⟩

/-- What is put among the siblings of `k` does not come right before it, if
    the node there stands above one still to be visited. -/
theorem inserted (hs : Settled o f todo k) (hi : f.Inserted g n p u v) (hkn : k ≠ n)
    (hkind : (f.get n).kind ≠ .title ∧ (f.get n).kind ≠ .subtitle)
    (hgap : ∀ rest, v = k :: rest → ∃ s b, u = s ++ [b] ∧ ∃ j ∈ todo, o.Above b j) :
    Settled o g todo k := by
  have hkinds : ∀ c, (g.get c).kind = (f.get c).kind := fun c => kind_of_bare (hi.bare c)
  intro q pre post hsplit
  rw [hi.children] at hsplit
  split at hsplit
  · rcases List.append_eq_append_iff.mp hsplit with ⟨w, rfl, hw⟩ | ⟨w, rfl, hw⟩
    · -- `k` stands behind the new node.
      obtain _ | ⟨n', y⟩ := w
      · exact absurd (List.cons.inj hw).1.symm hkn
      obtain ⟨rfl, rfl⟩ := List.cons.inj hw
      have hwas : f.children p = (u ++ y) ++ k :: post :=
        hi.siblings.trans (List.append_assoc u y (k :: post)).symm
      obtain ⟨first, a, hlast, hkinda, -, hpost, hclear⟩ := hs p (u ++ y) post hwas
      have hclosed : ¬g.opens (u ++ n :: y) :=
        not_opens_of_mem (c := n) (by simp) (by rwa [hkinds])
      rcases List.eq_nil_or_concat' y with rfl | ⟨y, c, rfl⟩
      · obtain ⟨s, b, hu, j, hj, hbj⟩ := hgap post rfl
        rw [List.append_nil, hu] at hlast
        obtain ⟨-, rfl⟩ := List.append_singleton_inj.mp hlast
        exact absurd hbj (hclear j hj)
      · rw [← List.append_assoc] at hlast
        obtain ⟨-, rfl⟩ := List.append_singleton_inj.mp hlast
        exact ⟨u ++ n :: y, c, by simp, by rwa [hkinds], (absurd · hclosed), hpost, hclear⟩
    · -- `k` stands before the new node.
      obtain _ | ⟨k', z⟩ := w
      · exact absurd (List.cons.inj hw).1 hkn
      obtain ⟨rfl, rfl⟩ := List.cons.inj hw
      have hwas : f.children p = pre ++ k :: (z ++ v) := by rw [hi.siblings]; simp
      obtain ⟨first, a, hpre, hkinda, hopens, -, hclear⟩ := hs p pre (z ++ v) hwas
      exact ⟨first, a, hpre, by rwa [hkinds],
        (hopens <| (opens_congr fun c _ => hkinds c).mp ·), by simp, hclear⟩
  · obtain ⟨first, a, hpre, hkinda, hopens, hpost, hclear⟩ := hs q pre post hsplit
    exact ⟨first, a, hpre, by rwa [hkinds],
      (hopens <| (opens_congr fun c _ => hkinds c).mp ·), hpost, hclear⟩

/-- The last one of siblings is taken away without harm, if there is no
    transition right before it. -/
theorem detach (hs : Settled o f todo k) (hf : f.WellFormed) (hk : (f.get k).kind = .transition)
    (hkids : f.children p = (first ++ [a]) ++ [n]) (ha : (f.get a).kind ≠ .transition) :
    Settled o (f.detach n) todo k := by
  have hkinds : ∀ c, ((f.detach n).get c).kind = (f.get c).kind := fun c =>
    kind_of_bare (bare_detach f n c)
  have hfilter : ∀ q, (f.detach n).children q = (f.children q).filter (· ≠ n) := fun q =>
    children_detach_eq_filter (hf.linked.nodup q) (hf.linked.mem_iff n q).mp
  have hnot := (hf.not_mem_of_split hkids).1
  have hn : f.parent? n = some p := hf.only n p (by simp [hkids])
  intro q pre post hsplit
  rw [hfilter] at hsplit
  have hwas : ∃ tail, f.children q = pre ++ k :: (post ++ tail) ∧ (tail ≠ [] → post ≠ []) := by
    by_cases hqp : q = p
    · subst hqp
      rw [hkids, List.filter_append, filter_ne_of_not_mem hnot] at hsplit
      have hsplit' : first ++ [a] = pre ++ k :: post := by simpa using hsplit
      refine ⟨[n], by rw [hkids, hsplit']; simp, fun _ hpost => ha ?_⟩
      subst hpost
      obtain ⟨-, rfl⟩ := List.append_singleton_inj.mp hsplit'
      exact hk
    · have houtside : n ∉ f.children q := fun hmem =>
        hqp (Option.some.inj ((hf.only n q hmem).symm.trans hn))
      rw [filter_ne_of_not_mem houtside] at hsplit
      exact ⟨[], by rw [hsplit, List.append_nil], absurd rfl⟩
  obtain ⟨tail, hwas, htail⟩ := hwas
  obtain ⟨first', a', hpre, hkinda, hopens, hpost, hclear⟩ := hs q pre (post ++ tail) hwas
  refine ⟨first', a', hpre, by rwa [hkinds], (hopens <| (opens_congr fun c _ => hkinds c).mp ·),
    ?_, hclear⟩
  by_cases htail' : tail = []
  · rwa [htail', List.append_nil] at hpost
  · exact htail htail'

/-- An error may be put anywhere but right before `k`. -/
theorem complained (hs : Settled o f todo k) (hf : f.WellFormed) (hk : k < f.size)
    (hm : f.Complained g m p u v) (hv : ∀ rest, v ≠ k :: rest) : Settled o g todo k := by
  obtain ⟨⟨aside, hd, hi⟩, hkind, -⟩ := hm
  have hkind' : (aside.get m).kind = .systemMessage := (kind_of_bare (hi.bare m)).symm.trans hkind
  refine (hs.drafted hf hk hd).inserted hi (fun heq => ?_) (by simp [hkind'])
    fun rest hrest => absurd hrest (hv rest)
  exact absurd hk (Nat.not_lt.mpr (heq ▸ hd.new m (List.mem_singleton_self m)))

end Settled

/-! ## The node behind which a transition is lifted -/

/-- Nothing below the node found comes after `i`, and a sibling does. -/
theorem WellFormed.notLast?_spec (hf : f.WellFormed) (h : Pass.notLast? f n i = some b) :
    f.Above b i ∧ (∃ q s t, f.children q = s ++ b :: t ∧ t ≠ []) ∧
      ∀ j, f.Above b j → f.Above j i ∨ f.Before j i ∨ f.Above i j := by
  induction n generalizing i with
  | zero => cases h
  | succ n ih =>
    rw [Pass.notLast?] at h
    split at h
    · cases h
    rename_i p hp
    have hmem : i ∈ f.children p := (hf.linked.mem_iff i p).mpr hp
    split at h
    · rename_i hlast
      obtain ⟨hbp, hsibling, hbelow⟩ := ih h
      refine ⟨.up hp hbp, hsibling, fun j hbj => ?_⟩
      rcases hbelow j hbj with hjp | ⟨q, c, e, hce, hcj, hep⟩ | hpj
      · exact .inl (.up hp hjp)
      · exact .inr (.inl ⟨q, c, e, hce, hcj, .up hp hep⟩)
      · rcases hpj.eq_or_child with rfl | ⟨c, hc, hcj⟩
        · exact .inl (.up hp .here)
        · by_cases hci : c = i
          · exact .inr (.inr (hci ▸ hcj))
          · -- The last child comes after the others.
            obtain ⟨s, hs⟩ := List.getLast?_eq_some_iff.mp hlast
            have hcs : c ∈ s := by
              have hcp := (hf.linked.mem_iff c p).mpr hc
              rw [hs] at hcp
              simpa [hci] using hcp
            refine .inr (.inl ⟨p, c, i, ?_, hcj, .here⟩)
            rw [hs]
            exact (List.singleton_sublist.mpr hcs).append (List.Sublist.refl [i])
    · rename_i hlast
      obtain rfl := Option.some.inj h
      obtain ⟨s, t, hst⟩ := List.append_of_mem hmem
      refine ⟨.here, ⟨p, s, t, hst, fun ht => hlast ?_⟩, fun j hij => .inr (.inr hij)⟩
      rw [hst, ht, List.getLast?_concat]

/-- The transitions below the root of a tree have nothing below them. -/
structure LeafTransitions (o : Forest) (root : NodeId) : Prop where
  wellFormed : o.WellFormed
  top : o.parent? root = none
  leaves : ∀ k ∈ o.findAll .transition root, o.children k = []

theorem LeafTransitions.eq_of_above (ho : LeafTransitions o root)
    (hk : k ∈ o.findAll .transition root) (h : o.Above k j) : j = k := by
  rcases h.eq_or_child with heq | ⟨c, hc, -⟩
  · exact heq
  · have hmem := (ho.wellFormed.linked.mem_iff c k).mpr hc
    rw [ho.leaves k hk] at hmem
    exact absurd hmem List.not_mem_nil

/-- The transition `i` can be lifted behind `b`, one of the children of
    `q`. -/
structure Liftable (o f : Forest) (root i b q : NodeId) (s t : List NodeId) : Prop where
  children : f.children q = s ++ b :: t
  more : t ≠ []
  above : o.Above b i
  above_parent : o.Above q i
  root_above : o.Above root q
  ne : q ≠ i
  kind : (f.get b).kind ≠ .transition
  outside : i ∉ f.children q
  not_below : ¬f.Above i q

namespace Rearranged

/-- The node before a transition stands above none that comes later. -/
theorem clear_before (hr : Rearranged o f root moved) (ho : o.WellFormed)
    (hkids : f.children p = (first ++ [a]) ++ i :: v) (ha : (f.get a).kind ≠ .transition)
    (hi : i < o.size ∧ i ∉ moved) (hij : o.Precedes i j) (hj : j < o.size) : ¬o.Above a j := by
  intro haj
  have hsize := ho.lt_size_of_above hj haj
  have hunmoved : a ∉ moved := hr.not_moved (hr.kind_old hsize ▸ ha)
  have hnext : [a, i].Sublist (f.children p) := by
    rw [hkids, List.append_assoc]
    exact (List.sublist_append_left [a, i] v).trans (List.sublist_append_right first _)
  exact ho.not_before_of_precedes hij ⟨p, a, i, hr.sublist_old hnext ⟨hsize, hunmoved⟩ hi, haj, .here⟩

/-- The node behind which a transition is lifted stands above none that
    comes later. -/
theorem clear_lifted (hr : Rearranged o f root moved) (ho : o.WellFormed)
    (hfound : Pass.notLast? f n i = some b) (hi : i < o.size ∧ i ∉ moved) (hleaf : o.children i = [])
    (hij : o.Precedes i j) (hj : j < o.size ∧ j ∉ moved) : ¬o.Above b j := by
  intro hbj
  obtain ⟨-, -, hbelow⟩ := hr.wellFormed.notLast?_spec hfound
  rcases hbelow j ((hr.above_iff ho hj.1 hj.2).mpr hbj) with hji | hji | hij'
  · exact ho.not_above_of_precedes hij ((hr.above_iff ho hi.1 hi.2).mp hji)
  · exact ho.not_before_of_precedes hij (hr.before_old ho hji hj hi)
  · rcases ((hr.above_iff ho hj.1 hj.2).mp hij').eq_or_child with rfl | ⟨c, hc, -⟩
    · exact ho.not_above_of_precedes hij .here
    · have hmem := (ho.linked.mem_iff c i).mpr hc
      rw [hleaf] at hmem
      exact List.not_mem_nil hmem

/-- A transition that ends a section can be lifted behind the first node above
    it that ends nothing. -/
theorem liftable (hr : Rearranged o f root moved) (ho : LeafTransitions o root)
    (hi : i ∈ o.findAll .transition root) (hmoved : i ∉ moved) (hkids : f.children p = first ++ [i])
    (hfound : Pass.notLast? f n i = some b) : ∃ q s t, Liftable o f root i b q s t := by
  obtain ⟨hroot, hkind⟩ := ho.wellFormed.mem_findAll.mp hi
  have hlt : i < o.size := lt_size_of_kind (by decide) hkind
  obtain ⟨hbi, ⟨q, s, t, hq, ht⟩, -⟩ := hr.wellFormed.notLast?_spec hfound
  have hbio := (hr.above_iff ho.wellFormed hlt hmoved).mp hbi
  have hbq : f.parent? b = some q := hr.wellFormed.only b q (by simp [hq])
  have hbold := ho.wellFormed.lt_size_of_above hlt hbio
  have hbqo : o.parent? b = some q :=
    (hr.parent b hbold (hr.not_moved_of_above ho.wellFormed hbio hmoved)).symm.trans hbq
  -- `b` is not last, so it is not the transition itself.
  have hne : i ≠ b := by
    rintro rfl
    have hip : f.parent? i = some p := hr.wellFormed.only i p (by simp [hkids])
    obtain rfl := Option.some.inj (hbq.symm.trans hip)
    obtain ⟨hs, hnot⟩ := hr.wellFormed.not_mem_of_split hq
    exact ht ((List.append_cons_inj_of_notMem hs hnot).mp (hq.symm.trans hkids)).2.2
  have hrootb : root ≠ b := by
    rintro rfl
    rw [ho.top] at hbqo
    cases hbqo
  have hrootq : o.Above root q := by
    rcases hroot.total hbio with h | h
    · obtain ⟨q', hq', h⟩ := h.eq_or.resolve_left hrootb.symm
      exact Option.some.inj (hbqo.symm.trans hq') ▸ h
    · obtain ⟨q', hq', -⟩ := h.eq_or.resolve_left hrootb
      rw [ho.top] at hq'
      cases hq'
  have hqi : q ≠ i := by
    rintro rfl
    exact hne (ho.eq_of_above hi (.up hbqo .here)).symm
  refine ⟨q, s, t, hq, ht, hbio, (Above.up hbqo .here).trans hbio, hrootq, hqi, ?_, fun hmem => ?_,
    fun h => hqi (hr.wellFormed.above_antisymm ((Above.up hbq .here).trans hbi) h)⟩
  · rw [hr.kind_old hbold]
    exact fun hkindb =>
      hne (ho.eq_of_above (ho.wellFormed.mem_findAll.mpr ⟨.up hbqo hrootq, hkindb⟩) hbio)
  · obtain ⟨p', hp', hbp'⟩ := hbi.eq_or.resolve_left hne
    obtain rfl := Option.some.inj (hp'.symm.trans (hr.wellFormed.only i q hmem))
    exact hbp'.not_circle (hr.wellFormed.ends b) hbq

/-- Where a transition stands after it was lifted. -/
theorem lifted_inserted (hr : Rearranged o f root moved) (hi : i < o.size) {s t : List NodeId}
    (hl : Liftable o f root i b q s t) :
    (f.detach i).Inserted ((f.detach i).insert q ((s ++ [b]).length : Nat) [i]) i q (s ++ [b]) t := by
  have hf := hr.wellFormed
  have hsize := size_detach f i
  have hkids : (f.detach i).children q = (s ++ [b]) ++ t := by
    rw [children_detach_eq_filter (hf.linked.nodup q) (hf.linked.mem_iff i q).mp,
      filter_ne_of_not_mem hl.outside, hl.children, List.append_assoc]
    rfl
  have hq : q < f.size := lt_size_of_mem_children (i := b) (by simp [hl.children])
  exact (hf.detach i).inserted (hsize ▸ hq) (hsize ▸ Nat.lt_of_lt_of_le hi hr.size)
    (by rw [parent?_detach, if_pos rfl]) (fun h => hl.not_below h.of_detach) hkids

end Rearranged

end Forest

namespace Pass

variable {d d₁ : Document} {a b i n p q root : NodeId} {s t u v first todo moved : List NodeId}

/-! ## Visits -/

/-- What is complained about a transition begins a section or follows another
    one. -/
theorem transitionProblem_eq_none {f : Forest} (h : transitionProblem f u = none) :
    ∃ first a, u = first ++ [a] ∧ (f.get a).kind ≠ .transition ∧ ¬f.opens u := by
  unfold transitionProblem at h
  simp only at h
  split at h
  · cases h
  rename_i hbegin
  split at h
  · cases h
  rename_i hfollows
  simp only [Bool.or_eq_true, decide_eq_true_eq, not_or] at hbegin
  rcases List.eq_nil_or_concat' u with rfl | ⟨first, a, rfl⟩
  · exact absurd rfl hbegin.1.1
  · refine ⟨first, a, rfl, fun hkind => hfollows ?_, fun hopens => ?_⟩
    · rw [List.map_append, List.map_singleton, List.getLast?_concat, hkind]
    · exact hopens.elim hbegin.1.2 hbegin.2

/-- From `d` to `d'`, the transitions below `root` but `todo` were visited,
    and `moved` were lifted. -/
structure Visited (d d' : Document) (root : NodeId) (todo moved : List NodeId) : Prop where
  heard : ∃ xs : List Notice, (∀ x ∈ xs, x.level = .error) ∧
    d' = { d with forest := d'.forest, reporter := xs.foldl Reporter.heard d.reporter }
  rearranged : d.forest.Rearranged d'.forest root moved
  unmoved : ∀ j ∈ todo, j ∉ moved
  settled : ∀ k ∈ d.forest.findAll .transition root, k ∉ todo →
    Forest.Settled d.forest d'.forest todo k

namespace Visited

theorem refl (hf : d.forest.WellFormed) :
    Visited d d root (d.forest.findAll .transition root) [] :=
  ⟨⟨[], List.forall_mem_nil _, rfl⟩, .refl hf, fun _ _ => List.not_mem_nil,
    fun _ hk hnot => absurd hk hnot⟩

theorem haltLevel (hv : Visited d d₁ root todo moved) :
    d₁.reporter.haltLevel = d.reporter.haltLevel := by
  obtain ⟨⟨xs, -, heq⟩, -⟩ := hv
  rw [heq]
  exact Reporter.haltLevel_foldl_heard _ _

/-- A transition that stands as it may is done with. -/
theorem done (hv : Visited d d₁ root (i :: todo) moved)
    (hi : Forest.Settled d.forest d₁.forest todo i) : Visited d d₁ root todo moved := by
  refine ⟨hv.heard, hv.rearranged, fun j hj => hv.unmoved j (List.mem_cons_of_mem _ hj),
    fun k hk hnot => ?_⟩
  by_cases hki : k = i
  · exact hki ▸ hi
  · exact (hv.settled k hk (by simp [hki, hnot])).mono

/-- An error is put anywhere but right before a transition that was visited. -/
theorem complain (hv : Visited d d₁ root todo moved) (hf : d.forest.WellFormed)
    (hp : p < d₁.forest.size) (hkids : d₁.forest.children p = u ++ v)
    (hnext : ∀ k rest, v = k :: rest → k ∈ todo) (text : String) (o : Placement)
    (position : Forest → Int)
    (hposition : ∀ g : Forest, g.WellFormed → g.children p = u ++ v → position g = u.length) :
    Reaches d.reporter.haltLevel .error (fun _ d₂ => Visited d d₂ root todo moved ∧
        ∃ m, d₁.forest.Complained d₂.forest m p u v)
      ((Build.raise .error text o >>= fun msg =>
        Build.edit fun f => f.insert p (position f) [msg]) d₁) := by
  have hf₁ := hv.rearranged.wellFormed
  have hlevel : Level.error ≤ .error := by decide
  have hraise := Build.raise_reaches hlevel text o hf₁
  rw [hv.haltLevel] at hraise
  refine hraise.bind fun m d₂ ⟨x, hx, _, hs, hkind, hmsg, heq⟩ => ?_
  have hkids₂ : d₂.forest.children p = u ++ v := by
    rw [Forest.children, hs.extended.old p hp]
    exact hkids
  have hedit : Build.edit (fun f => f.insert p (position f) [m]) d₂
      = .ok ⟨⟩ { d₂ with forest := d₂.forest.insert p u.length [m] } := by
    rw [← hposition d₂.forest hs.wellFormed hkids₂]
    rfl
  rw [hedit]
  refine .ok ?_
  have hcomplained := hf₁.complained hs hkind hmsg hp hkids
  refine ⟨⟨?_, hv.rearranged.complained hcomplained, hv.unmoved, fun k hk hnot => ?_⟩, m,
    hcomplained⟩
  · obtain ⟨xs, hxs, heq₁⟩ := hv.heard
    refine ⟨xs ++ [x], List.forall_mem_append.mpr ⟨hxs, List.forall_mem_singleton.mpr hx⟩, ?_⟩
    generalize d₂.forest.insert p u.length [m] = f
    rw [heq, heq₁, List.foldl_append]
    rfl
  · have hlt : k < d.forest.size :=
      Forest.lt_size_of_kind (by decide) (hf.mem_findAll.mp hk).2
    exact (hv.settled k hk hnot).complained hf₁ (Nat.lt_of_lt_of_le hlt hv.rearranged.size)
      hcomplained fun rest hrest => hnot (hnext k rest hrest)

/-- After the check, a transition follows a node that is no transition, and
    that is not all of a beginning. -/
theorem check (hv : Visited d d₁ root (i :: todo) moved) (hf : d.forest.WellFormed)
    (hkids : d₁.forest.children p = u ++ i :: v) (n : Node) :
    Reaches d.reporter.haltLevel .error (fun _ d₂ => Visited d d₂ root (i :: todo) moved ∧
        ∃ first a, d₂.forest.children p = (first ++ [a]) ++ i :: v ∧
          (d₂.forest.get a).kind ≠ .transition ∧ ¬d₂.forest.opens (first ++ [a]))
      (checkTransition n p u.length d₁) := by
  have hp : p < d₁.forest.size := Forest.lt_size_of_mem_children (i := i) (by simp [hkids])
  have hbefore : (d₁.forest.children p).take u.length = u := by rw [hkids, List.take_left]
  have hget : (get : Build Document) d₁ = .ok d₁ d₁ := rfl
  rw [checkTransition, Contract.bind_run, hget]
  dsimp only
  rw [hbefore]
  cases hproblem : transitionProblem d₁.forest u with
  | none =>
    obtain ⟨first, a, rfl, hkind, hopens⟩ := transitionProblem_eq_none hproblem
    exact .ok ⟨hv, first, a, hkids, hkind, hopens⟩
  | some text =>
    have hcomplained := hv.complain hf hp hkids
      (fun k rest h => (List.cons.inj h).1 ▸ List.mem_cons_self) text
      { line := some n.line, source := n.source } (fun _ => u.length) fun _ _ _ => rfl
    refine hcomplained.mono fun _ d₂ hm => ?_
    obtain ⟨hv₂, m, ⟨⟨_, _, hi⟩, hkind, _⟩⟩ := hm
    refine ⟨hv₂, u, m, ?_, by simp [hkind], ?_⟩
    · rw [hi.children, if_pos rfl, List.append_assoc]
      rfl
    · exact Forest.not_opens_of_mem (c := m) (by simp) (by simp [hkind])

/-- A transition that ends a section is lifted. -/
theorem lift (hv : Visited d d₁ root (i :: todo) moved) (hd : d.forest.LeafTransitions root)
    (hi : i ∈ d.forest.findAll .transition root)
    (hlater : ∀ j ∈ todo, j < d.forest.size ∧ d.forest.Precedes i j)
    (hkids : d₁.forest.children p = (first ++ [a]) ++ [i])
    (hkind : (d₁.forest.get a).kind ≠ .transition) (hfound : notLast? d₁.forest n i = some b)
    (hl : Forest.Liftable d.forest d₁.forest root i b q s t) :
    Visited d { d₁ with forest := (d₁.forest.detach i).insert q ((s ++ [b]).length : Nat) [i] }
      root todo (i :: moved) := by
  have hr := hv.rearranged
  have hkindi := (hd.wellFormed.mem_findAll.mp hi).2
  have hiold : i < d.forest.size ∧ i ∉ moved :=
    ⟨Forest.lt_size_of_kind (by decide) hkindi, hv.unmoved i List.mem_cons_self⟩
  have hinserted := hr.lifted_inserted hiold.1 hl
  have hkinds : ∀ c, ((d₁.forest.detach i).get c).kind = (d₁.forest.get c).kind := fun c =>
    Forest.kind_of_bare (Forest.bare_detach _ i c)
  have hunmoved : ∀ j ∈ todo, j ∉ moved := fun j hj => hv.unmoved j (List.mem_cons_of_mem _ hj)
  exact {
    heard := by
      obtain ⟨xs, hxs, heq⟩ := hv.heard
      refine ⟨xs, hxs, ?_⟩
      generalize (d₁.forest.detach i).insert q _ [i] = f
      rw [heq]
    rearranged := hr.lift hinserted ⟨hkindi, hd.leaves i hi⟩ hl.root_above hl.above_parent hl.ne
    unmoved := fun j hj => by
      rw [List.mem_cons, not_or]
      refine ⟨?_, hunmoved j hj⟩
      rintro rfl
      exact hd.wellFormed.not_above_of_precedes (hlater j hj).2 .here
    settled := fun k hk hnot => by
      by_cases hki : k = i
      · subst hki
        refine .here hinserted.wellFormed (by rw [hinserted.children, if_pos rfl]) ?_
          (fun _ => hl.above) hl.more fun j hj => ?_
        · rw [Forest.kind_of_bare (hinserted.bare b), hkinds]
          exact hl.kind
        · exact hr.clear_lifted hd.wellFormed hfound hiold (hd.leaves k hi) (hlater j hj).2
            ⟨(hlater j hj).1, hunmoved j hj⟩
      · have hkindk := (hd.wellFormed.mem_findAll.mp hk).2
        have hkindk₁ : (d₁.forest.get k).kind = .transition := by
          rw [hr.kind_old (Forest.lt_size_of_kind (by decide) hkindk), hkindk]
        have hkindi₁ : ((d₁.forest.detach i).get i).kind = .transition := by
          rw [hkinds, hr.kind_old hiold.1, hkindi]
        have hsettled := hv.settled k hk (by simp [hki, hnot])
        exact ((hsettled.detach hr.wellFormed hkindk₁ hkids hkind).inserted hinserted hki
          (by simp [hkindi₁]) fun _ _ => ⟨s, b, rfl, i, List.mem_cons_self, hl.above⟩).mono }

/-- A transition that was checked ends nothing then. -/
theorem move (hv : Visited d d₁ root (i :: todo) moved) (hd : d.forest.LeafTransitions root)
    (hi : i ∈ d.forest.findAll .transition root)
    (hlater : ∀ j ∈ todo, j < d.forest.size ∧ d.forest.Precedes i j)
    (hkids : d₁.forest.children p = (first ++ [a]) ++ i :: v)
    (hkind : (d₁.forest.get a).kind ≠ .transition) (hopens : ¬d₁.forest.opens (first ++ [a]))
    (line : Int) :
    Reaches d.reporter.haltLevel .error (fun _ d₂ => ∃ moved', Visited d d₂ root todo moved')
      (moveTransition i p line d₁) := by
  have hr := hv.rearranged
  have hiold : i < d.forest.size ∧ i ∉ moved :=
    ⟨Forest.lt_size_of_kind (by decide) (hd.wellFormed.mem_findAll.mp hi).2,
      hv.unmoved i List.mem_cons_self⟩
  have hclear : ∀ j ∈ todo, ¬d.forest.Above a j := fun j hj =>
    hr.clear_before hd.wellFormed hkids hkind hiold (hlater j hj).2 (hlater j hj).1
  have hget : (get : Build Document) d₁ = .ok d₁ d₁ := rfl
  rw [moveTransition, Contract.bind_run, hget]
  dsimp only
  by_cases hv' : v = []
  · subst hv'
    rw [if_neg (not_not.mpr (by rw [hkids, List.getLast?_concat]))]
    cases hfound : notLast? d₁.forest (d₁.forest.size + 1) i with
    | none =>
      -- Everything above it is last as well: it ends the document, and the error is put behind it.
      have hp : p < d₁.forest.size := Forest.lt_size_of_mem_children (i := i) (by simp [hkids])
      have hend := hv.complain hd.wellFormed (u := (first ++ [a]) ++ [i]) (v := []) hp (by simp [hkids])
        (fun k rest h => by cases h) "Document may not end with a transition."
        { line := some line } (fun f => (f.index? i).getD 0 + 1) fun g hg hkids' => by
          rw [List.append_nil] at hkids'
          simp [hg.index?_eq hkids', Int.add_assoc]
      refine hend.mono fun _ d₂ hd₂ => ?_
      obtain ⟨hv₂, m, hm⟩ := hd₂
      refine ⟨moved, hv₂.done ?_⟩
      have hkinds : ∀ c ∈ first ++ [a], (d₂.forest.get c).kind = (d₁.forest.get c).kind :=
        fun c hc => hm.kind_old (hr.wellFormed.inside p c (hkids ▸ List.mem_append_left _ hc))
      obtain ⟨aside, -, hinserted⟩ := hm.drafted
      have hkids₂ : d₂.forest.children p = (first ++ [a]) ++ i :: [m] := by
        rw [hinserted.children, if_pos rfl, List.append_assoc]
        rfl
      exact .here hv₂.rearranged.wellFormed hkids₂ (by rwa [hkinds a (by simp)])
        (fun h => absurd ((Forest.opens_congr hkinds).mp h) hopens) (by simp) hclear
    | some b =>
      -- It is lifted behind `b`, the nearest node above it that is not last.
      obtain ⟨q, s, t, hl⟩ := hr.liftable hd hi hiold.2 hkids hfound
      have hq : d₁.forest.parent? b = some q :=
        hr.wellFormed.only b q (by simp [hl.children])
      have hindex : ((d₁.forest.index? b).getD 0 + 1 : Int) = ((s ++ [b]).length : Nat) := by
        rw [hr.wellFormed.index?_eq hl.children, List.length_append]
        rfl
      dsimp only
      rw [hq]
      have hedit : Build.edit (fun f => (f.detach i).insert q ((f.index? b).getD 0 + 1) [i]) d₁
          = .ok ⟨⟩ { d₁ with
            forest := (d₁.forest.detach i).insert q ((d₁.forest.index? b).getD 0 + 1) [i] } := rfl
      show Reaches _ _ _ (Build.edit _ d₁)
      rw [hedit]
      rw [hindex]
      exact .ok ⟨i :: moved, hv.lift hd hi hlater hkids hkind hfound hl⟩
  · -- Something stands behind it, so it stays.
    have hlast : (d₁.forest.children p).getLast? ≠ some i := by
      intro hlast
      rw [hkids, List.getLast?_append_of_ne_nil _ (List.cons_ne_nil _ _),
        List.getLast?_cons_of_ne_nil hv'] at hlast
      exact (hr.wellFormed.not_mem_of_split hkids).2 (List.mem_of_getLast? hlast)
    rw [if_pos hlast]
    exact .ok ⟨moved, hv.done (.here hr.wellFormed hkids hkind (absurd · hopens) hv' hclear)⟩

/-- One transition more is visited. -/
theorem visit (hv : Visited d d₁ root (i :: todo) moved) (hd : d.forest.LeafTransitions root)
    (hi : i ∈ d.forest.findAll .transition root)
    (hlater : ∀ j ∈ todo, j < d.forest.size ∧ d.forest.Precedes i j) :
    Reaches d.reporter.haltLevel .error (fun _ d₂ => ∃ moved', Visited d d₂ root todo moved')
      (placeTransition i d₁) := by
  have hf₁ := hv.rearranged.wellFormed
  let n : Node := d₁.forest.get i
  have hget : (get : Build Document) d₁ = .ok d₁ d₁ := rfl
  rw [placeTransition, Contract.bind_run, hget]
  dsimp only
  cases hp : (d₁.forest.get i).parent with
  | none =>
    refine .ok ⟨moved, hv.done fun p pre post hsplit => ?_⟩
    cases (hf₁.only i p (by simp [hsplit])).symm.trans hp
  | some p =>
    obtain ⟨u, v, hkids⟩ := List.append_of_mem ((hf₁.linked.mem_iff i p).mpr hp)
    have hindex : (d₁.forest.index? i).getD 0 = u.length := by rw [hf₁.index?_eq hkids]; rfl
    simp only [hindex]
    refine (hv.check hd.wellFormed hkids n).bind fun _ d₂ hd₂ => ?_
    obtain ⟨hv₂, first, a, hkids₂, hkind, hopens⟩ := hd₂
    exact hv₂.move hd hi hlater hkids₂ hkind hopens n.line

/-- All transitions that are left are visited. -/
theorem visits (hd : d.forest.LeafTransitions root) (hv : Visited d d₁ root todo moved)
    (htodo : ∀ k ∈ todo, k ∈ d.forest.findAll .transition root)
    (hpairwise : todo.Pairwise d.forest.Precedes) :
    Reaches d.reporter.haltLevel .error (fun _ d₂ => ∃ moved', Visited d d₂ root [] moved')
      (todo.forM placeTransition d₁) := by
  induction todo generalizing d₁ moved with
  | nil => exact .ok ⟨moved, hv⟩
  | cons i todo ih =>
    obtain ⟨hfirst, hrest⟩ := List.pairwise_cons.mp hpairwise
    have hsize : ∀ j ∈ todo, j < d.forest.size := fun j hj => Forest.lt_size_of_kind (by decide)
      (hd.wellFormed.mem_findAll.mp (htodo j (List.mem_cons_of_mem _ hj))).2
    show Reaches _ _ _ ((placeTransition i >>= fun _ => todo.forM placeTransition) d₁)
    refine (hv.visit hd (htodo i List.mem_cons_self) fun j hj => ⟨hsize j hj, hfirst j hj⟩).bind
      fun _ d₂ ⟨moved', hv₂⟩ => ?_
    exact ih hv₂ (fun k hk => htodo k (List.mem_cons_of_mem _ hk)) hrest

end Visited

/-- **Transitions end up legally placed.**  If nothing stands below the
    transitions of a tree, then after the pass each of them stands between
    two of its siblings, the first of which is no transition, and follows no
    leading title or subtitle but one it stood below.  They are the
    transitions that were there.  Apart from those that were lifted, and new
    errors among the children of nodes, every node keeps its parent and its
    order among its siblings, and all else it has. -/
theorem placeTransitions_legal (hf : d.forest.WellFormed) (htop : d.forest.parent? root = none)
    (hleaves : ∀ k ∈ d.forest.findAll .transition root, d.forest.children k = []) :
    Reaches d.reporter.haltLevel .error (fun _ d' =>
        (∃ xs : List Notice, (∀ x ∈ xs, x.level = .error) ∧
          d' = { d with forest := d'.forest, reporter := xs.foldl Reporter.heard d.reporter }) ∧
        (∀ k, k ∈ d'.forest.findAll .transition root ↔ k ∈ d.forest.findAll .transition root) ∧
        (∀ k ∈ d'.forest.findAll .transition root, d.forest.LegallyPlaced d'.forest k) ∧
        ∃ moved, d.forest.Rearranged d'.forest root moved)
      (placeTransitions root d) := by
  have hrun : placeTransitions root d
      = (d.forest.findAll .transition root).forM placeTransition d := rfl
  rw [hrun]
  have hvisits := Visited.visits ⟨hf, htop, hleaves⟩ (.refl hf) (fun _ hk => hk)
    (hf.pairwise_findAll .transition root)
  refine hvisits.mono fun _ d' ⟨moved, hv⟩ => ?_
  have hsame : ∀ k, k ∈ d'.forest.findAll .transition root ↔ k ∈ d.forest.findAll .transition root :=
    fun k => hv.rearranged.mem_findAll hf
  exact ⟨hv.heard, hsame, fun k hk => (hv.settled k ((hsame k).mp hk) List.not_mem_nil).legal,
    moved, hv.rearranged⟩

/-- A transition at the end of a section is lifted behind it. -/
theorem placeTransitions_legal_section :
    ∃ (d : Document) (g : Forest), d.forest.WellFormed ∧ d.forest.children 0 = [3, 4] ∧
      d.forest.children 3 = [1, 2] ∧ (d.forest.get 2).kind = .transition ∧
      (∃ reporter, placeTransitions 0 d = .ok ⟨⟩ { d with forest := g, reporter := reporter }) ∧
      g.children 0 = [3, 2, 4] ∧ d.forest.LegallyPlaced g 2 := by
  have h₁ := Forest.Edited.empty.element { kind := .document } [] nofun
  have h₂ := h₁.element { kind := .paragraph } [] nofun
  have h₃ := h₂.element { kind := .transition } [] nofun
  have h₄ := h₃.element { kind := .division } [1, 2] (by decide)
  have h₅ := h₄.element { kind := .paragraph } [] nofun
  have h₆ := h₅.step (.append 0 (.own [3, 4])) ⟨by decide, by decide, fun c hc h => ?_⟩
  · generalize hforest : Forest.Edit.run _ _ = f at h₆
    let d : Document := { Document.new "" {} with forest := f }
    have hf : d.forest.WellFormed := h₆.wellFormed_of
    have htree : f.children 0 = [3, 4] ∧ f.children 3 = [1, 2] ∧ f.children 2 = [] ∧
        (f.get 2).kind = .transition ∧ f.parent? 0 = none ∧ f.findAll .transition 0 = [2] := by
      subst hforest
      decide +kernel
    obtain ⟨hroot, hsection, hleaf, hkind, htop, hfound⟩ := htree
    have hafter : (stateAfter (placeTransitions 0) d).forest.children 0 = [3, 2, 4] := by
      subst hforest
      decide +kernel
    rw [stateAfter] at hafter
    have hrun := placeTransitions_legal hf htop fun k hk => by
      obtain rfl := List.mem_singleton.mp (hfound ▸ hk)
      exact hleaf
    generalize hresult : placeTransitions 0 d = result at hrun hafter
    cases hrun with
    | error known reached =>
      have hnever : Level.never ≤ .error := Int.le_trans reached known
      exact absurd hnever (by decide)
    | @ok _ d' h =>
      obtain ⟨⟨xs, -, heq⟩, hsame, hlegal, -⟩ := h
      have hmem : 2 ∈ d.forest.findAll .transition 0 := hfound ▸ List.mem_singleton_self 2
      exact ⟨d, d'.forest, hf, hroot, hsection, hkind, ⟨_, hresult.trans (congrArg _ heq)⟩, hafter,
        hlegal 2 ((hsame 2).mpr hmem)⟩
  · -- The document has no parent, so nothing but itself stands above it.
    rcases h.eq_or with h | ⟨p, hp, -⟩
    · subst h
      revert hc
      decide
    · cases hp

/-- A transition inside a leading title is lifted right behind that title. -/
theorem placeTransitions_may_open :
    ¬∀ (d d' : Document) (root : NodeId), d.forest.WellFormed → d.forest.parent? root = none →
      (∀ k ∈ d.forest.findAll .transition root, d.forest.children k = []) →
      placeTransitions root d = .ok ⟨⟩ d' → ∀ k ∈ d'.forest.findAll .transition root,
      ∀ p pre post, d'.forest.children p = pre ++ k :: post → ¬d'.forest.opens pre := by
  intro hall
  have h₁ := Forest.Edited.empty.element { kind := .document } [] nofun
  have h₂ := h₁.element { kind := .transition } [] nofun
  have h₃ := h₂.element { kind := .title } [1] (by decide)
  have h₄ := h₃.element { kind := .paragraph } [] nofun
  have h₅ := h₄.step (.append 0 (.own [2, 3])) ⟨by decide, by decide, fun c hc h => ?_⟩
  · generalize hforest : Forest.Edit.run _ _ = f at h₅
    let d : Document := { Document.new "" {} with forest := f }
    have hf : d.forest.WellFormed := h₅.wellFormed_of
    have htree : f.parent? 0 = none ∧ f.children 1 = [] ∧ f.findAll .transition 0 = [1] := by
      subst hforest
      decide +kernel
    obtain ⟨htop, hleaf, hfound⟩ := htree
    have hends : (placeTransitions 0).run' d = some ⟨⟩ := by
      subst hforest
      decide +kernel
    have hafter : (stateAfter (placeTransitions 0) d).forest.children 0 = [2, 1, 3] ∧
        ((stateAfter (placeTransitions 0) d).forest.get 2).kind = .title ∧
        (stateAfter (placeTransitions 0) d).forest.findAll .transition 0 = [1] := by
      subst hforest
      decide +kernel
    have hleaves : ∀ k ∈ d.forest.findAll .transition 0, d.forest.children k = [] := fun k hk => by
      obtain rfl := List.mem_singleton.mp (hfound ▸ hk)
      exact hleaf
    cases hresult : placeTransitions 0 d with
    | error stop d' =>
      delta EStateM.run' EStateM.run at hends
      rw [hresult] at hends
      cases hends
    | ok _ d' =>
      rw [stateAfter_of_ok hresult] at hafter
      obtain ⟨hkids, hkind, hfound'⟩ := hafter
      refine hall d d' 0 hf htop hleaves hresult 1 (hfound' ▸ List.mem_singleton_self 1) 0 [2] [3] hkids
        (.inl ?_)
      rw [List.map_singleton, hkind]
  · rcases h.eq_or with h | ⟨p, hp, -⟩
    · subst h
      revert hc
      decide
    · cases hp

end Pass

end MarkupLint
