import MarkupLint.Proofs.Wellformed

/-! # Accounts of pending nodes

    A pending node waits for a pass.  A document is `Accounted` if every
    pending node waits for one pass that the document was asked for, and for
    no second one, and the node of a table of contents stands nowhere but in
    its topic.

    Passes copy what a substitution stands for, so no pending node may stand
    in there.  The kinds of nodes see to that: text in a line, and what
    defines such text, holds nothing but such text (`Kind.mayHold`), and
    pending nodes are no such text. -/

namespace MarkupLint

/-! ## Kinds that hold others -/

namespace Kind

/-- Whether inline markup makes nodes of the kind. -/
def isPhrase (k : Kind) : Bool := k.isInline || k == .substitutionReference || k == .target

/-- Whether a node of the kind is a list of items. -/
def isList (k : Kind) : Bool := k == .bulletList || k == .enumeratedList

/-- Whether a node of the kind may hold nodes of any kind but the items of
    lists. -/
def isRoomy (k : Kind) : Bool := !(k.isPhrase || k == .substitutionDefinition || k.isList)

/-- Whether a node of kind `p` may hold one of kind `k`. -/
def mayHold (p k : Kind) : Bool :=
  if p.isList then k == .listItem else if p.isRoomy then k != .listItem else k.isPhrase

variable {p k : Kind}

theorem isList_of_isRoomy (h : p.isRoomy = true) : p.isList = false := by
  simp only [isRoomy, Bool.not_or, Bool.and_eq_true, Bool.not_eq_true'] at h
  exact h.2

theorem isList_of_isPhrase (h : p.isPhrase = true) : p.isList = false := by
  cases p <;> first | rfl | cases h

theorem ne_listItem_of_isPhrase (hk : k.isPhrase = true) : k ≠ .listItem := by
  rintro rfl
  cases hk

theorem mayHold_of_isRoomy (hp : p.isRoomy = true) (hk : k ≠ .listItem) : p.mayHold k = true := by
  simp [mayHold, isList_of_isRoomy hp, hp, hk]

/-- Inline markup may stand anywhere but among the items of a list. -/
theorem mayHold_of_isPhrase (hp : p.isList = false) (hk : k.isPhrase = true) :
    p.mayHold k = true := by
  simp [mayHold, hp, hk, ne_listItem_of_isPhrase hk]

/-- Lists alone hold items. -/
theorem ne_listItem_of_mayHold (hp : p.isList = false) (h : p.mayHold k = true) : k ≠ .listItem := by
  rintro rfl
  simp [mayHold, hp, isPhrase, isInline] at h

/-- And they hold nothing else. -/
theorem eq_listItem_of_mayHold (hp : p.isList = true) (h : p.mayHold k = true) : k = .listItem := by
  simpa [mayHold, hp] using h

/-- What holds text in a line holds no other kinds. -/
theorem isPhrase_of_mayHold (hp : p.isPhrase = true ∨ p = .substitutionDefinition)
    (h : p.mayHold k = true) : k.isPhrase = true := by
  have hlist : p.isList = false := by
    rcases hp with hp | rfl
    · exact isList_of_isPhrase hp
    · rfl
  have hroomy : p.isRoomy = false := by
    rcases hp with hp | rfl
    · simp [isRoomy, hp]
    · rfl
  simpa [mayHold, hroomy, hlist] using h

theorem ne_pending_of_isPhrase (hk : k.isPhrase = true) : k ≠ .pending := by
  rintro rfl
  cases hk

end Kind

/-! ## Trees -/

namespace Forest

/-- The tree from a root on is one of a document: its nodes and their
    parents agree, and they hold what their kinds may hold. -/
structure Proper (f : Forest) (root : NodeId) : Prop where
  linked : f.Linked
  inside : root < f.size
  kind : (f.get root).kind = .document
  top : f.parent? root = none
  fits : ∀ i p, f.parent? i = some p → (f.get p).kind.mayHold (f.get i).kind = true

variable {f g : Forest} {root p i j : NodeId} {ns kids : List NodeId}

theorem kind_of_bare (h : (g.get i).bare = (f.get j).bare) : (g.get i).kind = (f.get j).kind := by
  have hkind := congrArg Node.kind h
  exact hkind

theorem source_of_bare (h : (g.get i).bare = (f.get j).bare) :
    (g.get i).source = (f.get j).source := by
  have hsource := congrArg Node.source h
  exact hsource

theorem Rehung.kind (h : f.Rehung g p ns kids) (i : NodeId) : (g.get i).kind = (f.get i).kind :=
  kind_of_bare (h.bare i)

namespace Proper

/-- Hanging up nodes other than the root where their kinds may stand. -/
theorem rehung (hf : f.Proper root) (h : f.Rehung g p ns kids) (hnodup : ns.Nodup)
    (hkids : kids.Perm ((f.children p).filter (· ∉ ns) ++ ns)) (hroot : root ∉ ns)
    (hfits : ∀ c ∈ ns, (f.get p).kind.mayHold (f.get c).kind = true) : g.Proper root where
  linked := h.linked hf.linked hnodup hkids
  inside := by
    rw [h.size]
    exact hf.inside
  kind := (h.kind root).trans hf.kind
  top := by
    rw [h.parent, if_neg hroot]
    exact hf.top
  fits i q hq := by
    rw [h.kind, h.kind]
    rw [h.parent] at hq
    split at hq
    · rename_i hi
      cases hq
      exact hfits i hi
    · exact hf.fits i q hq

/-- Changing nodes without moving them. -/
theorem keep (hf : f.Proper root) (hsize : g.size = f.size)
    (hkind : ∀ i, (g.get i).kind = (f.get i).kind) (hparent : ∀ i, g.parent? i = f.parent? i)
    (hchildren : ∀ i, g.children i = f.children i) : g.Proper root where
  linked := by
    refine ⟨fun q => ?_, fun c q => ?_⟩
    · rw [hchildren]
      exact hf.linked.nodup q
    · rw [hchildren, hparent]
      exact hf.linked.mem_iff c q
  inside := by
    rw [hsize]
    exact hf.inside
  kind := (hkind root).trans hf.kind
  top := (hparent root).trans hf.top
  fits i q hq := by
    rw [hkind, hkind]
    exact hf.fits i q ((hparent i).symm.trans hq)

theorem modify (hf : f.Proper root) (i : NodeId) {a : Node → Node}
    (hkind : (a (f.get i)).kind = (f.get i).kind)
    (hparent : (a (f.get i)).parent = (f.get i).parent)
    (hchildren : (a (f.get i)).children = (f.get i).children) : (f.modify i a).Proper root := by
  have hsame : ∀ j, ((f.modify i a).get j).kind = (f.get j).kind ∧
      (f.modify i a).parent? j = f.parent? j ∧ (f.modify i a).children j = f.children j := by
    intro j
    simp only [parent?, children, get_modify]
    split
    · rename_i hij
      rw [← hij.1]
      exact ⟨hkind, hparent, hchildren⟩
    · exact ⟨rfl, rfl, rfl⟩
  exact hf.keep (size_modify f i a) (fun j => (hsame j).1) (fun j => (hsame j).2.1)
    fun j => (hsame j).2.2

theorem alloc (hf : f.Proper root) (n : Node) : (f.alloc n).2.Proper root := by
  have hget : ∀ j < f.size, (f.alloc n).2.get j = f.get j := fun j hj => by
    rw [get_alloc, if_neg (Nat.ne_of_lt hj)]
  refine ⟨hf.linked.alloc n, ?_, ?_, (parent?_alloc f n root).trans hf.top, fun i q hq => ?_⟩
  · rw [size_alloc]
    exact Nat.lt_succ_of_lt hf.inside
  · rw [hget root hf.inside]
    exact hf.kind
  · rw [parent?_alloc] at hq
    have hi : i ∈ f.children q := (hf.linked.mem_iff i q).mpr hq
    rw [hget q (lt_size_of_mem_children hi), hget i (lt_size_of_parent? hq)]
    exact hf.fits i q hq

theorem detach (hf : f.Proper root) (i : NodeId) : (f.detach i).Proper root := by
  have hkind : ∀ j, ((f.detach i).get j).kind = (f.get j).kind := fun j =>
    kind_of_bare (bare_detach f i j)
  refine ⟨hf.linked.detach i, ?_, (hkind root).trans hf.kind, ?_, fun j q hq => ?_⟩
  · rw [size_detach]
    exact hf.inside
  · rw [parent?_detach, hf.top, ite_self]
  · rw [hkind, hkind]
    rw [parent?_detach] at hq
    split at hq
    · cases hq
    · exact hf.fits j q hq

/-- Putting nodes after the children of a node: by induction on them, as
    each one is put there before the next. -/
theorem append (hf : f.Proper root) (hp : p < f.size)
    (hns : ∀ c ∈ ns, c < f.size ∧ c ≠ root ∧ (f.get p).kind.mayHold (f.get c).kind = true) :
    (f.append p ns).Proper root := by
  induction ns generalizing f with
  | nil => exact hf
  | cons c ns ih =>
    obtain ⟨⟨hc, hroot, hfits⟩, hns⟩ := List.forall_mem_cons.mp hns
    have hone := rehung_push hf.linked hp hc
    rw [Forest.append, List.foldl_cons]
    refine ih (hf.rehung hone (List.nodup_singleton c) (.refl _) ?_ ?_) ?_ fun i hi => ?_
    · simpa using Ne.symm hroot
    · simpa using hfits
    · rwa [hone.size]
    · obtain ⟨hi, hroot, hfits⟩ := hns i hi
      rw [hone.size, hone.kind, hone.kind]
      exact ⟨hi, hroot, hfits⟩

/-- Putting a node among the children of a node. -/
theorem insert (hf : f.Proper root) (hp : p < f.size) (hnodup : ns.Nodup)
    (hns : ∀ c ∈ ns, c < f.size ∧ c ≠ root ∧ (f.get p).kind.mayHold (f.get c).kind = true)
    (position : Int) : (f.insert p position ns).Proper root :=
  hf.rehung (rehung_insert hf.linked hp (fun c hc => (hns c hc).1) position) hnodup
    (perm_take_append_drop _ _ _) (fun hroot => (hns root hroot).2.1 rfl) fun c hc => (hns c hc).2.2

end Proper

/-! ## What edits leave alone -/

@[simp] theorem bare_append (f : Forest) (p : NodeId) (ns : List NodeId) (j : NodeId) :
    ((f.append p ns).get j).bare = (f.get j).bare := by
  induction ns generalizing f with
  | nil => rfl
  | cons c ns ih =>
    rw [append, List.foldl_cons]
    refine (ih _).trans ?_
    rw [← bare_adopt f p c, hang, get_modify]
    split <;> rfl

@[simp] theorem size_insert (f : Forest) (p : NodeId) (position : Int) (ns : List NodeId) :
    (f.insert p position ns).size = f.size := by
  have hadopt : ∀ f : Forest, (ns.foldl (fun f i => f.adopt p i) f).size = f.size := by
    induction ns with
    | nil => exact fun _ => rfl
    | cons c ns ih => exact fun f => (ih _).trans (size_adopt f p c)
  rw [insert, size_modify]
  exact hadopt f

@[simp] theorem bare_insert (f : Forest) (p : NodeId) (position : Int) (ns : List NodeId)
    (j : NodeId) : ((f.insert p position ns).get j).bare = (f.get j).bare := by
  have hadopt : ∀ f : Forest, ((ns.foldl (fun f i => f.adopt p i) f).get j).bare
      = (f.get j).bare := by
    induction ns with
    | nil => exact fun _ => rfl
    | cons c ns ih => exact fun f => (ih _).trans (bare_adopt f p c j)
  rw [insert, get_modify, ← hadopt f]
  split <;> rfl

theorem parent?_adopt_of_ne (f : Forest) (p : NodeId) (h : j ≠ i) :
    (f.adopt p i).parent? j = f.parent? j := by
  rw [adopt, parent?, get_modify_of_ne _ h]
  exact (parent?_detach f i j).trans (if_neg h)

/-- Nodes that are not hung up keep their parents. -/
theorem parent?_append_of_notMem (f : Forest) (p : NodeId) (h : j ∉ ns) :
    (f.append p ns).parent? j = f.parent? j := by
  induction ns generalizing f with
  | nil => rfl
  | cons c ns ih =>
    obtain ⟨hjc, hj⟩ := not_or.mp fun hmem => h (List.mem_cons.mpr hmem)
    have hstep : (f.hang p c).parent? j = (f.adopt p c).parent? j :=
      parent?_modify _ _ j fun _ => rfl
    rw [append, List.foldl_cons]
    exact (ih _ hj).trans (hstep.trans (parent?_adopt_of_ne f p hjc))

/-- Nodes that are hung up have their new parent. -/
theorem parent?_append_of_mem (h : i ∈ ns) (hns : ∀ c ∈ ns, c < f.size) :
    (f.append p ns).parent? i = some p := by
  induction ns generalizing f with
  | nil => cases h
  | cons c ns ih =>
    have hc := hns c List.mem_cons_self
    have hstep : ∀ j, (f.hang p c).parent? j = (f.adopt p c).parent? j :=
      fun j => parent?_modify _ _ j fun _ => rfl
    rw [append, List.foldl_cons]
    by_cases hmem : i ∈ ns
    · refine ih hmem fun c hc => ?_
      rw [size_hang]
      exact hns c (List.mem_cons_of_mem _ hc)
    · obtain rfl := (List.mem_cons.mp h).resolve_right hmem
      exact (parent?_append_of_notMem _ p hmem).trans ((hstep i).trans (by
        rw [parent?_adopt hc, if_pos rfl]))

/-! ## Lists -/

/-- What a change keeps of lists: their items stay where they are, and every
    new list gets one. -/
structure Listed (f g : Forest) : Prop where
  items : ∀ i < f.size, (f.get i).kind = .listItem → g.parent? i = f.parent? i
  filled : ∀ i, f.size ≤ i → (g.get i).kind.isList = true → g.children i ≠ []

theorem isList_of_size_le (h : f.size ≤ i) : (f.get i).kind.isList = false := by
  rw [get_of_size_le h]
  rfl

theorem children_ne_nil_iff (hf : f.Linked) : f.children p ≠ [] ↔ ∃ i, f.parent? i = some p := by
  simp only [← hf.mem_iff, ne_eq, List.eq_nil_iff_forall_not_mem, not_forall, not_not]

namespace Listed

variable {h : Forest} {n : Node}

/-- Without new nodes there are no new lists. -/
theorem of_size (hsize : g.size = f.size)
    (hitems : ∀ i < f.size, (f.get i).kind = .listItem → g.parent? i = f.parent? i) :
    f.Listed g where
  items := hitems
  filled i hi hlist := by
    rw [isList_of_size_le (hsize.trans_le hi)] at hlist
    cases hlist

theorem refl (f : Forest) : f.Listed f := of_size rfl fun _ _ _ => rfl

/-- A list that has an item keeps it. -/
theorem stays (hfg : f.Listed g) (hf : f.Proper root) (hg : g.Linked)
    (hlist : (f.get i).kind.isList = true) (hfilled : f.children i ≠ []) : g.children i ≠ [] := by
  obtain ⟨c, hc⟩ := (children_ne_nil_iff hf.linked).mp hfilled
  have hitem := Kind.eq_listItem_of_mayHold hlist (hf.fits c i hc)
  exact (children_ne_nil_iff hg).mpr ⟨c, (hfg.items c (lt_size_of_parent? hc) hitem).trans hc⟩

theorem trans (hfg : f.Listed g) (hgh : g.Listed h) (hsize : f.size ≤ g.size)
    (hkind : ∀ i < f.size, (g.get i).kind = (f.get i).kind)
    (hkind' : ∀ i < g.size, (h.get i).kind = (g.get i).kind) (hg : g.Proper root)
    (hh : h.Linked) : f.Listed h where
  items i hi hitem :=
    (hgh.items i (Nat.lt_of_lt_of_le hi hsize) ((hkind i hi).trans hitem)).trans
      (hfg.items i hi hitem)
  filled i hi hlist := by
    rcases Nat.lt_or_ge i g.size with hlt | hge
    · rw [hkind' i hlt] at hlist
      exact hgh.stays hg hh hlist (hfg.filled i hi hlist)
    · exact hgh.filled i hge hlist

/-- Anything but items may be put elsewhere. -/
theorem append (p : NodeId) (hns : ∀ c ∈ ns, (f.get c).kind ≠ .listItem) :
    f.Listed (f.append p ns) :=
  of_size (size_append f p ns) fun i _ hitem =>
    parent?_append_of_notMem f p fun hmem => hns i hmem hitem

/-- A new node over anything but items. -/
theorem element (hn : n.kind.isList = false) (hns : ∀ c ∈ ns, (f.get c).kind ≠ .listItem) :
    f.Listed ((f.alloc n).2.append f.size ns) where
  items i _ hitem :=
    (parent?_append_of_notMem _ _ fun hmem => hns i hmem hitem).trans (parent?_alloc f n i)
  filled i hi hlist := by
    rw [kind_of_bare (bare_append _ _ _ _), get_alloc] at hlist
    split at hlist
    · exact absurd (hn.symm.trans hlist) nofun
    · exact absurd ((isList_of_size_le hi).symm.trans hlist) nofun

theorem alloc (hn : n.kind.isList = false) : f.Listed (f.alloc n).2 :=
  element hn (List.forall_mem_nil _)

/-- A list is new once it is filled. -/
theorem of_alloc (h : (f.alloc n).2.Listed g) (hfilled : g.children f.size ≠ []) : f.Listed g where
  items i hi hitem := by
    rw [h.items i, parent?_alloc]
    · exact Nat.lt_of_lt_of_eq (Nat.lt_succ_of_lt hi) (size_alloc f n).symm
    · rwa [get_alloc, if_neg (Nat.ne_of_lt hi)]
  filled i hi hlist := by
    rcases Nat.eq_or_lt_of_le hi with rfl | hlt
    · exact hfilled
    · exact h.filled i ((size_alloc f n).trans_le hlt) hlist

/-- A new node that stands nowhere is put under another one. -/
theorem append_orphan (hfg : f.Listed g) (hi : f.size ≤ i)
    (horphan : g.parent? i = none) (hg : g.Linked) (hh : (g.append p [i]).Linked) :
    f.Listed (g.append p [i]) where
  items j hj hitem := by
    have hne : j ∉ [i] := fun hmem => Nat.not_lt_of_le hi (List.mem_singleton.mp hmem ▸ hj)
    exact (parent?_append_of_notMem g p hne).trans (hfg.items j hj hitem)
  filled j hj hlist := by
    rw [kind_of_bare (bare_append _ _ _ _)] at hlist
    obtain ⟨c, hc⟩ := (children_ne_nil_iff hg).mp (hfg.filled j hj hlist)
    have hne : c ∉ [i] := fun hmem => by
      rw [List.mem_singleton.mp hmem, horphan] at hc
      cases hc
    exact (children_ne_nil_iff hh).mpr ⟨c, (parent?_append_of_notMem g p hne).trans hc⟩

end Listed

end Forest

/-! ## Documents -/

/-- The passes that pending nodes wait for. -/
def Pass.delayed : List Pass := [.contents, .sectionNumbers, .classAttribute]

namespace Document

/-- The node waits for a table of contents. -/
def AwaitsContents (d : Document) (i : NodeId) : Prop :=
  ∃ r ∈ d.requests, r.target = i ∧ r.kind = Pass.contents.kind

/-- Every pending node waits for one pass. -/
structure Accounted (d : Document) : Prop where
  proper : d.forest.Proper d.root
  /-- The document was asked for it once. -/
  asked : ∀ i, (d.node i).kind = .pending → (d.requests.map (·.target)).count i = 1
  delayed : ∀ r ∈ d.requests,
    (d.node r.target).kind = .pending ∧ r.kind ∈ Pass.delayed.map Pass.kind
  /-- The node of a table of contents stands in its topic. -/
  topical : ∀ i t, d.AwaitsContents i → d.forest.parent? i = some t → (d.node t).kind = .topic
  /-- The names of substitutions stand for definitions. -/
  defined : ∀ name i, d.substitutions.get? name = some i →
    (d.node i).kind = .substitutionDefinition

/-- A node that may be put under one of kind `k`. -/
structure MayHang (d : Document) (k : Kind) (i : NodeId) : Prop where
  inside : i < d.forest.size
  ne_root : i ≠ d.root
  fits : k.mayHold (d.node i).kind = true
  topical : d.AwaitsContents i → k = .topic

/-- A node that may hold nodes of any kind but the items of lists. -/
structure Roomy (d : Document) (p : NodeId) : Prop where
  inside : p < d.forest.size
  kind : (d.node p).kind.isRoomy = true

variable {d : Document} {g : Forest} {k : Kind} {p i : NodeId} {ns : List NodeId}

/-- Nothing beyond the nodes is pending. -/
theorem kind_of_size_le (hi : d.forest.size ≤ i) : (d.node i).kind ≠ .pending := by
  rw [Document.node, Forest.get_of_size_le hi]
  decide

namespace Accounted

theorem target_lt (h : d.Accounted) {r : Request} (hr : r ∈ d.requests) :
    r.target < d.forest.size :=
  Nat.lt_of_not_le fun hle => kind_of_size_le hle (h.delayed r hr).1

theorem lt_of_awaitsContents (h : d.Accounted) (hi : d.AwaitsContents i) : i < d.forest.size := by
  obtain ⟨r, hr, rfl, -⟩ := hi
  exact h.target_lt hr

/-- Changes of the tree that keep the kinds of its nodes, add no pending
    nodes and put the nodes of tables of contents into topics only. -/
theorem replant (h : d.Accounted) (hproper : g.Proper d.root)
    (hkind : ∀ i < d.forest.size, (g.get i).kind = (d.node i).kind)
    (hnew : ∀ i, d.forest.size ≤ i → (g.get i).kind ≠ .pending)
    (hparent : ∀ i t, d.AwaitsContents i → g.parent? i = some t →
      d.forest.parent? i = some t ∨ (g.get t).kind = .topic) :
    ({ d with forest := g } : Document).Accounted where
  proper := hproper
  asked i hi := by
    rcases Nat.lt_or_ge i d.forest.size with hlt | hge
    · exact h.asked i ((hkind i hlt).symm.trans hi)
    · exact absurd hi (hnew i hge)
  delayed r hr := ⟨(hkind _ (h.target_lt hr)).trans (h.delayed r hr).1, (h.delayed r hr).2⟩
  topical i t hi ht := by
    rcases hparent i t hi ht with hold | htopic
    · have hmem := (h.proper.linked.mem_iff _ _).mpr hold
      exact (hkind t (Forest.lt_size_of_mem_children hmem)).trans (h.topical i t hi hold)
    · exact htopic
  defined name i hi := by
    have hold := h.defined name i hi
    exact (hkind i (Forest.lt_size_of_kind (by decide) hold)).trans hold

/-- A new node that is not pending. -/
theorem alloc (h : d.Accounted) {n : Node} (hn : n.kind ≠ .pending) :
    ({ d with forest := (d.forest.alloc n).2 } : Document).Accounted := by
  refine h.replant (h.proper.alloc n) (fun i hi => ?_) (fun i hi => ?_) fun i t hi ht => .inl ?_
  · rw [Forest.get_alloc, if_neg (Nat.ne_of_lt hi)]
    rfl
  · rw [Forest.get_alloc]
    split
    · exact hn
    · exact kind_of_size_le hi
  · rwa [Forest.parent?, Forest.get_alloc, if_neg (Nat.ne_of_lt (h.lt_of_awaitsContents hi))] at ht

/-- A new pending node, and the request for its pass. -/
theorem request (h : d.Accounted) {n : Node} {r : Request} (hn : n.kind = .pending)
    (htarget : r.target = d.forest.size) (hkind : r.kind ∈ Pass.delayed.map Pass.kind) :
    ({ d with forest := (d.forest.alloc n).2, requests := d.requests ++ [r] } : Document).Accounted
    where
  proper := h.proper.alloc n
  asked i hi := by
    rw [Document.node, Forest.get_alloc] at hi
    rw [List.map_append, List.count_append]
    split at hi
    · -- For the new node there was no request before.
      rename_i heq
      have hnone : (d.requests.map (·.target)).count i = 0 := by
        refine List.count_eq_zero.mpr fun hmem => ?_
        obtain ⟨r, hr, rfl⟩ := List.mem_map.mp hmem
        exact Nat.lt_irrefl _ (Nat.lt_of_lt_of_eq (h.target_lt hr) heq.symm)
      rw [hnone, heq, List.map_singleton, htarget]
      simp
    · rename_i hne
      rw [h.asked i hi, List.map_singleton, htarget, List.count_singleton]
      simp [Ne.symm hne]
  delayed r' hr' := by
    rw [Document.node, Forest.get_alloc]
    rcases List.mem_append.mp hr' with hr' | hr'
    · rw [if_neg (Nat.ne_of_lt (h.target_lt hr'))]
      exact h.delayed r' hr'
    · obtain rfl := List.mem_singleton.mp hr'
      rw [if_pos htarget]
      exact ⟨hn, hkind⟩
  topical i t hi ht := by
    obtain ⟨r', hr', rfl, hcontents⟩ := hi
    rw [Forest.parent?, Forest.get_alloc] at ht
    split at ht
    · cases ht
    · rename_i hne
      have hr' : r' ∈ d.requests := (List.mem_append.mp hr').resolve_right fun hlast =>
        hne ((congrArg Request.target (List.mem_singleton.mp hlast)).trans htarget)
      have hlt := Forest.lt_size_of_mem_children ((h.proper.linked.mem_iff _ _).mpr ht)
      rw [Document.node, Forest.get_alloc, if_neg (Nat.ne_of_lt hlt)]
      exact h.topical r'.target t ⟨r', hr', rfl, hcontents⟩ ht
  defined name i hi := by
    have hold := h.defined name i hi
    have hlt : i < d.forest.size := Forest.lt_size_of_kind (by decide) hold
    rw [Document.node, Forest.get_alloc, if_neg (Nat.ne_of_lt hlt)]
    exact hold

/-- Nodes are put after the children of a node that may hold them. -/
theorem append (h : d.Accounted) (hp : p < d.forest.size)
    (hns : ∀ c ∈ ns, d.MayHang (d.node p).kind c) :
    ({ d with forest := d.forest.append p ns } : Document).Accounted := by
  have hkind : ∀ i, ((d.forest.append p ns).get i).kind = (d.node i).kind := fun i =>
    Forest.kind_of_bare (Forest.bare_append _ _ _ _)
  refine h.replant (h.proper.append hp fun c hc => ⟨(hns c hc).inside, (hns c hc).ne_root,
    (hns c hc).fits⟩) (fun i _ => hkind i) (fun i hi => ?_) fun i t hi ht => ?_
  · rw [hkind]
    exact kind_of_size_le hi
  · by_cases hmem : i ∈ ns
    · rw [Forest.parent?_append_of_mem hmem fun c hc => (hns c hc).inside] at ht
      cases ht
      rw [hkind]
      exact .inr ((hns i hmem).topical hi)
    · rw [Forest.parent?_append_of_notMem _ _ hmem] at ht
      exact .inl ht

/-- A node is taken out of its parent. -/
theorem detach (h : d.Accounted) (i : NodeId) :
    ({ d with forest := d.forest.detach i } : Document).Accounted := by
  have hkind : ∀ j, ((d.forest.detach i).get j).kind = (d.node j).kind := fun j =>
    Forest.kind_of_bare (Forest.bare_detach _ _ _)
  refine h.replant (h.proper.detach i) (fun j _ => hkind j) (fun j hj => ?_) fun j t _ ht => .inl ?_
  · rw [hkind]
    exact kind_of_size_le hj
  · rw [Forest.parent?_detach] at ht
    split at ht
    · cases ht
    · exact ht

/-- Nodes are put among the children of a node that may hold them. -/
theorem insert (h : d.Accounted) (hp : p < d.forest.size) (hnodup : ns.Nodup)
    (hns : ∀ c ∈ ns, d.MayHang (d.node p).kind c) (position : Int) :
    ({ d with forest := d.forest.insert p position ns } : Document).Accounted := by
  have hrehung := Forest.rehung_insert h.proper.linked hp (fun c hc => (hns c hc).inside)
    position
  have hkind : ∀ i, ((d.forest.insert p position ns).get i).kind = (d.node i).kind := hrehung.kind
  refine h.replant (h.proper.insert hp hnodup (fun c hc => ⟨(hns c hc).inside, (hns c hc).ne_root,
    (hns c hc).fits⟩) position) (fun i _ => hkind i) (fun i hi => ?_) fun i t hi ht => ?_
  · rw [hkind]
    exact kind_of_size_le hi
  · rw [hrehung.parent] at ht
    split at ht
    · rename_i hmem
      cases ht
      rw [hkind]
      exact .inr ((hns i hmem).topical hi)
    · exact .inl ht

/-- Whatever stands in anything but a topic or a list may be put
    elsewhere. -/
theorem mayHang_of_mem_children (h : d.Accounted) (hp : (d.node p).kind ≠ .topic)
    (hlist : (d.node p).kind.isList = false) (hi : i ∈ d.forest.children p) :
    d.MayHang .container i := by
  have hparent := (h.proper.linked.mem_iff i p).mp hi
  have hitem := Kind.ne_listItem_of_mayHold hlist (h.proper.fits i p hparent)
  refine ⟨Forest.lt_size_of_parent? hparent, ?_, Kind.mayHold_of_isRoomy rfl hitem, fun hwait => ?_⟩
  · rintro rfl
    rw [h.proper.top] at hparent
    cases hparent
  · exact absurd (h.topical i p hwait hparent) hp

/-- A list holds items. -/
theorem kind_of_mem_list (h : d.Accounted) (hp : (d.node p).kind.isList = true)
    (hi : i ∈ d.forest.children p) : (d.node i).kind = .listItem :=
  Kind.eq_listItem_of_mayHold hp (h.proper.fits i p ((h.proper.linked.mem_iff i p).mp hi))

/-- A node is changed where it stands. -/
theorem modify (h : d.Accounted) (i : NodeId) {a : Node → Node} (hkind : ∀ n, (a n).kind = n.kind)
    (hparent : ∀ n, (a n).parent = n.parent) (hchildren : ∀ n, (a n).children = n.children) :
    ({ d with forest := d.forest.modify i a } : Document).Accounted := by
  have hget : ∀ j, ((d.forest.modify i a).get j).kind = (d.node j).kind :=
    fun j => Forest.kind_modify d.forest i j hkind
  refine h.replant (h.proper.modify i (hkind _) (hparent _) (hchildren _)) (fun j _ => hget j)
    (fun j hj => ?_) fun j t _ ht => .inl ?_
  · rw [hget]
    exact kind_of_size_le hj
  · rw [Forest.parent?, Forest.get_modify] at ht
    split at ht
    · exact (hparent _).symm.trans ht
    · exact ht

end Accounted

end Document

end MarkupLint
