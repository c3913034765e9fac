import MarkupLint.Proofs.Account
import MarkupLint.Proofs.Collecting
import MarkupLint.Proofs.Copying
import MarkupLint.Proofs.Regime

/-! # Passes on a document with pending nodes

    A pass works on a document in which nodes are pending.  A `Ledger` says
    which ones, which of them wait for a table of contents, and what stood
    outside of the tree before the pass.  A document is kept by the ledger
    (`Ledger.Holds`) if the pending nodes are still those of the ledger, text
    in a line still holds nothing but such text, and whatever stood outside
    stands in nothing but what stood outside too.

    So a node that is out of the tree before a pass is out of it afterwards
    (`Ledger.Holds.not_above`), whatever is moved and copied in between. -/

namespace MarkupLint

/-- Whether nodes of the kind hold nothing but text in a line. -/
def Kind.confines (k : Kind) : Bool := k.isPhrase || k == .substitutionDefinition

/-- What a node of a kind may become: titles may become subtitles. -/
def Kind.Becomes (k k' : Kind) : Prop := k' = k ∨ k = .title ∧ k' = .subtitle

namespace Kind.Becomes

variable {k k' k'' : Kind}

theorem trans (h : k.Becomes k') (h' : k'.Becomes k'') : k.Becomes k'' := by
  rcases h with rfl | ⟨rfl, rfl⟩
  · exact h'
  · rcases h' with rfl | ⟨h', -⟩
    · exact .inr ⟨rfl, rfl⟩
    · cases h'

theorem eq (h : k.Becomes k') (hk : k ≠ .title) : k' = k := h.resolve_right fun h => hk h.1

/-- What holds of subtitles as of titles holds as it did. -/
theorem congr (h : k.Becomes k') {α : Type} {P : Kind → α} (hP : P .subtitle = P .title) :
    P k' = P k := by
  rcases h with rfl | ⟨rfl, rfl⟩
  · rfl
  · exact hP

theorem eq_iff (h : k.Becomes k') {c : Kind} (hsub : c ≠ .subtitle) (htitle : c ≠ .title) :
    k' = c ↔ k = c := by
  rcases h with rfl | ⟨rfl, rfl⟩
  · rfl
  · exact iff_of_false (Ne.symm hsub) (Ne.symm htitle)

end Kind.Becomes

/-- What is known of the nodes of a document before a pass. -/
structure Ledger where
  root : NodeId
  /-- How many nodes there are. -/
  size : Nat
  /-- The nodes that are pending. -/
  pending : NodeId → Prop
  /-- The nodes that wait for a table of contents. -/
  awaits : NodeId → Prop
  /-- The nodes that do not stand below the root. -/
  outside : NodeId → Prop
  root_lt : root < size
  root_inside : ¬outside root
  pending_lt : ∀ i, pending i → i < size
  pending_of_awaits : ∀ i, awaits i → pending i
  outside_lt : ∀ i, outside i → i < size

namespace Ledger

variable (L : Ledger)

/-- A node may stand under another one. -/
structure Fits (d : Document) (p i : NodeId) : Prop where
  outside : L.outside i → L.outside p
  topical : L.awaits i → (d.node p).kind = .topic
  phrase : (d.node p).kind.confines = true → (d.node i).kind.isPhrase = true

/-- A node may be put under another one. -/
structure MayHang (d : Document) (p i : NodeId) : Prop where
  inside : i < d.forest.size
  ne_root : i ≠ L.root
  fits : L.Fits d p i
  settled : ¬L.awaits i
  /-- A pending node that stands nowhere stays there. -/
  standing : L.pending i → ∃ q, d.forest.parent? i = some q

/-- The document is kept by the ledger. -/
structure Holds (d : Document) : Prop where
  root : d.root = L.root
  size : L.size ≤ d.forest.size
  linked : d.forest.Linked
  kind : (d.node L.root).kind = .document
  top : d.forest.parent? L.root = none
  pending : ∀ i, (d.node i).kind = .pending ↔ L.pending i
  fits : ∀ i p, d.forest.parent? i = some p → L.Fits d p i
  defined : ∀ name i, d.substitutions.get? name = some i →
    (d.node i).kind = .substitutionDefinition

/-- A document was changed as the ledger admits: nodes are added, titles may
    become subtitles, a pending node that stands nowhere is put nowhere, and
    one that waits for a table of contents is put nowhere else. -/
structure Leads (d e : Document) : Prop where
  holds : L.Holds e
  size : d.forest.size ≤ e.forest.size
  kind : ∀ i < d.forest.size, (d.node i).kind.Becomes (e.node i).kind
  orphan : ∀ i, L.pending i → d.forest.parent? i = none → e.forest.parent? i = none
  settled : ∀ i, L.awaits i →
    e.forest.parent? i = d.forest.parent? i ∨ e.forest.parent? i = none

/-- Steps that a ledger admits. -/
def regime : Regime Document where
  holds := L.Holds
  leads := L.Leads
  stops _ _ _ := True
  refl hd := ⟨hd, Nat.le_refl _, fun _ _ => .inl rfl, fun _ _ h => h, fun _ _ => .inl rfl⟩
  trans hde hef := by
    refine ⟨hef.holds, Nat.le_trans hde.size hef.size, fun i hi =>
      (hde.kind i hi).trans (hef.kind i (Nat.lt_of_lt_of_le hi hde.size)), fun i hi h =>
      hef.orphan i hi (hde.orphan i hi h), fun i hi => ?_⟩
    rcases hef.settled i hi with hsame | hnone
    · rw [hsame]
      exact hde.settled i hi
    · exact .inr hnone
  holds_leads hde := hde.holds
  stops_leads _ _ := trivial

/-- From a document on, a step is admitted and gives what satisfies `P`. -/
abbrev Meets {α : Type} (d : Document) (x : Build α) (P : α → Document → Prop) : Prop :=
  L.regime.Meets d x P

/-- From a document on, a step is admitted. -/
abbrev Keeps {α : Type} (d : Document) (x : Build α) : Prop := L.regime.Keeps d x

/-- The node is not among those of the ledger. -/
structure New (d : Document) (i : NodeId) : Prop where
  new : L.size ≤ i
  inside : i < d.forest.size

/-- The node is not among those of the ledger, and text in a line. -/
structure Phrase (d : Document) (i : NodeId) : Prop extends L.New d i where
  kind : (d.node i).kind.isPhrase = true

variable {L : Ledger} {d e : Document} {g : Forest} {i j p : NodeId} {ns kids : List NodeId}

theorem Leads.trans {c : Document} (hde : L.Leads d e) (hec : L.Leads e c) : L.Leads d c :=
  L.regime.trans hde hec

theorem New.leads (h : L.New d i) (hde : L.Leads d e) : L.New e i :=
  ⟨h.new, Nat.lt_of_lt_of_le h.inside hde.size⟩

theorem Phrase.leads (h : L.Phrase d i) (hde : L.Leads d e) : L.Phrase e i where
  toNew := h.toNew.leads hde
  kind := ((hde.kind i h.inside).congr (P := Kind.isPhrase) rfl).trans h.kind

theorem New.ne_root (h : L.New d i) : i ≠ L.root :=
  Nat.ne_of_gt (Nat.lt_of_lt_of_le L.root_lt h.new)

/-- New nodes may stand wherever their kinds may. -/
theorem New.fits (h : L.New d i)
    (hk : (d.node p).kind.confines = true → (d.node i).kind.isPhrase = true) : L.Fits d p i where
  outside hi := absurd h.new (Nat.not_le.mpr (L.outside_lt i hi))
  topical hi := absurd h.new (Nat.not_le.mpr (L.pending_lt i (L.pending_of_awaits i hi)))
  phrase := hk

theorem New.not_pending (h : L.New d i) : ¬L.pending i := fun hi =>
  absurd h.new (Nat.not_le.mpr (L.pending_lt i hi))

/-- New nodes may be put wherever their kinds may stand. -/
theorem New.mayHang (h : L.New d i)
    (hk : (d.node p).kind.confines = true → (d.node i).kind.isPhrase = true) : L.MayHang d p i where
  inside := h.inside
  ne_root := h.ne_root
  fits := h.fits hk
  settled hi := h.not_pending (L.pending_of_awaits i hi)
  standing hi := absurd hi h.not_pending

namespace Holds

variable (hd : L.Holds d)

include hd

/-- What stood outside is not below the root. -/
theorem not_above (hi : L.outside i) : ¬d.forest.Above L.root i := by
  intro h
  induction h with
  | here => exact L.root_inside hi
  | up hp _ ih => exact ih ((hd.fits _ _ hp).outside hi)

theorem not_outside (h : d.forest.Above L.root i) : ¬L.outside i := fun hi => hd.not_above hi h

theorem ne_root_of_parent? (h : d.forest.parent? i = some p) : i ≠ L.root := by
  rintro rfl
  rw [hd.top] at h
  cases h

theorem lt_size_of_parent? (h : d.forest.parent? i = some p) : p < d.forest.size :=
  Forest.lt_size_of_mem_children ((hd.linked.mem_iff i p).mpr h)

theorem kind_of_substitution? {name : String} (h : d.substitution? name = some i) :
    (d.node i).kind = .substitutionDefinition := by
  simp only [Document.substitution?] at h
  split at h
  · rename_i hfound
    cases h
    exact hd.defined _ _ hfound
  · obtain ⟨exact, -, hexact⟩ := Option.bind_eq_some_iff.mp h
    exact hd.defined exact i hexact

/-- What holds anything but text in a line holds nodes of any kind. -/
theorem not_confines (h : d.forest.parent? i = some p) (hi : (d.node i).kind.isPhrase = false) :
    (d.node p).kind.confines = false := by
  by_contra hne
  have hphrase := (hd.fits i p h).phrase (by simpa using hne)
  rw [hi] at hphrase
  cases hphrase

/-- And so does all that it stands in. -/
theorem not_confines_of_above (ha : d.forest.Above p i) (hne : p ≠ i)
    (hi : (d.node i).kind.isPhrase = false) : (d.node p).kind.confines = false := by
  induction ha with
  | here => exact absurd rfl hne
  | @up i q hq rest ih =>
    have hconfines := hd.not_confines hq hi
    by_cases hpq : p = q
    · rw [hpq]
      exact hconfines
    · refine ih hpq ?_
      simp only [Kind.confines, Bool.or_eq_false_iff] at hconfines
      exact hconfines.1

/-- Another tree in the place of the one that is there. -/
theorem leads_forest (hsize : d.forest.size ≤ g.size) (hlinked : g.Linked)
    (hkind : ∀ i < d.forest.size, (d.node i).kind.Becomes (g.get i).kind)
    (hnew : ∀ i, d.forest.size ≤ i → (g.get i).kind ≠ .pending)
    (htop : g.parent? L.root = none)
    (hfits : ∀ i p, g.parent? i = some p → L.Fits { d with forest := g } p i)
    (horphan : ∀ i, L.pending i → d.forest.parent? i = none → g.parent? i = none)
    (hsettled : ∀ i, L.awaits i → g.parent? i = d.forest.parent? i ∨ g.parent? i = none) :
    L.Leads d { d with forest := g } := by
  have hroot : L.root < d.forest.size := Nat.lt_of_lt_of_le L.root_lt hd.size
  refine ⟨⟨hd.root, Nat.le_trans hd.size hsize, hlinked, ?_, htop, fun i => ?_, hfits, fun name i hi => ?_⟩,
    hsize, hkind, horphan, hsettled⟩
  · refine ((hkind L.root hroot).eq ?_).trans hd.kind
    rw [hd.kind]
    decide
  · rw [← hd.pending i]
    show (g.get i).kind = .pending ↔ _
    by_cases hi : i < d.forest.size
    · exact (hkind i hi).eq_iff (by decide) (by decide)
    · exact iff_of_false (hnew i (Nat.le_of_not_lt hi)) (Document.kind_of_size_le (Nat.le_of_not_lt hi))
  · have hold := hd.defined name i hi
    refine ((hkind i (Forest.lt_size_of_kind (by decide) hold)).eq ?_).trans hold
    rw [hold]
    decide

/-- The same tree, whatever else is changed. -/
theorem leads_rest (hforest : e.forest = d.forest) (hroot : e.root = d.root)
    (hsubstitutions : e.substitutions = d.substitutions) : L.Leads d e := by
  have hnode : ∀ i, e.node i = d.node i := fun i => by
    rw [Document.node, hforest]
    rfl
  refine ⟨⟨hroot.trans hd.root, hforest ▸ hd.size, hforest ▸ hd.linked, ?_, hforest ▸ hd.top,
    fun i => ?_, fun i p h => ?_, fun name i h => ?_⟩, Nat.le_of_eq (by rw [hforest]),
    fun i _ => .inl (by rw [hnode]), fun i _ h => hforest ▸ h, fun i _ => .inl (by rw [hforest])⟩
  · rw [hnode]
    exact hd.kind
  · rw [hnode]
    exact hd.pending i
  · rw [hforest] at h
    obtain ⟨houtside, htopical, hphrase⟩ := hd.fits i p h
    refine ⟨houtside, ?_, ?_⟩
    · rwa [hnode]
    · rwa [hnode, hnode]
  · rw [hnode]
    rw [hsubstitutions] at h
    exact hd.defined name i h

/-- Trees that have the nodes of the old one where they were, but for some
    that are put under one node. -/
theorem leads_hung (p : NodeId) (ns : List NodeId) (hsize : g.size = d.forest.size) (hlinked : g.Linked)
    (hbare : ∀ i, (g.get i).bare = (d.node i).bare)
    (hparent : ∀ i q, g.parent? i = some q →
      d.forest.parent? i = some q ∨ i ∈ ns ∧ q = p)
    (hsettled : ∀ i, L.awaits i → i ∉ ns →
      g.parent? i = d.forest.parent? i ∨ g.parent? i = none)
    (hns : ∀ c ∈ ns, L.MayHang d p c) : L.Leads d { d with forest := g } := by
  have hkind : ∀ i, (g.get i).kind = (d.node i).kind := fun i => Forest.kind_of_bare (hbare i)
  refine hd.leads_forest (Nat.le_of_eq hsize.symm) hlinked (fun i _ => .inl (hkind i)) (fun i hi => ?_)
    ?_ (fun i q hq => ?_) (fun i hi hnone => ?_)
    fun i hi => hsettled i hi fun hmem => (hns i hmem).settled hi
  · rw [hkind]
    exact Document.kind_of_size_le hi
  · cases hroot : g.parent? L.root with
    | none => rfl
    | some q =>
      rcases hparent _ q hroot with hold | ⟨hmem, -⟩
      · exact absurd rfl (hd.ne_root_of_parent? hold)
      · exact absurd rfl (hns _ hmem).ne_root
  · have hfits : L.Fits d q i := by
      rcases hparent i q hq with hold | ⟨hmem, rfl⟩
      · exact hd.fits i q hold
      · exact (hns i hmem).fits
    refine ⟨hfits.outside, fun hi => ?_, fun hq => ?_⟩
    · exact (hkind q).trans (hfits.topical hi)
    · exact (congrArg Kind.isPhrase (hkind i)).trans
        (hfits.phrase ((congrArg Kind.confines (hkind q)).symm.trans hq))
  · cases hg : g.parent? i with
    | none => rfl
    | some q =>
      rcases hparent i q hg with hold | ⟨hmem, -⟩
      · rw [hnone] at hold
        cases hold
      · obtain ⟨q', hq'⟩ := (hns i hmem).standing hi
        rw [hnone] at hq'
        cases hq'

/-- Nodes are put under one node, and nothing else happens. -/
theorem leads_rehung (h : d.forest.Rehung g p ns kids) (hnodup : ns.Nodup)
    (hkids : kids.Perm ((d.forest.children p).filter (· ∉ ns) ++ ns)) (hns : ∀ c ∈ ns, L.MayHang d p c) :
    L.Leads d { d with forest := g } := by
  refine hd.leads_hung p ns h.size (h.linked hd.linked hnodup hkids) h.bare
    (fun i q hq => ?_) (fun i _ hi => .inl ?_) hns
  · rw [h.parent] at hq
    split at hq
    · rename_i hmem
      exact .inr ⟨hmem, (Option.some.inj hq).symm⟩
    · exact .inl hq
  · rw [h.parent, if_neg hi]

theorem leads_detach (i : NodeId) : L.Leads d { d with forest := d.forest.detach i } := by
  refine hd.leads_hung i [] (Forest.size_detach _ _) (hd.linked.detach i)
    (Forest.bare_detach _ _) (fun j q hq => .inl ?_) (fun j _ _ => ?_) (List.forall_mem_nil _)
  · rw [Forest.parent?_detach] at hq
    split at hq
    · cases hq
    · exact hq
  · rw [Forest.parent?_detach]
    split
    · exact .inr rfl
    · exact .inl rfl

theorem leads_insert (hp : p < d.forest.size) (hnodup : ns.Nodup) (hns : ∀ c ∈ ns, L.MayHang d p c)
    (position : Int) : L.Leads d { d with forest := d.forest.insert p position ns } :=
  hd.leads_rehung (Forest.rehung_insert hd.linked hp (fun c hc => (hns c hc).inside)
    position) hnodup (Forest.perm_take_append_drop _ _ _) hns

theorem leads_append (hp : p < d.forest.size) (hns : ∀ c ∈ ns, L.MayHang d p c) :
    L.Leads d { d with forest := d.forest.append p ns } := by
  have hlinked : ∀ {f : Forest}, f.Linked → p < f.size → (∀ c ∈ ns, c < f.size) →
      (f.append p ns).Linked := by
    clear hns
    induction ns with
    | nil => exact fun hf _ _ => hf
    | cons c ns ih =>
      intro f hf hp hns
      obtain ⟨hc, hns⟩ := List.forall_mem_cons.mp hns
      have hone := Forest.rehung_push hf hp hc
      rw [Forest.append, List.foldl_cons]
      refine ih (hone.linked hf (List.nodup_singleton c) (.refl _)) ?_ fun i hi => ?_
      · rwa [hone.size]
      · rw [hone.size]
        exact hns i hi
  refine hd.leads_hung p ns (Forest.size_append _ _ _)
    (hlinked hd.linked hp fun c hc => (hns c hc).inside) (Forest.bare_append _ _ _) (fun i q hq => ?_)
    (fun i _ hi => .inl (Forest.parent?_append_of_notMem _ _ hi)) hns
  by_cases hmem : i ∈ ns
  · rw [Forest.parent?_append_of_mem hmem fun c hc => (hns c hc).inside] at hq
    exact .inr ⟨hmem, (Option.some.inj hq).symm⟩
  · rw [Forest.parent?_append_of_notMem _ _ hmem] at hq
    exact .inl hq

/-- Nodes stand in the place of another one. -/
theorem leads_replaceWith (hnodup : ns.Nodup)
    (hns : ∀ p, d.forest.parent? i = some p → ∀ c ∈ ns, c ≠ i ∧ L.MayHang d p c) :
    L.Leads d { d with forest := d.forest.replaceWith i ns } := by
  unfold Forest.replaceWith
  split
  · exact L.regime.refl hd
  · rename_i p hp
    have hdetach := hd.leads_detach i
    have hnode : ∀ j, ((d.forest.detach i).get j).kind = (d.node j).kind := fun j =>
      Forest.kind_of_bare (Forest.bare_detach _ _ _)
    refine hdetach.trans (hdetach.holds.leads_insert ?_ hnodup (fun c hc => ?_) _)
    · show p < (d.forest.detach i).size
      rw [Forest.size_detach]
      exact hd.lt_size_of_parent? hp
    · obtain ⟨hne, hmay⟩ := hns p hp c hc
      refine ⟨?_, hmay.ne_root, ⟨hmay.fits.outside, fun hi => ?_, fun hk => ?_⟩, hmay.settled,
        fun hi => ?_⟩
      · show c < (d.forest.detach i).size
        rw [Forest.size_detach]
        exact hmay.inside
      · exact (hnode p).trans (hmay.fits.topical hi)
      · refine (congrArg Kind.isPhrase (hnode c)).trans (hmay.fits.phrase ?_)
        exact (congrArg Kind.confines (hnode p)).symm.trans hk
      · obtain ⟨q, hq⟩ := hmay.standing hi
        exact ⟨q, (Forest.parent?_detach _ _ _).trans ((if_neg hne).trans hq)⟩

/-- A node is changed where it stands. -/
theorem leads_modify (i : NodeId) {a : Node → Node}
    (hkind : (d.node i).kind.Becomes (a (d.node i)).kind)
    (hparent : ∀ n, (a n).parent = n.parent) (hchildren : ∀ n, (a n).children = n.children) :
    L.Leads d { d with forest := d.forest.modify i a } := by
  have hget : ∀ j, (d.node j).kind.Becomes ((d.forest.modify i a).get j).kind := fun j => by
    rw [Forest.get_modify]
    split
    · rename_i hij
      exact hij.1 ▸ hkind
    · exact .inl rfl
  have hparent' : ∀ j, (d.forest.modify i a).parent? j = d.forest.parent? j :=
    fun j => Forest.parent?_modify d.forest i j hparent
  have hchildren' : ∀ j, (d.forest.modify i a).children j = d.forest.children j :=
    fun j => Forest.children_modify d.forest i j hchildren
  refine hd.leads_forest (Nat.le_of_eq (Forest.size_modify _ _ _).symm) ⟨fun q => ?_, fun c q => ?_⟩
    (fun j _ => hget j) (fun j hj hk => ?_) ((hparent' _).trans hd.top) (fun j q hq => ?_)
    (fun j _ hnone => (hparent' j).trans hnone) fun j _ => .inl (hparent' j)
  · rw [hchildren']
    exact hd.linked.nodup q
  · rw [hchildren', hparent']
    exact hd.linked.mem_iff c q
  · exact Document.kind_of_size_le hj (((hget j).eq_iff (by decide) (by decide)).mp hk)
  · rw [hparent'] at hq
    have hfits := hd.fits j q hq
    refine ⟨hfits.outside, fun hi => ?_, fun hk => ?_⟩
    · exact ((hget q).eq_iff (by decide) (by decide)).mpr (hfits.topical hi)
    · have hconfines : (d.node q).kind.confines = true :=
        ((hget q).congr (P := Kind.confines) rfl).symm.trans hk
      exact ((hget j).congr (P := Kind.isPhrase) rfl).trans (hfits.phrase hconfines)

/-- A new node that is not pending. -/
theorem leads_alloc {n : Node} (hn : n.kind ≠ .pending) :
    L.Leads d { d with forest := (d.forest.alloc n).2 } := by
  have hold : ∀ j < d.forest.size, (d.forest.alloc n).2.get j = d.node j := fun j hj => by
    rw [Forest.get_alloc, if_neg (Nat.ne_of_lt hj)]
    rfl
  refine hd.leads_forest ?_ (hd.linked.alloc n) (fun j hj => .inl (by rw [hold j hj])) (fun j hj => ?_)
    ((Forest.parent?_alloc _ _ _).trans hd.top) (fun j q hq => ?_)
    (fun j _ hnone => (Forest.parent?_alloc _ _ _).trans hnone)
    fun j _ => .inl (Forest.parent?_alloc _ _ _)
  · rw [Forest.size_alloc]
    exact Nat.le_succ _
  · rw [Forest.get_alloc]
    split
    · exact hn
    · exact Document.kind_of_size_le hj
  · rw [Forest.parent?_alloc] at hq
    have hfits := hd.fits j q hq
    have hj := hold j (Forest.lt_size_of_parent? hq)
    have hq' := hold q (hd.lt_size_of_parent? hq)
    refine ⟨hfits.outside, fun hi => ?_, fun hk => ?_⟩
    · show ((d.forest.alloc n).2.get q).kind = _
      rw [hq']
      exact hfits.topical hi
    · show ((d.forest.alloc n).2.get j).kind.isPhrase = _
      have hk : ((d.forest.alloc n).2.get q).kind.confines = true := hk
      rw [hq'] at hk
      rw [hj]
      exact hfits.phrase hk

/-- A copy of text in a line is text in a line. -/
theorem leads_deepCopy (hk : (d.node i).kind.isPhrase = true) :
    (d.forest.deepCopy i).1 = d.forest.size ∧
      L.Leads d { d with forest := (d.forest.deepCopy i).2 } ∧
      ((d.forest.deepCopy i).2.get d.forest.size).kind.isPhrase = true := by
  have hinside : d.forest.Inside := fun q c hc => Forest.lt_size_of_parent? ((hd.linked.mem_iff c q).mp hc)
  have hclosed : Forest.KindsClosed (·.isPhrase = true) d.forest := fun j hj c hc =>
    (hd.fits c j ((hd.linked.mem_iff c j).mp hc)).phrase (by
      rw [Kind.confines, show (d.node j).kind.isPhrase = true from hj, Bool.true_or])
  have hs : d.forest.Sprouted (d.forest.deepCopy i).2 := Forest.sprouted_copyWithin _ d.forest i
  have hnew : Forest.NewKinds (·.isPhrase = true) d.forest (d.forest.deepCopy i).2 :=
    Forest.newKinds_copyWithin hinside hclosed hk
  refine ⟨Forest.copyWithin_place _ d.forest i, hd.leads_forest (Nat.le_of_lt hs.size)
    (hs.linked hd.linked) (fun j hj => .inl (by rw [hs.old j hj]; rfl)) (fun j hj => ?_) ?_ (fun j q hq => ?_)
    (fun j hj hnone => ?_) fun j hj => .inl (hs.parent_old
      (Nat.lt_of_lt_of_le (L.pending_lt j (L.pending_of_awaits j hj)) hd.size)),
    hnew _ (Nat.le_refl _) hs.size⟩
  · by_cases hlt : j < (d.forest.deepCopy i).2.size
    · exact Kind.ne_pending_of_isPhrase (hnew j hj hlt)
    · rw [Forest.get_of_size_le (Nat.le_of_not_lt hlt)]
      decide
  · rw [hs.parent_old (Nat.lt_of_lt_of_le L.root_lt hd.size)]
    exact hd.top
  · by_cases hj : j < d.forest.size
    · rw [hs.parent_old hj] at hq
      have hfits := hd.fits j q hq
      have hq' := hs.old q (hd.lt_size_of_parent? hq)
      refine ⟨hfits.outside, fun hi => ?_, fun hk => ?_⟩
      · exact (congrArg Node.kind hq').trans (hfits.topical hi)
      · refine (congrArg (fun n => Kind.isPhrase (Node.kind n)) (hs.old j hj)).trans (hfits.phrase ?_)
        exact (congrArg (fun n => Kind.confines (Node.kind n)) hq').symm.trans hk
    · have hnewj : L.New { d with forest := (d.forest.deepCopy i).2 } j :=
        ⟨Nat.le_trans hd.size (Nat.le_of_not_lt hj), Forest.lt_size_of_parent? hq⟩
      exact hnewj.fits fun _ => hnew j (Nat.le_of_not_lt hj) hnewj.inside
  · have hlt : j < d.forest.size := Nat.lt_of_lt_of_le (L.pending_lt j hj) hd.size
    rw [hs.parent_old hlt]
    exact hnone

end Holds

end Ledger

end MarkupLint
