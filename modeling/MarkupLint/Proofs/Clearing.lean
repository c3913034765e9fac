import MarkupLint.Proofs.Passes
import MarkupLint.Proofs.Shapes
import MarkupLint.Proofs.Tending
import MarkupLint.Proofs.Upkeep

/-! # What passes clear away

    Every standard pass is admitted by a ledger, whatever it does to a tree:
    what it puts somewhere is new text in a line, or new and put beside nodes
    that are no such text, or a node of the tree that it moves.

    The passes that pending nodes wait for take them out of the tree besides:
    classes and section numbers take out or replace the node itself, and a
    table of contents replaces it, or its topic is taken out with it
    (`Pass.meets_delayed`). -/

namespace MarkupLint

namespace Forest

variable {f : Forest} {i j p : NodeId} {ns : List NodeId} {k : Kind}

/-- What is not inserted stays where it was. -/
theorem parent?_insert_of_notMem (f : Forest) (p : NodeId) (position : Int) (h : j ∉ ns) :
    (f.insert p position ns).parent? j = f.parent? j := by
  have hadopt : ∀ f : Forest, (ns.foldl (fun f i => f.adopt p i) f).parent? j = f.parent? j := by
    induction ns with
    | nil => exact fun _ => rfl
    | cons c ns ih =>
      obtain ⟨hjc, hj⟩ := not_or.mp fun hmem => h (List.mem_cons.mpr hmem)
      exact fun f => (ih hj _).trans (parent?_adopt_of_ne f p hjc)
  rw [← hadopt f, insert]
  exact parent?_modify _ _ _ fun _ => rfl

/-- What others stand in the place of stands nowhere. -/
theorem parent?_replaceWith_self (h : i ∉ ns) : (f.replaceWith i ns).parent? i = none := by
  rw [replaceWith]
  split
  · assumption
  · exact (parent?_insert_of_notMem _ _ _ h).trans ((parent?_detach _ _ _).trans (if_pos rfl))

/-- The nodes that are found are of the kind that was looked for. -/
theorem kind_of_mem_findAll (h : j ∈ f.findAll k i) : (f.get j).kind = k :=
  of_decide_eq_true (List.mem_filter.mp h).2

/-- So are those outside definitions. -/
theorem kind_of_mem_findOutsideDefinitions (h : j ∈ f.findOutsideDefinitions k i) :
    (f.get j).kind = k :=
  of_decide_eq_true (List.mem_filter.mp h).2

/-- They stand below the node where the search begins. -/
theorem Linked.above_of_mem_findAll (hf : f.Linked) (h : j ∈ f.findAll k i) : f.Above i j :=
  hf.above_of_mem_walkWithin (List.mem_filter.mp h).1

/-- By the steps: a node is found on the way up. -/
theorem above_of_notLast? {n : Nat} (h : Pass.notLast? f n i = some j) : f.Above j i := by
  induction n generalizing i with
  | zero => cases h
  | succ n ih =>
    rw [Pass.notLast?] at h
    split at h
    · cases h
    rename_i p hp
    split at h
    · exact .up hp (ih h)
    · cases h
      exact .here

end Forest

namespace Ledger

open Build

variable {L : Ledger} {d e : Document} {i p : NodeId} {ns : List NodeId} {n : Node} {k : Kind}
  {α : Type} {Q : α → Document → Prop}

/-! ## Steps on documents -/

/-- A node is looked up in the document as it is. -/
theorem meets_node {f : Node → Build α} (h : L.Meets d (f (d.node i)) Q) :
    L.Meets d (node i >>= f) Q := h

/-- So is its text. -/
theorem meets_asText {f : String → Build α} (h : L.Meets d (f (d.forest.asText i)) Q) :
    L.Meets d (asText i >>= f) Q := h

/-- An edit has to lead to a forest that is in order. -/
theorem meets_edit {f : Forest → Forest} (h : L.Holds d → L.Leads d { d with forest := f d.forest }) :
    L.Keeps d (edit f) :=
  .modify h

/-- A node of a kind was made since a document. -/
structure Made (L : Ledger) (d e : Document) (k : Kind) (i : NodeId) : Prop extends L.New e i where
  fresh : d.forest.size ≤ i
  kind : (e.node i).kind = k

/-- A node of a kind of phrase is a phrase. -/
theorem Made.phrase (h : L.Made d e k i) (hk : k.isPhrase = true) : L.Phrase e i :=
  ⟨h.toNew, by rw [h.kind]; exact hk⟩

/-- A new node over new nodes, which are text in a line if it has to be. -/
theorem meets_element (hn : n.kind ≠ .pending)
    (hns : ∀ c ∈ ns, L.New d c ∧ (n.kind.confines = true → L.Phrase d c)) :
    L.Meets d (element n ns) fun i e => L.Made d e n.kind i := by
  refine .modifyGet fun hd => ?_
  let d₁ : Document := { d with forest := (d.forest.alloc n).2 }
  have halloc : L.Leads d d₁ := hd.leads_alloc hn
  have hnew : (d₁.node d.forest.size).kind = n.kind := by
    show ((d.forest.alloc n).2.get d.forest.size).kind = _
    rw [Forest.get_alloc, if_pos rfl]
  have hsize : d.forest.size < d₁.forest.size :=
    Nat.lt_of_lt_of_eq (Nat.lt_succ_self _) (Forest.size_alloc d.forest n).symm
  have happend : L.Leads d₁ { d₁ with forest := d₁.forest.append d.forest.size ns } := by
    refine halloc.holds.leads_append hsize fun c hc => ?_
    obtain ⟨hc, hphrase⟩ := hns c hc
    refine (hc.leads halloc).mayHang fun hk => ?_
    rw [hnew] at hk
    exact ((hphrase hk).leads halloc).kind
  refine ⟨halloc.trans happend, ⟨hd.size, ?_⟩, Nat.le_refl _, ?_⟩
  · exact Nat.lt_of_lt_of_le hsize happend.size
  · exact (Forest.kind_of_bare (Forest.bare_append _ _ _ _)).trans hnew

/-- A new element is of the kind that was asked for. -/
theorem meets_element_as (hk : n.kind = k) (hpending : k ≠ .pending)
    (hns : ∀ c ∈ ns, L.New d c ∧ (k.confines = true → L.Phrase d c)) :
    L.Meets d (element n ns) fun i e => L.Made d e k i := by
  subst hk
  exact meets_element hpending hns

/-- A leaf of text is a phrase. -/
theorem meets_leaf (text : String) : L.Meets d (leaf text) fun i e => L.Phrase e i :=
  (meets_element_as (k := .text) rfl (by decide) (List.forall_mem_nil _)).mono fun _ _ _ hi =>
    hi.phrase rfl

/-- A text element is over a leaf, so its kind may confine it to phrases. -/
theorem meets_textElement_as (hk : n.kind = k) (text : String) (hpending : k ≠ .pending) :
    L.Meets d (textElement n text) fun i e => L.Made d e k i := by
  refine .ite (fun _ => meets_element_as hk hpending (List.forall_mem_nil _)) fun _ => ?_
  refine .bind (meets_leaf text) fun i e hde hi => ?_
  refine (meets_element_as hk hpending (List.forall_mem_singleton.mpr ⟨hi.toNew, fun _ => hi⟩)).mono
    fun _ _ _ hj => ?_
  exact { hj with fresh := Nat.le_trans hde.size hj.fresh }

/-- A node is changed where it stands. -/
theorem meets_update (i : NodeId) {g : Node → Node} (hkind : ∀ n, (g n).kind = n.kind)
    (hparent : ∀ n, (g n).parent = n.parent) (hchildren : ∀ n, (g n).children = n.children) :
    L.Keeps d (update i g) :=
  meets_edit fun hd => hd.leads_modify i (.inl (hkind _)) hparent hchildren

/-- An attribute is no part of the ledger. -/
theorem meets_setAttr (i : NodeId) (key value : String) : L.Keeps d (setAttr i key value) :=
  meets_update i (fun _ => rfl) (fun _ => rfl) fun _ => rfl

/-- A node that is detached has no parent, and the pending ones are still
    known. -/
theorem meets_detach (i : NodeId) : L.Meets d (edit (·.detach i)) fun _ e =>
    e.forest.parent? i = none := by
  refine (Regime.Meets.also (meets_edit fun hd => hd.leads_detach i) ?_).mono fun _ _ _ h => h.2
  rintro _ _ ⟨⟩
  exact (Forest.parent?_detach _ _ _).trans (if_pos rfl)

/-- New nodes may stand in the place of any node, if they are text in a line
    wherever that node is. -/
theorem meets_replaceWith (hnodup : ns.Nodup) (hns : ∀ c ∈ ns, L.New d c ∧ c ≠ i ∧
    ((d.node i).kind.isPhrase = true → (d.node c).kind.isPhrase = true)) :
    L.Meets d (edit (·.replaceWith i ns)) fun _ e => e.forest.parent? i = none := by
  refine (Regime.Meets.also (meets_edit fun hd => ?_) ?_).mono fun _ _ _ h => h.2
  · refine hd.leads_replaceWith hnodup fun p hp c hc => ?_
    obtain ⟨hnew, hne, hphrase⟩ := hns c hc
    refine ⟨hne, hnew.mayHang fun hk => hphrase ?_⟩
    by_contra hi
    rw [hd.not_confines hp (by simpa using hi)] at hk
    cases hk
  · rintro _ _ ⟨⟩
    exact Forest.parent?_replaceWith_self fun hi => (hns i hi).2.1 rfl

/-- A new node is put where its kind may stand. -/
theorem meets_insert (hp : p < d.forest.size) (position : Forest → Int) (hi : L.New d i)
    (hk : (d.node p).kind.confines = true → (d.node i).kind.isPhrase = true) :
    L.Keeps d (edit fun f => f.insert p (position f) [i]) :=
  meets_edit fun hd => hd.leads_insert hp (List.nodup_singleton i)
    (List.forall_mem_singleton.mpr (hi.mayHang hk)) (position d.forest)

/-- A new node is put at the end likewise. -/
theorem meets_append (hp : p < d.forest.size) (hi : L.New d i)
    (hk : (d.node p).kind.confines = true → (d.node i).kind.isPhrase = true) :
    L.Keeps d (Build.append p [i]) :=
  meets_edit fun hd => hd.leads_append hp (List.forall_mem_singleton.mpr (hi.mayHang hk))

/-! ## Messages -/

/-- The parts of a message are new nodes of one kind. -/
theorem meets_parts (hk : k ≠ .pending) (texts : List String) :
    L.Meets d (texts.mapM (textElement { kind := k })) fun is e => ∀ i ∈ is, L.New e i :=
  .mapM (fun hde h => h.leads hde) fun text _ _ _ =>
    (meets_textElement_as rfl text hk).mono fun _ _ _ hi => hi.toNew

/-- Where a message belongs is looked up. -/
theorem meets_place {o : Placement} {f : String × Int → Build α} (h : ∀ spot, L.Meets d (f spot) Q) :
    L.Meets d (place o >>= f) Q := by
  obtain ⟨spot, hplace⟩ := place_eq o d
  intro hd
  rw [Contract.bind_run, hplace]
  exact h spot hd

/-- A message is a new node that is put nowhere yet. -/
theorem meets_message (level : Level) (text : String) (o : Placement) :
    L.Meets d (message level text o) fun i e => L.Made d e .systemMessage i := by
  refine meets_place fun spot => ?_
  refine .bind (meets_parts (by decide) _) fun quote e hde hquote => ?_
  refine .bind (meets_parts (by decide) _) fun statement f hef hstatement => ?_
  refine (meets_element_as (k := .systemMessage) rfl (by decide) fun c hc => ⟨?_, fun hk => ?_⟩).mono
    fun _ _ _ hi => { hi with fresh := Nat.le_trans (hde.trans hef).size hi.fresh }
  · rcases List.mem_append.mp hc with hc | hc
    · exact hstatement c hc
    · exact (hquote c hc).leads hef
  · cases hk

/-- What observers are told is no part of the ledger. -/
theorem meets_announce (x : Notice) : L.Keeps d (announce x) := by
  intro hd
  rw [announce_eq]
  split
  · exact .stop trivial
  · exact .ok (hd.leads_rest rfl rfl rfl) trivial

/-- A node stays what it was made as, unless it is a title. -/
theorem Made.leads {c : Document} (h : L.Made d e k i) (hk : k ≠ .title) (hec : L.Leads e c) :
    L.Made d c k i where
  toNew := h.toNew.leads hec
  fresh := h.fresh
  kind := by
    have hkind := h.kind
    subst hkind
    exact (hec.kind i h.inside).eq hk

/-- A message is raised, and its node made beside the others. -/
theorem meets_raise (level : Level) (text : String) (o : Placement := {}) :
    L.Meets d (raise level text o) fun i e => L.Made d e .systemMessage i := by
  rw [raise_eq]
  refine meets_place fun spot => ?_
  refine .bind (meets_message level text o) fun msg e _ hmsg => ?_
  exact .bind (meets_announce _) fun _ f hef _ => .pure (hmsg.leads (by decide) hef)

end Ledger

namespace Pass

open Ledger

variable {L : Ledger} {d e : Document} {i p ref target root : NodeId} {α : Type}
  {Q : α → Document → Prop}

/-! ## Passes on references -/

/-- The nodes that are found are of the kind that was looked for. -/
theorem meets_nodesOf {k : Kind} {f : List NodeId → Build α}
    (h : ∀ is, (∀ j ∈ is, (d.node j).kind = k) → L.Meets d (f is) Q) :
    L.Meets d (nodesOf k i >>= f) Q :=
  h (d.forest.findAll k i) fun _ => Forest.kind_of_mem_findAll

/-- References are nodes of the document. -/
theorem meets_references {f : List NodeId → Build α}
    (h : ∀ is, (∀ j ∈ is, j < d.forest.size) → L.Meets d (f is) Q) :
    L.Meets d (references i >>= f) Q :=
  h (d.forest.findOutsideDefinitions .reference i) fun _ hj =>
    Forest.lt_size_of_kind (by decide) (Forest.kind_of_mem_findOutsideDefinitions hj)

/-- A problematic node is a phrase, so it may stand where the reference did. -/
theorem meets_markProblematic (hi : i < d.forest.size) : L.Keeps d (markProblematic i) := by
  refine meets_node (meets_asText ?_)
  refine .bind (meets_textElement_as (k := .problematic) rfl _ (by decide)) fun mark e _ hmark => ?_
  refine (meets_replaceWith (List.nodup_singleton mark) (List.forall_mem_singleton.mpr
    ⟨hmark.toNew, Nat.ne_of_gt (Nat.lt_of_lt_of_le hi hmark.fresh), fun _ => ?_⟩)).keeps
  exact (hmark.phrase rfl).kind

/-- The message about a reference is put nowhere. -/
theorem meets_refuseReference (href : ref < d.forest.size) (text : String) :
    L.Keeps d (refuseReference ref text) :=
  .bind (meets_raise _ _ _) fun _ _ hde _ =>
    meets_markProblematic (Nat.lt_of_lt_of_le href hde.size)

/-! ### Substitutions -/

/-- Copies of text in a line are new and different: by induction on the
    nodes, as each copy comes after all that there is. -/
theorem meets_copies {copy : NodeId → Build NodeId} (hcopy : ∀ c d, copy c d =
      .ok (d.forest.deepCopy c).1 { d with forest := (d.forest.deepCopy c).2 })
    {kids : List NodeId} (hkids : ∀ c ∈ kids, c < d.forest.size ∧ (d.node c).kind.isPhrase = true) :
    L.Meets d (kids.mapM copy) fun ns e =>
      ns.Nodup ∧ ∀ c ∈ ns, L.Phrase e c ∧ d.forest.size ≤ c := by
  induction kids generalizing d with
  | nil => exact .pure ⟨List.nodup_nil, List.forall_mem_nil _⟩
  | cons c kids ih =>
    obtain ⟨⟨-, hk⟩, hkids⟩ := List.forall_mem_cons.mp hkids
    rw [List.mapM_cons]
    refine .bind (P := fun i e => L.Phrase e i ∧ i = d.forest.size) (fun hd => ?_)
      fun i e hde hi => ?_
    · obtain ⟨hplace, hleads, hphrase⟩ := hd.leads_deepCopy hk
      rw [hcopy, hplace]
      refine .ok hleads ⟨⟨⟨hd.size, Forest.lt_size_of_kind (fun hdocument => ?_) rfl⟩, hphrase⟩, rfl⟩
      rw [hdocument] at hphrase
      cases hphrase
    · obtain ⟨hi, rfl⟩ := hi
      refine .bind (ih fun c' hc' => ?_) fun ns f hef hns => .pure ?_
      · obtain ⟨hlt, hk'⟩ := hkids c' hc'
        exact ⟨Nat.lt_of_lt_of_le hlt hde.size, ((hde.kind c' hlt).congr (P := Kind.isPhrase) rfl).trans hk'⟩
      · have hlater : ∀ c ∈ ns, d.forest.size < c := fun c hc =>
          Nat.lt_of_lt_of_le hi.inside (hns.2 c hc).2
        refine ⟨List.nodup_cons.mpr ⟨fun hmem => Nat.lt_irrefl _ (hlater _ hmem), hns.1⟩,
          List.forall_mem_cons.mpr ⟨⟨hi.leads hef, Nat.le_refl _⟩, fun c hc =>
            ⟨(hns.2 c hc).1, Nat.le_of_lt (hlater c hc)⟩⟩⟩

/-- The children of a definition are phrases, and so are their copies. -/
theorem meets_copyChildren {name : String} (hi : d.substitution? name = some i) :
    L.Meets d (copyChildren i) fun ns e =>
      ns.Nodup ∧ ∀ c ∈ ns, L.Phrase e c ∧ d.forest.size ≤ c := by
  refine meets_node (.start fun hd => meets_copies (fun _ _ => rfl) fun c hc => ?_)
  have hparent := (hd.linked.mem_iff c i).mp hc
  refine ⟨Forest.lt_size_of_parent? hparent, (hd.fits c i hparent).phrase ?_⟩
  rw [hd.kind_of_substitution? hi]
  rfl

/-- A reference is expanded: by induction on how many substitutions may
    still lead to one another. -/
theorem meets_expand (depth : Nat) (href : ref < d.forest.size) (chain : List String) :
    L.Keeps d (expand depth ref chain) := by
  induction depth generalizing d ref chain with
  | zero => exact .throw fun _ => trivial
  | succ depth ih =>
    unfold expand
    refine meets_node (.get ?_)
    split
    · exact meets_refuseReference href _
    · rename_i definition hfound
      refine .ite (fun _ => meets_refuseReference href _) fun _ => ?_
      refine .bind (meets_copyChildren hfound) fun copies e hde hcopies => ?_
      refine .bind (meets_replaceWith hcopies.1 fun c hc => ?_) fun _ f hef _ => ?_
      · obtain ⟨hphrase, hfresh⟩ := hcopies.2 c hc
        exact ⟨hphrase.toNew, Nat.ne_of_gt (Nat.lt_of_lt_of_le href hfresh), fun _ => hphrase.kind⟩
      refine .forM fun c _ t _ => meets_nodesOf fun is his => .forM fun nested hnested u htu => ?_
      refine .bind (meets_update nested (fun m => ?_) (fun m => ?_) fun m => ?_) fun _ v huv _ => ?_
      · split <;> rfl
      · split <;> rfl
      · split <;> rfl
      · exact ih (Nat.lt_of_lt_of_le (Forest.lt_size_of_kind (by decide) (his nested hnested))
          (htu.trans huv).size) _

/-- By the references: each is expanded in a document that is in order. -/
theorem meets_substitute (target : NodeId) : L.Keeps d (substitute target) := by
  refine .get (.forM fun ref href t hdt => meets_expand _ (Nat.lt_of_lt_of_le ?_ hdt.size) _)
  exact Forest.lt_size_of_kind (by decide) (Forest.kind_of_mem_findOutsideDefinitions href)

/-! ### Anonymous references -/

/-- A pair of nodes keeps its place. -/
theorem meets_pair (ref target : NodeId) : L.Keeps d (pair ref target) := by
  refine meets_node (.bind (meets_update _ (fun _ => rfl) (fun _ => rfl) fun _ => rfl) fun _ e _ _ => ?_)
  refine meets_update _ (fun r => ?_) (fun r => ?_) fun r => ?_
  · dsimp only
    split <;> [rfl; split <;> rfl]
  · dsimp only
    split <;> [rfl; split <;> rfl]
  · dsimp only
    split <;> [rfl; split <;> rfl]

/-- By the pairs, or by the references that are refused. -/
theorem meets_pairAnonymous (root : NodeId) : L.Keeps d (pairAnonymous root) := by
  refine .get (meets_references fun refs hrefs => meets_nodesOf fun targets _ => ?_)
  dsimp only
  refine .ite (fun _ => ?_) fun _ => .forM fun _ _ t _ => meets_pair _ _
  refine .bind (meets_raise _ _ _) fun _ e hde _ => .forM fun ref href t het => ?_
  exact meets_markProblematic (Nat.lt_of_lt_of_le (hrefs ref (List.mem_of_mem_filter href))
    (hde.trans het).size)

/-! ### Indirect targets -/

/-- By the references: those to the target become problematic nodes. -/
theorem meets_refuseTarget (root target : NodeId) (why : String) (made : Resolved) :
    L.Keeps d (refuseTarget root target why made) := by
  refine meets_node ?_
  dsimp only
  split
  all_goals
    refine .bind (meets_raise _ _ _) fun _ e _ _ => ?_
    refine meets_references fun refs hrefs => ?_
    refine .bind (.forM fun ref href t het => meets_node ?_) fun _ f _ _ => ?_
    · refine .ite (fun _ => ?_) fun _ => .pure trivial
      exact meets_markProblematic (Nat.lt_of_lt_of_le (hrefs ref href) het.size)
    · exact .bind (meets_update _ (fun _ => rfl) (fun _ => rfl) fun _ => rfl) fun _ _ _ _ => .pure trivial

/-- An address is no part of the ledger. -/
theorem meets_link (target other : NodeId) : L.Keeps d (link target other) := by
  refine .bind (meets_update _ (fun _ => rfl) (fun _ => rfl) fun _ => rfl) fun _ e _ _ => ?_
  refine meets_node (meets_update _ (fun t => ?_) (fun t => ?_) fun t => ?_)
  · split <;> rfl
  · split <;> rfl
  · split <;> rfl

/-- A target is followed: by induction on how many targets may still lead to
    one another. -/
theorem meets_follow (root : NodeId) (depth : Nat) (target : NodeId) (visiting : List NodeId)
    (made : Resolved) : L.Keeps d (follow root depth target visiting made) := by
  induction depth generalizing d target visiting made with
  | zero => exact .throw fun _ => trivial
  | succ depth ih =>
    have hrefuse : ∀ {d : Document} (why : String) (g : Resolved → Resolved), L.Keeps d
        (refuseTarget root target why made >>= fun r => pure (g r) : Build Resolved) :=
      fun why g => .bind (meets_refuseTarget root target why made) fun _ _ _ _ => .pure trivial
    unfold follow
    dsimp only
    refine .ite (fun _ => .pure trivial) fun _ => ?_
    refine .ite (fun _ => hrefuse _ _) fun _ => meets_node (.get ?_)
    split
    · exact hrefuse _ _
    · exact hrefuse _ _
    · rename_i other _
      have hrest : ∀ {d : Document} (made : Resolved), L.Keeps d (do
          link target other
          return { made with targets := target :: made.targets } : Build Resolved) :=
        fun made => .bind (meets_link target other) fun _ _ _ _ => .pure trivial
      refine meets_node (.ite (fun _ => ?_) fun _ => ?_)
      · exact .bind (ih other _ made) fun made _ _ _ => hrest made
      · exact .bind (P := fun _ _ => True) (.pure trivial) fun made _ _ _ => hrest made

/-- By the targets: each is followed. -/
theorem meets_resolveIndirect (root target : NodeId) : L.Keeps d (resolveIndirect root target) := by
  refine meets_nodesOf fun targets _ => .get ?_
  refine .bind (P := fun _ _ => True) (.foldlM trivial fun t _ made e _ _ => ?_) fun _ _ _ _ =>
    .pure trivial
  exact meets_node (.ite (fun _ => meets_follow root _ t [] made) fun _ => .pure trivial)

/-! ### What is left over -/

/-- A reference that is refused becomes a problematic node. -/
theorem meets_checkReference (href : ref < d.forest.size) : L.Keeps d (checkReference ref) := by
  refine meets_node (.ite (fun _ => .pure trivial) fun _ => .get ?_)
  split
  · exact meets_refuseReference href _
  · exact meets_refuseReference href _
  · exact meets_update _ (fun _ => rfl) (fun _ => rfl) fun _ => rfl

/-- A target gets a message at most. -/
theorem meets_checkTarget (target : NodeId) : L.Keeps d (checkTarget target) :=
  meets_node (.ite (fun _ => .pure trivial) fun _ =>
    .bind (meets_raise _ _ _) fun _ _ _ _ => .pure trivial)

/-- By the references, and then by the targets. -/
theorem meets_reportDangling (target : NodeId) : L.Keeps d (reportDangling target) := by
  refine meets_references fun refs hrefs => ?_
  refine .bind (.forM fun ref href t hdt => meets_checkReference
    (Nat.lt_of_lt_of_le (hrefs ref href) hdt.size)) fun _ e _ _ => ?_
  exact meets_nodesOf fun targets _ => .forM fun target _ t _ => meets_checkTarget target

/-! ## Passes on the structure -/

/-- A lone section is one of the nodes. -/
theorem loneSection?_spec {f : Forest} {is : List NodeId} (h : loneSection? f is = some i) :
    i ∈ is ∧ (f.get i).kind = .division := by
  induction is with
  | nil => cases h
  | cons j rest ih =>
    simp only [loneSection?] at h
    split at h
    · obtain ⟨hmem, hkind⟩ := ih h
      exact ⟨List.mem_cons_of_mem _ hmem, hkind⟩
    · split at h
      · rename_i hlone
        cases h
        exact ⟨List.mem_cons_self, of_decide_eq_true (Bool.and_eq_true_iff.mp hlone).1⟩
      · cases h

/-- A lone section is a child of the root, and a title is its first child. -/
theorem promoted?_spec {f : Forest} {position : Nat} {lone title : NodeId} {content : List NodeId}
    (h : promoted? f root position = some (lone, title, content)) :
    lone ∈ f.children root ∧ (f.get lone).kind = .division ∧ f.children lone = title :: content := by
  simp only [promoted?] at h
  split at h
  · cases h
  rename_i hlone
  split at h
  · cases h
  rename_i hkids
  split at h
  · cases h
    obtain ⟨hmem, hkind⟩ := loneSection?_spec hlone
    exact ⟨List.mem_of_mem_drop hmem, hkind, hkids⟩
  · cases h

/-- The title of a lone section is moved, and its content after it. -/
theorem leads_promote (hd : L.Holds d) {position : Nat} {kind : Kind} {lone title : NodeId}
    {content : List NodeId} (hpromoted : promoted? d.forest L.root position = some (lone, title, content))
    (hkind : kind = .title ∨ kind = .subtitle) :
    L.Leads d { d with
      forest := (((d.forest.detach lone).modify title ({ · with kind := kind })).insert L.root position
        [title]).append L.root content } := by
  obtain ⟨hlone, hdivision, hkids⟩ := promoted?_spec hpromoted
  have htitle := kind_of_promoted? hpromoted
  have hup : d.forest.parent? lone = some L.root := (hd.linked.mem_iff lone L.root).mp hlone
  have hparent : ∀ j ∈ title :: content, d.forest.parent? j = some lone := fun j hj =>
    (hd.linked.mem_iff j lone).mp (hkids ▸ hj)
  have hnodup : (title :: content).Nodup := hkids ▸ hd.linked.nodup lone
  have hne : ∀ j ∈ title :: content, j ≠ lone := by
    rintro j hj rfl
    have hself := hparent j hj
    rw [hup] at hself
    rw [← Option.some.inj hself, hd.top] at hup
    cases hup
  have hmay : ∀ j ∈ title :: content, ∀ e, L.Leads d e → e.forest.parent? j = some lone →
      L.MayHang e L.root j := by
    intro j hj e hde hstill
    have hsettled : ¬L.awaits j := fun hwait =>
      absurd (hdivision.symm.trans ((hd.fits j lone (hparent j hj)).topical hwait)) (by decide)
    refine ⟨Nat.lt_of_lt_of_le (Forest.lt_size_of_parent? (hparent j hj)) hde.size,
      hd.ne_root_of_parent? (hparent j hj), ⟨fun hout => ?_, fun hwait => absurd hwait hsettled,
      fun hk => ?_⟩, hsettled, fun _ => ⟨lone, hstill⟩⟩
    · exact absurd hout (hd.not_outside (.up (hparent j hj) (.up hup .here)))
    · rw [hde.holds.kind] at hk
      cases hk
  have hroot : ∀ {e}, L.Leads d e → L.root < e.forest.size := fun hde =>
    Nat.lt_of_lt_of_le L.root_lt hde.holds.size
  -- The section is taken out, then its title changed, and moved before its content.
  have h₁ := hd.leads_detach lone
  have hkind₁ : ((d.forest.detach lone).get title).kind = .title :=
    (Forest.kind_of_bare (Forest.bare_detach _ _ _)).trans htitle
  have h₂ := h₁.trans (h₁.holds.leads_modify title (a := ({ · with kind := kind }))
    (by
      show ((d.forest.detach lone).get title).kind.Becomes kind
      rw [hkind₁]
      exact hkind.imp_right fun h => ⟨rfl, h⟩)
    (fun _ => rfl) fun _ => rfl)
  have hstill₂ : ∀ j ∈ title :: content,
      ((d.forest.detach lone).modify title ({ · with kind := kind })).parent? j = some lone := by
    intro j hj
    have hdetach : (d.forest.detach lone).parent? j = some lone := by
      rw [Forest.parent?_detach, if_neg (hne j hj)]
      exact hparent j hj
    rw [← hdetach]
    exact Forest.parent?_modify _ _ _ fun _ => rfl
  have h₃ := h₂.trans (h₂.holds.leads_insert (hroot h₂) (List.nodup_singleton title)
    (List.forall_mem_singleton.mpr (hmay title List.mem_cons_self _ h₂
      (hstill₂ title List.mem_cons_self))) position)
  refine h₃.trans (h₃.holds.leads_append (hroot h₃) fun c hc => ?_)
  have hmem := List.mem_cons_of_mem title hc
  refine hmay c hmem _ h₃ ((Forest.parent?_insert_of_notMem _ _ _ ?_).trans (hstill₂ c hmem))
  rintro hcm
  rw [List.mem_singleton.mp hcm] at hc
  exact (List.nodup_cons.mp hnodup).1 hc

/-- The title and the content of a section go to the root in one edit. -/
theorem meets_promote (position : Nat) {kind : Kind} (hkind : kind = .title ∨ kind = .subtitle) :
    L.Keeps d (promote L.root position kind) := by
  unfold promote
  refine .get ?_
  dsimp only
  split
  · exact .pure trivial
  · rename_i hpromoted
    refine .bind (meets_edit fun hd => leads_promote hd hpromoted hkind) fun _ e _ _ => ?_
    refine .ite (fun _ => ?_) fun _ => .pure trivial
    exact .bind (meets_asText (meets_update _ (fun _ => rfl) (fun _ => rfl) fun _ => rfl))
      fun _ _ _ _ => .pure trivial

/-- Twice at most. -/
theorem meets_promoteTitle : L.Keeps d (promoteTitle L.root) := by
  refine meets_node (.ite (fun _ => ?_) fun _ => .pure trivial)
  refine .bind (meets_promote 0 (.inl rfl)) fun promoted e _ _ => ?_
  refine .ite (fun _ => ?_) fun _ => .pure trivial
  exact .bind (meets_promote 1 (.inr rfl)) fun _ _ _ _ => .pure trivial

/-! ### Transitions -/

/-- The message about a transition may stand beside it. -/
theorem meets_checkTransition {n : Node} (hp : p < d.forest.size)
    (hk : (d.node p).kind.confines = false) (position : Nat) :
    L.Keeps d (checkTransition n p position) := by
  unfold checkTransition
  refine .get ?_
  dsimp only
  split
  · exact .pure trivial
  · refine .bind (meets_raise _ _ _) fun msg e hde hmsg => ?_
    refine meets_insert (Nat.lt_of_lt_of_le hp hde.size) (fun _ => position) hmsg.toNew
      fun hconfines => ?_
    rw [(hde.kind p hp).congr (P := Kind.confines) rfl, hk] at hconfines
    cases hconfines

/-- A transition is put behind a node above it. -/
theorem leads_lift (hd : L.Holds d) (hi : (d.node i).kind = .transition) (hin : ¬L.outside i)
    {before : NodeId} (habove : d.forest.Above before i) (hp : d.forest.parent? before = some p)
    (position : Int) :
    L.Leads d { d with forest := (d.forest.detach i).insert p position [i] } := by
  have hpending : ¬L.pending i := fun h =>
    absurd (hi.symm.trans ((hd.pending i).mpr h)) (by decide)
  have hsettled : ¬L.awaits i := fun h => hpending (L.pending_of_awaits i h)
  have hconfines : (d.node p).kind.confines = false := by
    by_cases hpi : p = i
    · rw [hpi, hi]
      rfl
    · refine hd.not_confines_of_above ((Forest.Above.up hp .here).trans habove) hpi ?_
      rw [hi]
      rfl
  have hdetach := hd.leads_detach i
  refine hdetach.trans (hdetach.holds.leads_insert ?_ (List.nodup_singleton i)
    (List.forall_mem_singleton.mpr ⟨?_, fun hroot => ?_, ⟨fun hout => absurd hout hin,
      fun hwait => absurd hwait hsettled, fun hk => ?_⟩, hsettled, fun h => absurd h hpending⟩) position)
  · exact Nat.lt_of_lt_of_le (hd.lt_size_of_parent? hp) hdetach.size
  · exact Nat.lt_of_lt_of_le (Forest.lt_size_of_kind (by decide) hi) hdetach.size
  · rw [hroot, hd.kind] at hi
    cases hi
  · have hkind : ((d.forest.detach i).get p).kind = (d.node p).kind :=
      Forest.kind_of_bare (Forest.bare_detach _ _ _)
    have hk' : ((d.forest.detach i).get p).kind.confines = true := hk
    rw [hkind, hconfines] at hk'
    cases hk'

/-- The place behind a section is no place for phrases only, so a transition
    may stand there. -/
theorem meets_moveTransition (hi : (d.node i).kind = .transition) (hin : ¬L.outside i)
    (parent : NodeId) (line : Int) : L.Keeps d (moveTransition i parent line) := by
  unfold moveTransition
  refine .get (.start fun hd => ?_)
  dsimp only
  refine .ite (fun _ => .pure trivial) fun hlast => ?_
  have hmem : i ∈ d.forest.children parent := List.mem_of_getLast? (not_not.mp hlast)
  have hparent := (hd.linked.mem_iff i parent).mp hmem
  split
  · refine .bind (meets_raise _ _ _) fun msg e hde hmsg => ?_
    have hp := hd.lt_size_of_parent? hparent
    refine meets_insert (Nat.lt_of_lt_of_le hp hde.size) (fun f => ((f.index? i).getD 0 + 1 : Nat))
      hmsg.toNew fun hk => ?_
    rw [(hde.kind parent hp).congr (P := Kind.confines) rfl, hd.not_confines hparent (by rw [hi]; rfl)] at hk
    cases hk
  · rename_i before hfound
    split
    · exact .pure trivial
    · rename_i q hq
      have habove := Forest.above_of_notLast? hfound
      refine meets_edit fun _ => ?_
      exact leads_lift hd hi hin habove hq _

/-- It is checked before it moves, and is still the same node. -/
theorem meets_placeTransition (hi : (d.node i).kind = .transition) (hin : ¬L.outside i) :
    L.Keeps d (placeTransition i) := by
  unfold placeTransition
  refine .get (.start fun hd => ?_)
  dsimp only
  split
  · exact .pure trivial
  · rename_i parent hparent
    have hup : d.forest.parent? i = some parent := hparent
    refine .bind (meets_checkTransition (hd.lt_size_of_parent? hup)
      (hd.not_confines hup (by rw [hi]; rfl)) _) fun _ e hde _ => ?_
    have hlt : i < d.forest.size := Forest.lt_size_of_parent? hup
    refine meets_moveTransition (((hde.kind i hlt).eq ?_).trans hi) hin parent _
    rw [hi]
    decide

/-- By the transitions: those to come are not moved meanwhile. -/
theorem meets_placeTransitions : L.Keeps d (placeTransitions L.root) := by
  refine .get (.start fun hd => .forM fun i hi t hdt => ?_)
  have hkind : (d.node i).kind = .transition := Forest.kind_of_mem_findAll hi
  refine meets_placeTransition (((hdt.kind i (Forest.lt_size_of_kind (by decide) hkind)).eq ?_).trans hkind)
    (hd.not_outside (hd.linked.above_of_mem_findAll hi))
  rw [hkind]
  decide

/-- Messages are not pending nodes. -/
theorem meets_dropSlight (target : NodeId) : L.Keeps d (dropSlight target) :=
  .get (.forM fun i _ _ _ => meets_node (.ite (fun _ => (meets_detach i).keeps) fun _ => .pure trivial))

/-! ## Passes that pending nodes wait for -/

/-- The pending node goes, or a message takes its place. -/
theorem meets_addClasses (hi : (d.node i).kind = .pending) (options : List (String × Data.Value)) :
    L.Meets d (addClasses i options) fun _ e => e.forest.parent? i = none := by
  unfold addClasses
  refine .get ?_
  split
  · refine meets_node (.bind (meets_setAttr _ _ _) fun _ e _ _ => meets_detach i)
  · refine meets_node (.bind (meets_raise _ _ _) fun msg e hde hmsg => ?_)
    have hlt : i < d.forest.size := Forest.lt_size_of_kind (by decide) hi
    refine meets_replaceWith (List.nodup_singleton msg) (List.forall_mem_singleton.mpr
      ⟨hmsg.toNew, Nat.ne_of_gt (Nat.lt_of_lt_of_le hlt hmsg.fresh), fun hk => ?_⟩)
    rw [(hde.kind i hlt).congr (P := Kind.isPhrase) rfl, hi] at hk
    cases hk

/-- An option that is no integer stops the pass. -/
theorem meets_intOption (options : List (String × Data.Value)) (key : String) (usual : Int) :
    L.Keeps d (intOption options key usual) := by
  unfold intOption
  split
  · exact .pure trivial
  · exact .pure trivial
  · dsimp only
    split
    · exact .pure trivial
    · exact .throw fun _ => trivial

/-- Sections are nodes of the document. -/
theorem meets_sectionsOf {f : List NodeId → Build α}
    (h : ∀ is, (∀ c ∈ is, c < d.forest.size) → L.Meets d (f is) Q) :
    L.Meets d (sectionsOf i >>= f) Q := by
  refine .start fun hd => h _ fun c hc => ?_
  exact Forest.lt_size_of_parent? ((hd.linked.mem_iff c i).mp (List.mem_of_mem_filter hc))

/-! ### Contents -/

/-- A link is a reference, so it is a phrase. -/
theorem meets_contentsLink (i : NodeId) : L.Meets d (contentsLink i) fun j e => L.Phrase e j := by
  unfold contentsLink
  refine meets_node (meets_asText ?_)
  dsimp only
  split
  · exact (meets_textElement_as (k := .reference) rfl _ (by decide)).mono fun _ _ _ h => h.phrase rfl
  · refine .bind (meets_update _ (fun _ => rfl) (fun _ => rfl) fun _ => rfl) fun _ e _ _ => ?_
    exact (meets_textElement_as (k := .reference) rfl _ (by decide)).mono fun _ _ _ h => h.phrase rfl

/-- A list of links is new: by induction on how deep it may go. -/
theorem meets_contentsList (steps : Nat) (scope : NodeId) (depth : Int) :
    L.Meets d (contentsList steps scope depth) fun list e =>
      ∀ i, list = some i → L.Made d e .bulletList i := by
  induction steps generalizing d scope depth with
  | zero =>
    refine .pure ?_
    rintro i ⟨⟩
  | succ steps ih =>
    unfold contentsList
    refine .ite (fun _ => .pure ?_) fun _ => meets_sectionsOf fun sections _ => ?_
    · rintro i ⟨⟩
    refine .bind (.mapM (P := fun i e => L.New e i) (fun hde h => h.leads hde) fun i _ e _ => ?_)
      fun items e hde hitems => ?_
    · refine .bind (meets_contentsLink i) fun link e₁ _ hlink => ?_
      refine .bind (meets_element_as (k := .paragraph) rfl (by decide)
        (List.forall_mem_singleton.mpr ⟨hlink.toNew, fun _ => hlink⟩)) fun paragraph e₂ _ hparagraph => ?_
      refine .bind (meets_element_as (k := .listItem) rfl (by decide)
        (List.forall_mem_singleton.mpr ⟨hparagraph.toNew, fun hk => ?_⟩)) fun item e₃ _ hitem => ?_
      · cases hk
      refine .bind (ih i (depth - 1)) fun list e₄ hleads hlist => ?_
      have hitem' := hitem.leads (by decide) hleads
      dsimp only
      split
      · rename_i sub
        refine .bind (meets_append hitem'.inside (hlist sub rfl).toNew fun hk => ?_)
          fun _ e₅ hleads' _ => .pure (hitem'.toNew.leads hleads')
        rw [hitem'.kind] at hk
        cases hk
      · exact .pure hitem'.toNew
    · refine .ite (fun _ => .pure ?_) fun _ => ?_
      · rintro i ⟨⟩
      refine .bind (meets_element_as (k := .bulletList) rfl (by decide) fun c hc =>
        ⟨hitems c hc, fun hk => ?_⟩) fun list f _ hlist => .pure ?_
      · cases hk
      · rintro i ⟨⟩
        exact { hlist with fresh := Nat.le_trans hde.size hlist.fresh }

/-- A pending node is taken out of the tree: it stands nowhere, or in a topic
    that stands nowhere. -/
def Cleared (d : Document) (i : NodeId) : Prop :=
  d.forest.parent? i = none ∨
    ∃ t, d.forest.parent? i = some t ∧ (d.node t).kind = .topic ∧ d.forest.parent? t = none

/-- Where the listed sections stand is looked up. -/
theorem meets_contentsScope {f : NodeId → Build α} {isLocal : Bool}
    (h : ∀ scope, L.Meets d (f scope) Q) : L.Meets d (contentsScope i isLocal >>= f) Q := by
  refine .bind (P := fun _ e => e = d) ?_ fun scope e _ he => ?_
  · unfold contentsScope
    refine .get ?_
    exact .ite (fun _ => .pure rfl) fun _ => .pure rfl
  · subst he
    exact h scope

/-- The node of a table of contents makes place for it, or its topic is taken
    out. -/
theorem meets_fillContents (hi : L.awaits i) (options : List (String × Data.Value)) :
    L.Meets d (fillContents i options) fun _ e => Cleared e i := by
  unfold fillContents
  refine meets_node (.start fun hd => ?_)
  have hpending : (d.node i).kind = .pending := (hd.pending i).mpr (L.pending_of_awaits i hi)
  split
  · rename_i hnone
    exact .pure (.inl hnone)
  rename_i topic htopic
  have hup : d.forest.parent? i = some topic := htopic
  refine meets_contentsScope fun scope => ?_
  refine .bind (meets_intOption _ _ _) fun depth e hde _ => .get ?_
  refine .bind (meets_contentsList _ scope depth) fun list f hef hlist => ?_
  have hdf := hde.trans hef
  have hlt : i < e.forest.size :=
    Nat.lt_of_lt_of_le (Forest.lt_size_of_kind (by decide) hpending) hde.size
  split
  · -- The topic is taken out, and the node stays in it, if it still stood there.
    refine .start fun hf => ?_
    refine (Regime.Meets.also (C := fun _ e => Cleared e i) (meets_detach topic) ?_).mono
      fun _ _ _ h => h.2
    rintro _ _ ⟨⟩
    have hparent : ∀ j, (f.forest.detach topic).parent? j = if j = topic then none else f.forest.parent? j :=
      Forest.parent?_detach _ _
    rcases hdf.settled i hi with hsame | hnone
    · by_cases hit : i = topic
      · exact .inl ((hparent i).trans (if_pos hit))
      · refine .inr ⟨topic, ?_, ?_, (hparent topic).trans (if_pos rfl)⟩
        · exact (hparent i).trans ((if_neg hit).trans (hsame.trans hup))
        · exact (Forest.kind_of_bare (Forest.bare_detach _ _ _)).trans
            ((hf.fits i topic (hsame.trans hup)).topical hi)
    · refine .inl ((hparent i).trans ?_)
      rw [hnone, ite_self]
  · rename_i sub
    have hsub := hlist sub rfl
    refine (meets_replaceWith (List.nodup_singleton sub) (List.forall_mem_singleton.mpr
      ⟨hsub.toNew, Nat.ne_of_gt (Nat.lt_of_lt_of_le hlt hsub.fresh), fun hk => ?_⟩)).mono
      fun _ _ _ h => .inl h
    rw [(hdf.kind i (Forest.lt_size_of_kind (by decide) hpending)).congr (P := Kind.isPhrase) rfl,
      hpending] at hk
    cases hk

/-! ### Section numbers -/

/-- Sections are numbered: by induction on how deep they may go. -/
theorem meets_number (x : Numbering) (steps : Nat) (i : NodeId) (numbers : List String)
    (depth start : Int) : L.Keeps d (number x steps i numbers depth start) := by
  induction steps generalizing d i numbers depth start with
  | zero => exact .pure trivial
  | succ steps ih =>
    unfold number
    refine .ite (fun _ => .pure trivial) fun _ => meets_sectionsOf fun sections hsections => ?_
    refine .bind (P := fun _ _ => True) (.foldlM trivial fun c hc n e hde _ => ?_) fun _ _ _ _ =>
      .pure trivial
    refine .bind (meets_textElement_as (k := .generatedText) rfl _ (by decide))
      fun label f hef hlabel => meets_node (.start fun hf => ?_)
    have hc : c < f.forest.size := Nat.lt_of_lt_of_le (hsections c hc) (hde.trans hef).size
    have htitle : (f.node c).children.headD c < f.forest.size := by
      cases hkids : (f.node c).children with
      | nil => exact hc
      | cons title content =>
        refine Forest.lt_size_of_parent? ((hf.linked.mem_iff title c).mp ?_)
        rw [show f.forest.children c = title :: content from hkids]
        exact List.mem_cons_self
    refine .bind (meets_insert htitle (fun _ => 0) hlabel.toNew fun _ => (hlabel.phrase rfl).kind)
      fun _ _ _ _ => ?_
    exact .bind (ih c _ _ 1) fun _ _ _ _ => .pure trivial

/-- The pending node goes before anything is numbered. -/
theorem meets_numberSections (hi : L.pending i) (options : List (String × Data.Value)) :
    L.Meets d (numberSections i options) fun _ e => e.forest.parent? i = none := by
  refine .bind (meets_intOption _ _ _) fun depth _ _ _ => ?_
  refine .bind (meets_intOption _ _ _) fun start _ _ _ => ?_
  refine .bind (meets_detach i) fun _ e _ hnone => .get ?_
  exact (meets_number _ _ _ _ _ _).mono fun _ _ hleads _ => hleads.orphan i hi hnone

/-! ## Every pass -/

/-- **The passes that pending nodes wait for take them out of the tree.** -/
theorem meets_delayed {pass : Pass} (hpass : pass ∈ delayed) (hi : L.pending i)
    (hcontents : pass = .contents → L.awaits i) (options : List (String × Data.Value)) :
    L.Meets d (pass.apply i options) fun _ e => Cleared e i := by
  refine .get (.start fun hd => ?_)
  have hpending : (d.node i).kind = .pending := (hd.pending i).mpr hi
  obtain rfl | rfl | rfl : pass = .contents ∨ pass = .sectionNumbers ∨ pass = .classAttribute := by
    simpa [delayed] using hpass
  · exact meets_fillContents (hcontents rfl) options
  · exact (meets_numberSections hi options).mono fun _ _ _ h => .inl h
  · exact (meets_addClasses hpending options).mono fun _ _ _ h => .inl h

/-- The other passes are applied to the root. -/
theorem meets_apply {pass : Pass} (hpass : pass ∉ delayed) (options : List (String × Data.Value)) :
    L.Keeps d (pass.apply L.root options) := by
  refine .get ?_
  cases pass with
  | substitutions => exact meets_substitute _
  | documentTitle => exact meets_promoteTitle
  | anonymousReferences => exact meets_pairAnonymous _
  | indirectReferences => exact meets_resolveIndirect _ _
  | danglingReferences => exact meets_reportDangling _
  | sectionNumbers => exact absurd (by decide) hpass
  | contents => exact absurd (by decide) hpass
  | transitions => exact meets_placeTransitions
  | classAttribute => exact absurd (by decide) hpass
  | filterMessages => exact meets_dropSlight _

end Pass

end MarkupLint
