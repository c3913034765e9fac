import MarkupLint.Proofs.Account
import MarkupLint.Proofs.Collecting
import MarkupLint.Proofs.Regime

/-! # Tending a document

    While a text is parsed, every step is under a `Watch`: the reporter is
    told nothing but notices that may be heard, nodes keep their kinds and
    the sources they come from, and, if the watch is strict, the document
    stays accounted.  A watch that is not strict is for what is raised alone.

    What was made is known by its kind and its source (`Watch.Made`); whether
    nodes may be put somewhere is a matter of the kind there (`Watch.Fit`). -/

namespace MarkupLint

/-! ## Hearing notices -/

namespace Reporter

/-- The reporter was told notices that satisfy `N`, and no others. -/
def Heard (N : Notice → Prop) (r r' : Reporter) : Prop := ∃ xs, Told xs r r' ∧ ∀ x ∈ xs, N x

variable {N : Notice → Prop} {r r' r'' : Reporter}

namespace Heard

theorem refl (r : Reporter) : Heard N r r := ⟨[], .refl r, List.forall_mem_nil _⟩

theorem trans (h : Heard N r r') (h' : Heard N r' r'') : Heard N r r'' := by
  obtain ⟨xs, htold, hxs⟩ := h
  obtain ⟨ys, htold', hys⟩ := h'
  exact ⟨xs ++ ys, htold.trans htold', List.forall_mem_append.mpr ⟨hxs, hys⟩⟩

/-- What is heard does not rename the document. -/
theorem source (h : Heard N r r') : r'.source = r.source := by
  obtain ⟨xs, ⟨stream, rfl⟩, -⟩ := h
  exact r.source_told xs

end Heard

end Reporter

/-- A step does not end well if what follows it does not. -/
theorem Parse.bind_ne_ok {α β : Type} {x : Parse α} {f : α → Parse β}
    (h : ∀ a t b u, f a t ≠ .ok b u) (s : ParseState) (b : β) (u : ParseState) :
    (x >>= f) s ≠ .ok b u := by
  simp only [bind, EStateM.bind]
  split
  · exact h _ _ _ _
  · exact nofun

/-- If processing was stopped by a message, it was one that satisfies `N`. -/
def Stop.HeardFrom (N : Notice → Prop) (e : Stop) : Prop :=
  ∀ h, e = .halted h → ∃ x, N x ∧ x.halt = h

/-- The texts in which roles complain about what they are applied to. -/
inductive RoleCall.Objection (c : RoleCall) : String → Prop
  | pep : Objection c
    ("PEP number must be a number from 0 to 9999; \"" ++ c.text ++ "\" is invalid.")
  | rfc : Objection c ("RFC number must be a number greater than or equal to 1; \"" ++ c.text
      ++ "\" is invalid.")
  | raw : Objection c
    ("No format (Writer name) is associated with this role: \"" ++ c.name ++ "\".\n"
      ++ "The \"raw\" role cannot be used directly.\n"
      ++ "Instead, use the \"role\" directive to create a new role with an associated format.")
  | custom : Objection c "custom role problem"

/-- A complaint of a role: it names a source, whatever the role was used in. -/
structure Notice.OfRole (source : String) (x : Notice) : Prop where
  level : x.level = .error
  source : x.source = source
  text : ∃ c : RoleCall, c.Objection x.text ∧ x.line = c.line

/-! ## What is watched -/

/-- Every inline node that a role makes is text in a line. -/
def Role.isPhrase : Role → Bool
  | .generic kind => kind.isPhrase
  | .styled base _ => base.isPhrase
  | _ => true

/-- The roles of a text make text in a line, and its sections hold nodes of
    any kind. -/
structure ParseState.Orderly (s : ParseState) : Prop where
  roles : ∀ name r, s.roles.get? name = some r → r.isPhrase = true
  sections : ∀ i ∈ s.sections, s.doc.Roomy i

/-- What holds a document, and is in order or not. -/
class HasDocument (σ : Type) where
  document : σ → Document
  orderly : σ → Prop

instance : HasDocument Document := ⟨id, fun _ => True⟩

instance : HasDocument ParseState := ⟨ParseState.doc, ParseState.Orderly⟩

/-- What is watched while a text is parsed. -/
structure Watch where
  /-- The source that the reporter names where nothing else is given. -/
  usual : String
  origin : Origin
  /-- The notices that may be told. -/
  heard : Notice → Prop
  /-- Whether the pending nodes are accounted for. -/
  strict : Prop
  roles : ∀ x : Notice, x.OfRole usual → heard x

/-- What a step keeps of a document.  An included text is shown under the
    name of its file once its node is made. -/
structure Document.Changes (d e : Document) : Prop where
  size : d.forest.size ≤ e.forest.size
  root : e.root = d.root
  kind : ∀ i < d.forest.size, (e.node i).kind = (d.node i).kind
  source : ∀ i < d.forest.size, (d.node i).kind ≠ .literalBlock →
    (e.node i).source = (d.node i).source
  requests : ∀ i < d.forest.size, e.AwaitsContents i → d.AwaitsContents i

namespace Document

variable {d e f : Document} {k : Kind} {i : NodeId}

theorem Changes.refl (d : Document) : d.Changes d :=
  ⟨Nat.le_refl _, rfl, fun _ _ => rfl, fun _ _ _ => rfl, fun _ _ h => h⟩

theorem Changes.trans (hde : d.Changes e) (hef : e.Changes f) : d.Changes f where
  size := Nat.le_trans hde.size hef.size
  root := hef.root.trans hde.root
  kind i hi := (hef.kind i (Nat.lt_of_lt_of_le hi hde.size)).trans (hde.kind i hi)
  source i hi hk := by
    have hi' := Nat.lt_of_lt_of_le hi hde.size
    refine (hef.source i hi' ?_).trans (hde.source i hi hk)
    rwa [hde.kind i hi]
  requests i hi h := hde.requests i hi (hef.requests i (Nat.lt_of_lt_of_le hi hde.size) h)

/-- Another tree, in which old nodes have their kinds and their sources. -/
theorem Changes.replant {g : Forest} (hsize : d.forest.size ≤ g.size)
    (hkind : ∀ i < d.forest.size, (g.get i).kind = (d.node i).kind)
    (hsource : ∀ i < d.forest.size, (d.node i).kind ≠ .literalBlock →
      (g.get i).source = (d.node i).source) : d.Changes { d with forest := g } :=
  ⟨hsize, rfl, hkind, hsource, fun _ _ h => h⟩

/-- A new node changes none of the old ones. -/
theorem Changes.alloc (d : Document) (n : Node) :
    d.Changes { d with forest := (d.forest.alloc n).2 } := by
  have hold : ∀ i < d.forest.size, (d.forest.alloc n).2.get i = d.node i := fun i hi => by
    rw [Forest.get_alloc, if_neg (Nat.ne_of_lt hi)]
    rfl
  refine .replant ?_ (fun i hi => by rw [hold i hi]) fun i hi _ => by rw [hold i hi]
  rw [Forest.size_alloc]
  exact Nat.le_succ _

/-- Nodes may be moved below a node that is there. -/
theorem Changes.append (d : Document) (p : NodeId) (ns : List NodeId) :
    d.Changes { d with forest := d.forest.append p ns } :=
  .replant (Nat.le_of_eq (Forest.size_append _ _ _).symm)
    (fun _ _ => Forest.kind_of_bare (Forest.bare_append _ _ _ _))
    fun _ _ _ => Forest.source_of_bare (Forest.bare_append _ _ _ _)

/-- What may hang somewhere may do so later on. -/
theorem MayHang.changes (h : d.MayHang k i) (hde : d.Changes e) : e.MayHang k i where
  inside := Nat.lt_of_lt_of_le h.inside hde.size
  ne_root := by
    rw [hde.root]
    exact h.ne_root
  fits := by
    rw [hde.kind i h.inside]
    exact h.fits
  topical hi := h.topical (hde.requests i h.inside hi)

/-- A roomy node stays one. -/
theorem Roomy.changes (h : d.Roomy i) (hde : d.Changes e) : e.Roomy i where
  inside := Nat.lt_of_lt_of_le h.inside hde.size
  kind := by
    rw [hde.kind i h.inside]
    exact h.kind

/-- Accounts are about the tree, the requests and the definitions. -/
theorem Accounted.congr (h : d.Accounted) (hforest : e.forest = d.forest) (hroot : e.root = d.root)
    (hrequests : e.requests = d.requests)
    (hdefined : ∀ name i, e.substitutions.get? name = some i →
      d.substitutions.get? name = some i ∨ (d.node i).kind = .substitutionDefinition) :
    e.Accounted := by
  have hnode : ∀ i, e.node i = d.node i := fun i => by
    rw [Document.node, hforest]
    rfl
  exact {
    proper := by
      rw [hforest, hroot]
      exact h.proper
    asked := fun i hi => by
      rw [hrequests]
      rw [hnode] at hi
      exact h.asked i hi
    delayed := fun r hr => by
      rw [hnode]
      rw [hrequests] at hr
      exact h.delayed r hr
    topical := fun i t hi ht => by
      rw [hnode]
      rw [AwaitsContents, hrequests] at hi
      rw [hforest] at ht
      exact h.topical i t hi ht
    defined := fun name i hi => by
      rw [hnode]
      exact (hdefined name i hi).elim (h.defined name i) id }

end Document

namespace Watch

section

variable (W : Watch)

/-- Every notice of a source may be heard; without a source, every notice. -/
def Hears (source : String) : Prop := ∀ x : Notice, (source ≠ "" → x.source = source) → W.heard x

/-- The nodes may be put under one of a kind. -/
def Fit (d : Document) (k : Kind) (ns : List NodeId) : Prop :=
  W.strict → ∀ i ∈ ns, d.MayHang k i

/-- The node may hold nodes of any kind. -/
def Roomy (d : Document) (p : NodeId) : Prop := W.strict → d.Roomy p

/-- The node has children. -/
def Filled (d : Document) (i : NodeId) : Prop := W.strict → d.forest.children i ≠ []

/-- A node of a kind was made, and comes from a source. -/
structure Made (d : Document) (k : Kind) (source : String) (i : NodeId) : Prop where
  inside : i < d.forest.size
  kind : (d.node i).kind = k
  source : k ≠ .literalBlock → (d.node i).source = source
  free : W.strict → i ≠ d.root ∧ ¬d.AwaitsContents i

variable {σ : Type} [HasDocument σ]

/-- What holds of a state under watch. -/
structure Holds (s : σ) : Prop where
  usual : (HasDocument.document s).reporter.source = W.usual
  origin : (HasDocument.document s).origin = W.origin
  accounted : W.strict → (HasDocument.document s).Accounted
  orderly : W.strict → HasDocument.orderly s

/-- A state was changed under watch. -/
structure Leads (s t : σ) : Prop where
  holds : W.Holds t
  changes : (HasDocument.document s).Changes (HasDocument.document t)
  heard : Reporter.Heard W.heard (HasDocument.document s).reporter
    (HasDocument.document t).reporter
  listed : W.strict → (HasDocument.document s).forest.Listed (HasDocument.document t).forest

/-- Steps under watch. -/
def regime (σ : Type) [HasDocument σ] : Regime σ where
  holds := W.Holds
  leads := W.Leads
  stops s e t := Reporter.Heard W.heard (HasDocument.document s).reporter
    (HasDocument.document t).reporter ∧ e.HeardFrom W.heard
  refl hs := ⟨hs, .refl _, .refl _, fun _ => .refl _⟩
  trans hst htu := ⟨htu.holds, hst.changes.trans htu.changes, hst.heard.trans htu.heard,
    fun hstrict => (hst.listed hstrict).trans (htu.listed hstrict) hst.changes.size hst.changes.kind
      htu.changes.kind (hst.holds.accounted hstrict).proper
      (htu.holds.accounted hstrict).proper.linked⟩
  holds_leads hst := hst.holds
  stops_leads hst h := ⟨hst.heard.trans h.1, h.2⟩

/-- From a state on, a step keeps under watch and gives what satisfies `P`. -/
abbrev Meets {α : Type} (s : σ) (x : EStateM Stop σ α) (P : α → σ → Prop) : Prop :=
  (W.regime σ).Meets s x P

/-- From a state on, a step keeps under watch. -/
abbrev Keeps {α : Type} (s : σ) (x : EStateM Stop σ α) : Prop := (W.regime σ).Keeps s x

end

variable {W : Watch} {d e : Document} {k k' : Kind} {source : String} {i p : NodeId}
  {ms ns : List NodeId}

/-- The watch that is not strict. -/
def lax (W : Watch) : Watch := { W with strict := False }

/-- What always stops is only watched for what it says. -/
theorem keeps_of_lax {σ α : Type} [HasDocument σ] {s : σ} {x : EStateM Stop σ α}
    (h : W.lax.Keeps s x) (hstops : ∀ a t, x s ≠ .ok a t) : W.Keeps s x := by
  intro hs
  have hends := h ⟨hs.usual, hs.origin, False.elim, False.elim⟩
  generalize hx : x s = result at hends ⊢
  cases hends with
  | ok leads gives => exact absurd hx (hstops _ _)
  | stop stops => exact .stop stops

namespace Fit

theorem nil (d : Document) (k : Kind) : W.Fit d k [] := fun _ => List.forall_mem_nil _

theorem append (hms : W.Fit d k ms) (hns : W.Fit d k ns) : W.Fit d k (ms ++ ns) :=
  fun h => List.forall_mem_append.mpr ⟨hms h, hns h⟩

theorem cons (hi : W.Fit d k [i]) (hns : W.Fit d k ns) : W.Fit d k (i :: ns) := hi.append hns

theorem flatten {nss : List (List NodeId)} (h : ∀ ns ∈ nss, W.Fit d k ns) :
    W.Fit d k nss.flatten := by
  intro hstrict i hi
  obtain ⟨ns, hns, hmem⟩ := List.mem_flatten.mp hi
  exact h ns hns hstrict i hmem

/-- What fits node by node fits. -/
theorem of_forall (h : ∀ i ∈ ns, W.Fit d k [i]) : W.Fit d k ns :=
  fun hstrict i hi => h i hi hstrict i (List.mem_singleton_self i)

/-- Part of what fits does so too. -/
theorem sublist (h : W.Fit d k ns) (hsub : ms ⊆ ns) : W.Fit d k ms :=
  fun hstrict i hi => h hstrict i (hsub hi)

/-- What may stand under some container may stand under a node that holds
    nodes of any kind. -/
theorem roomy (h : W.Fit d .container ns) (hk : k.isRoomy = true) : W.Fit d k ns :=
  fun hstrict i hi =>
    { h hstrict i hi with
      fits := Kind.mayHold_of_isRoomy hk (Kind.ne_listItem_of_mayHold rfl (h hstrict i hi).fits)
      topical := fun hwait => nomatch (h hstrict i hi).topical hwait }

/-- Text in a line may stand in any paragraph, and so in any container. -/
theorem phrases (h : W.Fit d .inline ns) (hk : k.isList = false) : W.Fit d k ns :=
  fun hstrict i hi =>
    { h hstrict i hi with
      fits := Kind.mayHold_of_isPhrase hk
        (Kind.isPhrase_of_mayHold (.inl rfl) (h hstrict i hi).fits)
      topical := fun hwait => nomatch (h hstrict i hi).topical hwait }

/-- What fits goes on fitting. -/
theorem changes (h : W.Fit d k ns) (hde : d.Changes e) : W.Fit e k ns :=
  fun hstrict i hi => (h hstrict i hi).changes hde

end Fit

namespace Made

/-- A node that was made is still there. -/
theorem changes (h : W.Made d k source i) (hde : d.Changes e) : W.Made e k source i where
  inside := Nat.lt_of_lt_of_le h.inside hde.size
  kind := (hde.kind i h.inside).trans h.kind
  source hk := by
    refine (hde.source i h.inside ?_).trans (h.source hk)
    rwa [h.kind]
  free hstrict := by
    refine ⟨?_, fun hwait => (h.free hstrict).2 (hde.requests i h.inside hwait)⟩
    rw [hde.root]
    exact (h.free hstrict).1

/-- It fits where its kind may be held, if anyone asks. -/
theorem fit_of_strict (h : W.Made d k source i) (hk : W.strict → k'.mayHold k = true) :
    W.Fit d k' [i] := by
  intro hstrict j hj
  obtain rfl := List.mem_singleton.mp hj
  refine ⟨h.inside, (h.free hstrict).1, ?_, fun hwait => absurd hwait (h.free hstrict).2⟩
  rw [h.kind]
  exact hk hstrict

theorem fit (h : W.Made d k source i) (hk : k'.mayHold k = true) : W.Fit d k' [i] :=
  h.fit_of_strict fun _ => hk

/-- It is roomy if its kind is. -/
theorem roomy (h : W.Made d k source i) (hk : k.isRoomy = true) : W.Roomy d i :=
  fun _ => ⟨h.inside, by rw [h.kind]; exact hk⟩

end Made

theorem Roomy.changes (h : W.Roomy d p) (hde : d.Changes e) : W.Roomy e p :=
  fun hstrict => (h hstrict).changes hde

namespace Leads

variable {σ : Type} [HasDocument σ] {s t u : σ}

theorem trans (hst : W.Leads s t) (htu : W.Leads t u) : W.Leads s u := (W.regime σ).trans hst htu

theorem fit (hst : W.Leads s t) (h : W.Fit (HasDocument.document s) k ns) :
    W.Fit (HasDocument.document t) k ns :=
  h.changes hst.changes

theorem made (hst : W.Leads s t) (h : W.Made (HasDocument.document s) k source i) :
    W.Made (HasDocument.document t) k source i :=
  h.changes hst.changes

theorem roomy (hst : W.Leads s t) (h : W.Roomy (HasDocument.document s) p) :
    W.Roomy (HasDocument.document t) p :=
  h.changes hst.changes

/-- A list that has an item keeps it. -/
theorem filled (hst : W.Leads s t) (hs : W.Holds s)
    (hmade : W.Made (HasDocument.document s) k source i) (hlist : k.isList = true)
    (h : W.Filled (HasDocument.document s) i) : W.Filled (HasDocument.document t) i :=
  fun hstrict => (hst.listed hstrict).stays (hs.accounted hstrict).proper
    (hst.holds.accounted hstrict).proper.linked (hmade.kind.symm ▸ hlist) (h hstrict)

end Leads

/-! ## Changing a document -/

/-- Another tree for the document. -/
theorem Holds.leads_forest (hd : W.Holds d) {f : Forest} (hsize : d.forest.size ≤ f.size)
    (hkind : ∀ i < d.forest.size, (f.get i).kind = (d.node i).kind)
    (hsource : ∀ i < d.forest.size, (d.node i).kind ≠ .literalBlock →
      (f.get i).source = (d.node i).source)
    (haccounted : W.strict → d.Accounted → ({ d with forest := f } : Document).Accounted)
    (hlisted : W.strict → d.Accounted → d.forest.Listed f) : W.Leads d { d with forest := f } where
  holds := ⟨hd.usual, hd.origin, fun hstrict => haccounted hstrict (hd.accounted hstrict),
    fun _ => trivial⟩
  changes := .replant hsize hkind hsource
  heard := .refl _
  listed hstrict := hlisted hstrict (hd.accounted hstrict)

/-- A node is made where none was. -/
theorem Made.alloc (hd : W.Holds d) (n : Node) :
    W.Made { d with forest := (d.forest.alloc n).2 } n.kind n.source d.forest.size := by
  have hnew : (d.forest.alloc n).2.get d.forest.size = { n with children := [], parent := none } := by
    rw [Forest.get_alloc, if_pos rfl]
  exact {
    inside := Nat.lt_of_lt_of_eq (Nat.lt_succ_self _) (Forest.size_alloc _ _).symm
    kind := by rw [Document.node, hnew]
    source := fun _ => by rw [Document.node, hnew]
    free := fun hstrict => ⟨Nat.ne_of_gt (hd.accounted hstrict).proper.inside, fun hwait =>
      Nat.lt_irrefl _ ((hd.accounted hstrict).lt_of_awaitsContents hwait)⟩ }

/-- The same tree with the same requests, and perhaps new definitions. -/
theorem Holds.leads_rest (hd : W.Holds d) (hforest : e.forest = d.forest) (hroot : e.root = d.root)
    (horigin : e.origin = d.origin) (hrequests : e.requests = d.requests)
    (hdefined : ∀ name i, e.substitutions.get? name = some i →
      d.substitutions.get? name = some i ∨ (d.node i).kind = .substitutionDefinition)
    (hheard : Reporter.Heard W.heard d.reporter e.reporter) : W.Leads d e := by
  have hnode : ∀ i, e.node i = d.node i := fun i => by
    rw [Document.node, hforest]
    rfl
  have hchanges : d.Changes e := {
    size := Nat.le_of_eq (congrArg Forest.size hforest.symm)
    root := hroot
    kind := fun i _ => by rw [hnode]
    source := fun i _ _ => by rw [hnode]
    requests := fun i _ hi => by rwa [Document.AwaitsContents, hrequests] at hi }
  exact {
    holds := {
      usual := hheard.source.trans hd.usual
      origin := horigin.trans hd.origin
      accounted := fun hstrict => (hd.accounted hstrict).congr hforest hroot hrequests hdefined
      orderly := fun _ => trivial }
    changes := hchanges
    heard := hheard
    listed := fun _ => by
      show d.forest.Listed e.forest
      rw [hforest]
      exact .refl _ }

end Watch

/-! ## Steps on documents -/

namespace Build

open Watch

variable {W : Watch} {d : Document} {k : Kind} {source : String} {i p : NodeId} {ns : List NodeId}
  {n : Node} {α : Type} {Q : α → Document → Prop}

theorem meets_node {f : Node → Build α} (h : W.Meets d (f (d.node i)) Q) :
    W.Meets d (node i >>= f) Q := h

theorem meets_asText {f : String → Build α} (h : W.Meets d (f (d.forest.asText i)) Q) :
    W.Meets d (asText i >>= f) Q := h

/-- An edit is allowed that keeps nodes, kinds and sources, and what is
    accounted for. -/
theorem meets_edit {f : Forest → Forest} (hsize : d.forest.size ≤ (f d.forest).size)
    (hkind : ∀ i < d.forest.size, ((f d.forest).get i).kind = (d.node i).kind)
    (hsource : ∀ i < d.forest.size, (d.node i).kind ≠ .literalBlock →
      ((f d.forest).get i).source = (d.node i).source)
    (haccounted : W.strict → d.Accounted →
      ({ d with forest := f d.forest } : Document).Accounted)
    (hlisted : W.strict → d.Accounted → d.forest.Listed (f d.forest)) : W.Keeps d (edit f) :=
  .modify fun hd => hd.leads_forest hsize hkind hsource haccounted hlisted

/-- A new node over nodes that may stand there. -/
theorem meets_element (hn : W.strict → n.kind ≠ .pending ∧ n.kind.isList = false)
    (h : W.Fit d n.kind ns) :
    W.Meets d (element n ns) fun i e => W.Made e n.kind n.source i := by
  let d₁ : Document := { d with forest := (d.forest.alloc n).2 }
  have hchanges : d.Changes d₁ := .alloc d n
  have hend : d.Changes { d₁ with forest := d₁.forest.append d.forest.size ns } :=
    hchanges.trans (.append d₁ _ _)
  refine .modifyGet fun hd => ?_
  have hmade : W.Made d₁ n.kind n.source d.forest.size := .alloc hd n
  refine ⟨hd.leads_forest hend.size hend.kind hend.source (fun hstrict haccounted => ?_)
    fun hstrict _ => ?_, hmade.changes (.append d₁ _ _)⟩
  · have hd₁ : d₁.Accounted := haccounted.alloc (hn hstrict).1
    refine hd₁.append hmade.inside fun c hc => ?_
    have hfit := h.changes hchanges hstrict c hc
    rwa [← hmade.kind] at hfit
  · exact .element (hn hstrict).2 fun c hc =>
      Kind.ne_listItem_of_mayHold (hn hstrict).2 (h hstrict c hc).fits

/-- A node that is no list and not pending may be made with children that
    fit. -/
theorem meets_element_as (hk : n.kind = k) (hpending : k ≠ .pending) (hlist : k.isList = false)
    (h : W.Fit d k ns) : W.Meets d (element n ns) fun i e => W.Made e k n.source i := by
  subst hk
  exact meets_element (fun _ => ⟨hpending, hlist⟩) h

/-- A node is made with its source. -/
theorem element_source {e : Document} (h : element n ns d = .ok i e) :
    (e.node i).source = n.source := by
  have hrun : element n ns d = .ok d.forest.size
      { d with forest := (d.forest.alloc n).2.append d.forest.size ns } := rfl
  rw [hrun] at h
  cases h
  refine (Forest.source_of_bare (Forest.bare_append _ _ _ _)).trans ?_
  rw [Forest.get_alloc, if_pos rfl]

theorem meets_leaf (text : String) :
    W.Meets d (leaf text) fun i e => W.Made e .text "" i :=
  meets_element (fun _ => ⟨nofun, rfl⟩) (.nil d _)

/-- A node with a text, if it may stand without one. -/
theorem meets_textElement (text : String)
    (hn : W.strict → n.kind ≠ .pending ∧ n.kind.isList = false) :
    W.Meets d (textElement n text) fun i e => W.Made e n.kind n.source i := by
  refine .ite (fun _ => meets_element hn (.nil d _)) fun _ => ?_
  refine .bind (meets_leaf text) fun i e _ hi => ?_
  refine meets_element hn fun hstrict => ?_
  exact hi.fit (Kind.mayHold_of_isPhrase (hn hstrict).2 rfl) hstrict

theorem meets_textElement_as (hk : n.kind = k) (text : String) (hpending : k ≠ .pending)
    (hlist : k.isList = false) :
    W.Meets d (textElement n text) fun i e => W.Made e k n.source i := by
  subst hk
  exact meets_textElement text fun _ => ⟨hpending, hlist⟩

/-- A node is changed where it stands. -/
theorem meets_update (i : NodeId) {g : Node → Node} (hkind : ∀ n, (g n).kind = n.kind)
    (hparent : ∀ n, (g n).parent = n.parent) (hchildren : ∀ n, (g n).children = n.children)
    (hsource : (d.node i).kind ≠ .literalBlock → (g (d.node i)).source = (d.node i).source) :
    W.Keeps d (update i g) := by
  refine meets_edit (Nat.le_of_eq (Forest.size_modify _ _ _).symm)
    (fun j _ => Forest.kind_modify d.forest i j hkind)
    (fun j _ hj => ?_) (fun _ h => h.modify i hkind hparent hchildren)
    fun _ _ => .of_size (Forest.size_modify _ _ _) fun j _ _ => Forest.parent?_modify _ i j hparent
  rw [Forest.get_modify]
  split
  · rename_i hij
    obtain ⟨rfl, -⟩ := hij
    exact hsource hj
  · rfl

theorem meets_setAttr (i : NodeId) (key value : String) : W.Keeps d (setAttr i key value) :=
  meets_update i (fun _ => rfl) (fun _ => rfl) (fun _ => rfl) fun _ => rfl

/-- Nodes are put where their kinds may stand, which is no list. -/
theorem meets_append (h : W.strict → p < d.forest.size ∧ (d.node p).kind.isList = false ∧
    ∀ c ∈ ns, d.MayHang (d.node p).kind c) :
    W.Keeps d (append p ns) := by
  have hchanges := Document.Changes.append d p ns
  refine meets_edit hchanges.size hchanges.kind hchanges.source
    (fun hstrict haccounted => haccounted.append (h hstrict).1 (h hstrict).2.2) fun hstrict _ =>
      .append p fun c hc =>
        Kind.ne_listItem_of_mayHold (h hstrict).2.1 ((h hstrict).2.2 c hc).fits

/-- A body takes what fits into bodies. -/
theorem meets_append_roomy (hp : W.Roomy d p) (hns : W.Fit d .container ns) :
    W.Keeps d (append p ns) :=
  meets_append fun hstrict => ⟨(hp hstrict).inside, Kind.isList_of_isRoomy (hp hstrict).kind,
    hns.roomy (hp hstrict).kind hstrict⟩

/-- A node just made takes what fits into its kind. -/
theorem meets_append_made (hp : W.Made d k source p) (hlist : k.isList = false)
    (hns : W.Fit d k ns) : W.Keeps d (append p ns) := by
  refine meets_append fun hstrict => ⟨hp.inside, ?_⟩
  rw [hp.kind]
  exact ⟨hlist, hns hstrict⟩

/-! ### Messages -/

/-- The parts of a message. -/
theorem meets_parts {k : Kind} (hk : Kind.container.mayHold k = true) (hpending : k ≠ .pending)
    (hlist : k.isList = false) (texts : List String) :
    W.Meets d (texts.mapM (textElement { kind := k })) fun is e => W.Fit e .container is := by
  refine .mono (.mapM (P := fun i e => W.Made e k "" i) (fun hst h => hst.made h)
    fun text _ e _ => meets_textElement text fun _ => ⟨hpending, hlist⟩) fun is e _ h => ?_
  exact .of_forall fun i hi => (h i hi).fit hk

theorem meets_place {o : Placement} {f : String × Int → Build α}
    (h : ∀ spot, place o d = .ok spot d → W.Meets d (f spot) Q) :
    W.Meets d (place o >>= f) Q := by
  obtain ⟨spot, hplace⟩ := place_eq o d
  intro hd
  rw [Contract.bind_run, hplace]
  exact h spot hplace hd

/-- The node of a message may stand in any container. -/
theorem meets_message (level : Level) (text : String) (o : Placement) :
    W.Meets d (message level text o) fun i e => W.Fit e .container [i] := by
  refine meets_place fun spot _ => ?_
  refine .bind (meets_parts (k := .literalBlock) rfl nofun rfl _) fun quote e _ hquote => ?_
  refine .bind (meets_parts (k := .paragraph) rfl nofun rfl _) fun statement f hef hstatement => ?_
  refine .mono (meets_element (fun _ => ⟨nofun, rfl⟩)
    ((hstatement.append (hef.fit hquote)).roomy rfl))
    fun i g _ hi => hi.fit rfl

/-- A notice is announced if it is heard. -/
theorem meets_announce {x : Notice} (h : W.heard x) : W.Keeps d (announce x) := by
  intro hd
  rw [announce_eq]
  split
  · refine .stop ⟨⟨[], .log _ _, List.forall_mem_nil _⟩, fun halt hhalt => ⟨x, h, ?_⟩⟩
    exact Stop.halted.inj hhalt
  · exact .ok (hd.leads_rest rfl rfl rfl rfl (fun _ _ => .inl)
      ⟨[x], .announce _ _, List.forall_mem_singleton.mpr h⟩) trivial

/-- Raising a message moves no node. -/
theorem raise_extends {level : Level} {text : String} {o : Placement} {msg : NodeId} {e : Document}
    (h : raise level text o d = .ok msg e) : d.forest.Extends e.forest := by
  obtain ⟨x, g, -, -, hextends, ⟨-, herror⟩ | ⟨msg', hok⟩⟩ := raise_heard level text o d
  · rw [herror] at h
    cases h
  · rw [hok] at h
    cases h
    exact hextends

/-- A message that may be heard is raised, and its node made beside the
    others. -/
theorem meets_raise {level : Level} {text : String} {o : Placement}
    (h : ∀ spot, place o d = .ok spot d → W.heard ⟨level, text, spot.1, spot.2, o.literal⟩) :
    W.Meets d (raise level text o) fun msg e =>
      W.Fit e .container [msg] ∧ d.forest.Extends e.forest := by
  refine .also ?_ fun _ _ => raise_extends
  rw [raise_eq]
  refine meets_place fun spot hspot => ?_
  refine .bind (meets_message level text o) fun msg e _ hmsg => ?_
  exact .bind (meets_announce (h spot hspot)) fun _ f hef _ => .pure (hef.fit hmsg)

/-- The source that a message is given counts. -/
theorem place_source {o : Placement} {spot : String × Int} (h : place o d = .ok spot d)
    (hne : o.source ≠ "") : spot.1 = o.source := by
  obtain ⟨x, y, hplace⟩ :
      ∃ x y, place o d = .ok (if o.source = "" then x else o.source, y) d := ⟨_, _, rfl⟩
  rw [if_neg hne, h] at hplace
  cases hplace
  rfl

/-- And otherwise that of the node it is about. -/
theorem place_base {spot : String × Int} (h : place { base := some i } d = .ok spot d)
    (hne : (d.node i).source ≠ "") : spot.1 = (d.node i).source := by
  have hposition : (d.forest.position i).1 = (d.node i).source := by
    simp only [Forest.position, Forest.lineage, Forest.lineage.go, List.map_cons]
    have hfirst : decide ((d.forest.get i).source ≠ "") = true := decide_eq_true hne
    rw [List.find?_cons_of_pos (p := fun s => decide (s ≠ "")) hfirst]
    rfl
  obtain ⟨y, hplace⟩ : ∃ y, place { base := some i } d = .ok (if (d.forest.position i).1 = "" then
      d.reporter.source else (d.forest.position i).1, y) d := ⟨_, rfl⟩
  rw [hposition, if_neg hne, h] at hplace
  cases hplace
  rfl

/-- A message about a node names the source of the node. -/
theorem meets_raise_base {level : Level} {text : String} (hsource : (d.node i).source = source)
    (h : W.Hears source) :
    W.Meets d (raise level text { base := some i }) fun msg e =>
      W.Fit e .container [msg] ∧ d.forest.Extends e.forest := by
  subst hsource
  exact meets_raise fun spot hspot => h _ fun hne => place_base hspot hne

/-! ### Names -/

/-- Tables and settings of the document are changed. -/
theorem meets_modify {g : Document → Document} (hforest : (g d).forest = d.forest)
    (hroot : (g d).root = d.root) (horigin : (g d).origin = d.origin)
    (hrequests : (g d).requests = d.requests) (hreporter : (g d).reporter = d.reporter)
    (hdefined : ∀ name i, (g d).substitutions.get? name = some i →
      d.substitutions.get? name = some i ∨ (d.node i).kind = .substitutionDefinition) :
    W.Keeps d (modify g) :=
  .modify fun hd => hd.leads_rest hforest hroot horigin hrequests hdefined (hreporter ▸ .refl _)

/-- A name is noted, and the messages about it go to the caller. -/
theorem meets_noteName (explicit : Bool) (name : String) (hsource : (d.node i).source = source)
    (h : W.Hears source) :
    W.Meets d (noteName i explicit name) fun ms e =>
      W.Fit e .container ms ∧ d.forest.Extends e.forest := by
  refine .get (.bind (.also (C := fun _ e => e.forest = d.forest)
    (meets_modify rfl rfl rfl rfl rfl fun _ _ => .inl) ?_) fun _ e _ he => ?_)
  · rintro _ e ⟨⟩
    rfl
  · rw [← he.2]
    have hnode : (e.node i).source = source := by
      rw [Document.node, he.2]
      exact hsource
    split
    · exact .bind (meets_raise_base hnode h) fun msg f _ hmsg => .pure ⟨hmsg.1, hmsg.2⟩
    · exact .pure ⟨.nil e _, Nat.le_refl _, fun _ _ => rfl⟩

/-- A name that is free is claimed without a complaint. -/
theorem meets_noteName_of_free (i : NodeId) (explicit : Bool) {name : String}
    (h : d.names.get? name = none) :
    W.Meets d (noteName i explicit name) fun ms _ => ms = [] := by
  refine .get ?_
  rw [h]
  exact .bind (meets_modify rfl rfl rfl rfl rfl fun _ _ => .inl) fun _ e _ _ => .pure rfl

/-- Claiming names for a node raises what names the source of the node: by
    induction on the names, as raising leaves the node alone. -/
theorem meets_noteTarget (explicit : Bool) (hi : i < d.forest.size)
    (hsource : (d.node i).source = source) (h : W.Hears source) :
    W.Meets d (noteTarget i explicit) fun ms e => W.Fit e .container ms := by
  refine meets_node ?_
  refine .bind (P := fun mss e => ∀ ms ∈ mss, W.Fit e .container ms) ?_
    fun mss e _ hmss => .pure (.flatten hmss)
  generalize (d.node i).names = names
  induction names generalizing d with
  | nil => exact .pure (List.forall_mem_nil _)
  | cons name names ih =>
    rw [List.mapM_cons]
    refine .bind (meets_noteName explicit name hsource h) fun ms e _ hms => ?_
    have hnode : e.node i = d.node i := hms.2.old i hi
    refine .bind (ih (Nat.lt_of_lt_of_le hi hms.2.size) (by rw [hnode, hsource])) fun mss f hef hmss => ?_
    exact .pure (List.forall_mem_cons.mpr ⟨hef.fit hms.1, hmss⟩)

/-- A definition is noted, and the message about an old one goes to the
    caller. -/
theorem meets_noteSubstitution (name : String) (hkind : (d.node i).kind = .substitutionDefinition)
    (hsource : (d.node i).source = source) (h : W.Hears source) :
    W.Meets d (noteSubstitution name i) fun ms e => W.Fit e .container ms := by
  have hdefine : ∀ (e : Document) (ms : List NodeId) (name exact : String),
      (e.node i).kind = .substitutionDefinition → W.Fit e .container ms →
      W.Meets e (do
        modify fun d =>
          { d with
            substitutions := d.substitutions.set name i
            foldedSubstitutions := d.foldedSubstitutions.set exact name }
        return ms) fun ms e => W.Fit e .container ms := by
    intro e ms name exact hkind hms
    refine .bind (meets_modify rfl rfl rfl rfl rfl fun other j hj => ?_) fun _ f hef _ =>
      .pure (hef.fit hms)
    by_cases hother : other = name
    · subst hother
      rw [Data.Table.get?_set_self] at hj
      exact .inr (Option.some.inj hj ▸ hkind)
    · rw [Data.Table.get?_set_of_ne _ _ hother] at hj
      exact .inl hj
  have hlt : i < d.forest.size := Forest.lt_size_of_kind (by decide) hkind
  refine .get ?_
  dsimp only
  refine .ite (fun _ => .bind (meets_raise_base hsource h) fun msg e hde hmsg => ?_) fun _ => ?_
  · exact hdefine e _ _ _ ((hde.changes.kind i hlt).trans hkind) hmsg.1
  · exact hdefine d _ _ _ hkind (.nil d _)

/-! ### Pending nodes -/

/-- A pending node is asked for one of the passes that pending nodes wait
    for; it may be put anywhere unless it waits for a table of contents. -/
theorem meets_pending (n : Node) {kind : String} (priority : Int)
    (options : List (String × Data.Value)) (hkind : W.strict → kind ∈ Pass.delayed.map Pass.kind) :
    W.Meets d (pending n kind priority options) fun i e =>
      W.Fit e .topic [i] ∧ (kind ≠ Pass.contents.kind → W.Fit e .container [i]) := by
  let node : Node := { n with kind := .pending }.setAttr "transform" kind
  let request : Request :=
    { kind := kind, priority := priority, target := d.forest.size, options := options }
  let e : Document :=
    { d with forest := (d.forest.alloc node).2, requests := d.requests ++ [request] }
  have hrun : pending n kind priority options d = .ok d.forest.size e := rfl
  have hsize : e.forest.size = d.forest.size + 1 := Forest.size_alloc _ _
  have hold : ∀ i < d.forest.size, e.node i = d.node i := fun i hi => by
    show ((d.forest.alloc node).2).get i = d.forest.get i
    rw [Forest.get_alloc, if_neg (Nat.ne_of_lt hi)]
  have hnew : (e.node d.forest.size).kind = .pending := by
    show (((d.forest.alloc node).2).get d.forest.size).kind = _
    rw [Forest.get_alloc, if_pos rfl]
    rfl
  have hchanges : d.Changes e := {
    size := by omega
    root := rfl
    kind := fun i hi => by rw [hold i hi]
    source := fun i hi _ => by rw [hold i hi]
    requests := fun i hi hwait => by
      -- The request that is added is for the new node.
      obtain ⟨r, hr, rfl, hcontents⟩ := hwait
      rcases List.mem_append.mp hr with hr | hr
      · exact ⟨r, hr, rfl, hcontents⟩
      · rw [List.mem_singleton.mp hr] at hi
        exact absurd hi (Nat.lt_irrefl _) }
  intro hd
  have hfit : ∀ k : Kind, k.isRoomy = true → (kind = Pass.contents.kind → k = .topic) →
      W.Fit e k [d.forest.size] := by
    intro k hk htopic hstrict i hi
    obtain rfl := List.mem_singleton.mp hi
    refine ⟨Nat.lt_of_lt_of_eq (Nat.lt_succ_self _) hsize.symm,
      Nat.ne_of_gt (hd.accounted hstrict).proper.inside,
      Kind.mayHold_of_isRoomy hk (hnew.symm ▸ nofun), fun hwait => htopic ?_⟩
    -- No earlier request is for the new node, so what it waits for is this one.
    obtain ⟨r, hr, htarget, hcontents⟩ := hwait
    rcases List.mem_append.mp hr with hr | hr
    · have hlt := (hd.accounted hstrict).target_lt hr
      rw [htarget] at hlt
      exact absurd hlt (Nat.lt_irrefl _)
    · rw [List.mem_singleton.mp hr] at hcontents
      exact hcontents
  rw [hrun]
  refine .ok ⟨⟨hd.usual, hd.origin, fun hstrict => ?_, fun _ => trivial⟩, hchanges, .refl _,
    fun _ => .alloc rfl⟩ ⟨hfit _ rfl fun _ => rfl, fun hne => hfit _ rfl fun h => absurd h hne⟩
  exact (hd.accounted hstrict).request rfl rfl (hkind hstrict)

end Build

end MarkupLint
