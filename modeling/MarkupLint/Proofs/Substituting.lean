import MarkupLint.Proofs.Chasing
import MarkupLint.Proofs.Making

/-! # Expanding the substitutions of a document

    A run that expands references comes to a document in which they were
    turned into what they stand for (`Turned`), or it stops at an error
    (`ComesTo`).  What holds of one reference (`Steps`) holds of all that are
    found in a tree, by induction on the tree (`Steps.turn`), and so of those
    in the copies of a definition, by induction on the depth to which
    definitions lead to others (`steps_expand`). -/

namespace MarkupLint

variable {defs : String → Option (List Tree)} {chain : List String} {line : Int}
  {ts us : List Tree} {kids : List Tree}

/-! ## Turning references into what they stand for -/

/-- Definitions and the nodes they are read from are at hand. -/
structure Ready (guarded : NodeId → Prop) (defs : String → Option (List Tree)) (l : Level)
    (d : Document) : Prop where
  wellFormed : d.forest.WellFormed
  stocked : d.forest.Stocked guarded d.substitution? defs
  level : d.reporter.haltLevel = l

/-- From `d` to `d'`, the references `R` below some children of `p` were
    expanded. -/
structure Turned (defs : String → Option (List Tree)) (chain : List String) (line : Int)
    (p : NodeId) (is : List NodeId) (ts : List Tree) (R : List NodeId) (d d' : Document) :
    Prop where
  spliced : d.forest.Spliced d'.forest R
  wellFormed : d'.forest.WellFormed
  outcome : ∃ is' ts' refusals notices,
    (∀ pre post, d.forest.children p = pre ++ is ++ post →
      d'.forest.children p = pre ++ is' ++ post) ∧
    d'.forest.Shows is' ts' ∧ Expands defs chain line ts ts' refusals ∧
    List.Forall₂ Notice.refuses notices refusals ∧
    d' = { d with
      forest := d'.forest, reporter := notices.foldl Reporter.heard d.reporter }

section Turning

variable {guarded : NodeId → Prop} {l : Level} {d d₁ d₂ : Document} {p : NodeId}
  {is js R R' : List NodeId} {pre post : List NodeId}

theorem Reporter.haltLevel_foldl_heard (r : Reporter) (xs : List Notice) :
    (xs.foldl Reporter.heard r).haltLevel = r.haltLevel := by
  induction xs generalizing r with
  | nil => rfl
  | cons x xs ih =>
    refine (ih _).trans ?_
    unfold Reporter.heard
    split
    · exact (Reporter.Told.log r x).haltLevel
    · exact (Reporter.Told.announce r x).haltLevel

theorem Ready.turned (h : Ready guarded defs l d) (ht : Turned defs chain line p is ts R d d₁)
    (hfree : ∀ r ∈ R, d.forest.Free guarded r) : Ready guarded defs l d₁ := by
  obtain ⟨-, -, -, notices, -, -, -, -, heq⟩ := ht.outcome
  have hsame : d₁.substitution? = d.substitution? := by
    rw [heq]
    rfl
  refine ⟨ht.wellFormed, ?_, ?_⟩
  · rw [hsame]
    exact h.stocked.keep h.wellFormed ht.spliced hfree
  · rw [heq]
    exact (Reporter.haltLevel_foldl_heard _ _).trans h.level

theorem Turned.nil (h : Ready guarded defs l d) (p : NodeId) :
    Turned defs chain line p [] [] [] d d :=
  ⟨.refl _, h.wellFormed, [], [], [], [], fun _ _ h => h, .nil, .nil, .nil, rfl⟩

/-- Some children of a node after others. -/
theorem Turned.append (h₁ : Turned defs chain line p is ts R d d₁)
    (h₂ : Turned defs chain line p js us R' d₁ d₂)
    (hsplit : d.forest.children p = pre ++ is ++ (js ++ post))
    (hold : ∀ r ∈ R', r < d.forest.size) (hbelow : ∀ r ∈ R', d₁.forest.Below js r) :
    Turned defs chain line p (is ++ js) (ts ++ us) (R ++ R') d d₂ := by
  obtain ⟨is', ts', refusals, notices, hplace, hshows, hexpands, hrefuses, heq⟩ := h₁.outcome
  obtain ⟨js', us', refusals', notices', hplace', hshows', hexpands', hrefuses', heq'⟩ :=
    h₂.outcome
  have hsiblings : d₁.forest.Siblings p is' js :=
    h₁.wellFormed.siblings (hplace pre (js ++ post) hsplit)
  refine ⟨h₁.spliced.trans h₂.spliced hold, h₂.wellFormed, is' ++ js', ts' ++ us',
    refusals ++ refusals', notices ++ notices', fun pre post hall => ?_, ?_,
    hexpands.append hexpands', List.rel_append hrefuses hrefuses', ?_⟩
  · have hfirst := hplace pre (js ++ post) (by simpa using hall)
    have hboth := hplace' (pre ++ is') post (by simpa using hfirst)
    simpa using hboth
  · refine Forest.Shows.append (hshows.keep (h₁.wellFormed.below_closed is')
      (hsiblings.agreeOn h₁.wellFormed h₂.spliced hbelow) fun i hi => ⟨i, hi, .here⟩) hshows'
  · rw [heq', heq, List.foldl_append]

/-- A node that is no reference stays, with what becomes of its children. -/
theorem Turned.stays {i : NodeId} {kids : List Tree} (hf : d.forest.WellFormed)
    (hi : d.forest.parent? i = some p) (hkind : (d.forest.get i).kind ≠ .substitutionReference)
    (henters : entering chain (d.forest.get i) = true)
    (h : Turned defs chain line i (d.forest.children i) kids R d d₁)
    (hbelow : ∀ r ∈ R, d.forest.Below (d.forest.children i) r) :
    Turned defs chain line p [i] [.node (d.forest.get i).bare kids] R d d₁ := by
  obtain ⟨is', ts', refusals, notices, hplace, hshows, hexpands, hrefuses, heq⟩ := h.outcome
  have hup : ∀ r, d.forest.Below (d.forest.children i) r → ∃ c, d.forest.parent? c = some i ∧
      d.forest.Above c r := fun r ⟨c, hc, hcr⟩ => ⟨c, hf.only c i hc, hcr⟩
  have hnot : i ∉ R := fun hiR => by
    obtain ⟨c, hc, hci⟩ := hup i (hbelow i hiR)
    exact hci.not_circle (hf.ends c) hc
  have hparents : ∀ r ∈ R, d.forest.parent? r ≠ some p := fun r hr hparent => by
    obtain ⟨c, hc, hcr⟩ := hup r (hbelow r hr)
    have habove : d.forest.Above i p := by
      rcases hcr.eq_or with rfl | ⟨q, hq, hcq⟩
      · rw [Option.some.inj (hparent.symm.trans hc)]
        exact .here
      · rw [Option.some.inj (hparent.symm.trans hq)]
        exact (Forest.Above.up hc .here).trans hcq
    exact habove.not_circle (hf.ends i) hi
  have hisize : i < d.forest.size := Forest.lt_size_of_parent? hi
  have hpsize : p < d.forest.size :=
    Forest.lt_size_of_mem_children ((hf.linked.mem_iff i p).mpr hi)
  refine ⟨h.spliced, h.wellFormed, [i], [.node (d₁.forest.get i).bare ts'], refusals, notices,
    fun pre post hsplit => ?_, ?_, ?_, hrefuses, heq⟩
  · rw [h.spliced.children p hpsize hparents, hsplit]
  · refine .cons ?_ .nil
    rw [hplace [] [] (by simp)]
    simpa using hshows
  · rw [h.spliced.bare i hisize hnot]
    have hstays := @Expands.stays defs chain line (d.forest.get i).bare _ _ _ _ _ _ hkind henters
      hexpands .nil
    rwa [List.append_nil] at hstays

/-- A definition is passed over. -/
theorem Turned.passes {i : NodeId} {kids : List Tree} (h : Ready guarded defs l d)
    (henters : entering chain (d.forest.get i) = false)
    (hshows : d.forest.Shows (d.forest.children i) kids) :
    Turned defs chain line p [i] [.node (d.forest.get i).bare kids] [] d d :=
  ⟨.refl _, h.wellFormed, [i], _, [], [], fun _ _ h => h, .cons hshows .nil,
    .definition henters .nil, .nil, rfl⟩

/-! ## Runs -/

/-- A run may stop at an error if errors stop it, and else only for want of
    depth. -/
def Stopped (l : Level) (e : Stop) : Prop :=
  e = .exhausted ∨ l ≤ Level.error ∧ ∃ x : Notice, x.level = .error ∧ e = .halted x.halt

/-- The run came to a document of `Q`, or stopped for one of these reasons. -/
inductive ComesTo {α : Type} (l : Level) (Q : Document → Prop) :
    EStateM.Result Stop Document α → Prop
  | ok {a : α} {d : Document} (h : Q d) : ComesTo l Q (.ok a d)
  | error {e : Stop} {d : Document} (h : Stopped l e) : ComesTo l Q (.error e d)

theorem ComesTo.bind {α β : Type} {Q Q' : Document → Prop} {x : Build α} {k : α → Build β}
    (hx : ComesTo l Q (x d)) (hk : ∀ a d', Q d' → ComesTo l Q' (k a d')) :
    ComesTo l Q' ((x >>= k) d) := by
  simp only [Bind.bind, EStateM.bind]
  generalize x d = result at hx
  cases hx with
  | ok h => exact hk _ _ h
  | error h => exact .error h

theorem ComesTo.mono {α : Type} {Q Q' : Document → Prop} {x : EStateM.Result Stop Document α}
    (hx : ComesTo l Q x) (himp : ∀ d, Q d → Q' d) : ComesTo l Q' x := by
  cases hx with
  | ok h => exact .ok (himp _ h)
  | error h => exact .error h

/-- The step expands references that stand under no guarded node. -/
def Steps (guarded : NodeId → Prop) (defs : String → Option (List Tree)) (l : Level)
    (chain : List String) (line : Int) (step : NodeId → Build Unit) : Prop :=
  ∀ (d : Document) (r p : NodeId) (kids : List Tree), Ready guarded defs l d →
    d.forest.parent? r = some p → (d.forest.get r).kind = .substitutionReference →
    d.forest.Shows (d.forest.children r) kids → Plain [.node (d.forest.get r).bare kids] →
    d.forest.Free guarded r →
    ComesTo l (Turned defs chain line p [r] [.node (d.forest.get r).bare kids] [r] d) (step r d)

theorem Build.forM_append (xs ys : List NodeId) (step : NodeId → Build Unit) :
    (xs ++ ys).forM step = (do xs.forM step; ys.forM step) := by
  simp only [List.forM_eq_forM]
  exact List.forM_append

/-- What stands below nodes that are as they were is found there as before. -/
theorem Ready.still (h : Ready guarded defs l d) (h₁ : d₁.forest.WellFormed)
    (hagree : d.forest.AgreeOn (d.forest.Below is) d₁.forest) (hshows : d.forest.Shows is ts) :
    d₁.forest.Shows is ts ∧
      is.flatMap (d₁.forest.found chain) = is.flatMap (d.forest.found chain) ∧
      ∀ r ∈ is.flatMap (d.forest.found chain), r < d.forest.size := by
  have hclosed := h.wellFormed.below_closed is
  refine ⟨hshows.keep hclosed hagree fun i hi => ⟨i, hi, .here⟩, ?_, fun r hr => ?_⟩
  · exact List.flatMap_congr fun c hc =>
      h.wellFormed.found_congr h₁ hclosed hagree ⟨c, hc, .here⟩
  · obtain ⟨c, -, hr⟩ := List.mem_flatMap.mp hr
    exact Forest.lt_size_of_reference (Forest.kind_of_mem_found hr)

/-- The references below one node, if those below its children can be
    expanded. -/
theorem Steps.turn_one {step : NodeId → Build Unit} (hstep : Steps guarded defs l chain line step)
    {i : NodeId} {kids : List Tree} (leaves : (d.forest.get i).kind = .substitutionReference →
      ∀ t ∈ kids, ∃ m, t = .node m [] ∧ m.kind = .text)
    (hready : Ready guarded defs l d) (hi : d.forest.parent? i = some p)
    (hshows : d.forest.Shows (d.forest.children i) kids)
    (below : Plain kids)
    (hkids : (∀ r ∈ (d.forest.children i).flatMap (d.forest.found chain), d.forest.Free guarded r) →
      ComesTo l (Turned defs chain line i (d.forest.children i) kids
          ((d.forest.children i).flatMap (d.forest.found chain)) d)
        (((d.forest.children i).flatMap (d.forest.found chain)).forM step d))
    (hfree : ∀ r ∈ d.forest.found chain i, d.forest.Free guarded r) :
    ComesTo l (Turned defs chain line p [i] [.node (d.forest.get i).bare kids]
        (d.forest.found chain i) d)
      ((d.forest.found chain i).forM step d) := by
  have hf := hready.wellFormed
  have hfound := hf.found_eq chain i
  cases henters : entering chain (d.forest.get i) with
  | false =>
    rw [henters] at hfound
    rw [hfound]
    exact .ok (.passes hready henters hshows)
  | true =>
    rw [henters, if_pos rfl] at hfound
    by_cases hkind : (d.forest.get i).kind = .substitutionReference
    · -- Below a reference there are leaves with text, and no references.
      have hnone : ∀ c ∈ d.forest.children i, d.forest.found chain c = [] :=
        hf.found_of_leaves hshows (leaves hkind)
      rw [if_pos hkind, List.flatMap_eq_nil_iff.mpr hnone, List.append_nil] at hfound
      rw [hfound]
      have hr : i ∈ d.forest.found chain i := hfound ▸ List.mem_singleton_self i
      have hone := hstep d i p kids hready hi hkind hshows (.cons leaves below .nil) (hfree i hr)
      exact hone.bind fun _ d' h => .ok h
    · rw [if_neg hkind, List.nil_append] at hfound
      have hfree' := hfree
      rw [hfound] at hfree' ⊢
      refine (hkids hfree').mono fun d' h => ?_
      refine h.stays hf hi hkind henters fun r hr => ?_
      obtain ⟨c, hc, hr⟩ := List.mem_flatMap.mp hr
      exact ⟨c, hc, hf.above_of_mem_found hr⟩

/-- After the references below one node come those below the nodes beside it,
    where they were found at first. -/
theorem Turned.then {i : NodeId} {t : Tree} {run : Build Unit} (hready : Ready guarded defs l d)
    (h₁ : Turned defs chain line p [i] [t] (d.forest.found chain i) d d₁)
    (hsplit : d.forest.children p = pre ++ [i] ++ (is ++ post)) (hshows : d.forest.Shows is ts)
    (hfree : ∀ r ∈ d.forest.found chain i ++ is.flatMap (d.forest.found chain),
      d.forest.Free guarded r)
    (hrest : ∀ pre post, Ready guarded defs l d₁ → d₁.forest.Shows is ts →
      d₁.forest.children p = pre ++ is ++ post →
      (∀ r ∈ is.flatMap (d₁.forest.found chain), d₁.forest.Free guarded r) →
      is.flatMap (d₁.forest.found chain) = is.flatMap (d.forest.found chain) →
      ComesTo l (Turned defs chain line p is ts (is.flatMap (d₁.forest.found chain)) d₁) (run d₁)) :
    ComesTo l (Turned defs chain line p (i :: is) (t :: ts)
      (d.forest.found chain i ++ is.flatMap (d.forest.found chain)) d) (run d₁) := by
  have hf := hready.wellFormed
  have hfound : ∀ r ∈ d.forest.found chain i, d.forest.Below [i] r := fun r hr =>
    ⟨i, List.mem_singleton_self i, hf.above_of_mem_found hr⟩
  have hagree := (hf.siblings hsplit).symm.agreeOn hf h₁.spliced hfound
  obtain ⟨hshows₁, hsame, hinside⟩ := hready.still h₁.wellFormed hagree hshows
  obtain ⟨is', _, _, _, hplace, -⟩ := h₁.outcome
  have hsplit₁ : d₁.forest.children p = (pre ++ is') ++ is ++ post :=
    (hplace pre (is ++ post) hsplit).trans (List.append_assoc _ _ _).symm
  have hfree₁ : ∀ r ∈ is.flatMap (d₁.forest.found chain), d₁.forest.Free guarded r := by
    intro r hr a ha habove
    rw [hsame] at hr
    exact hfree r (List.mem_append_right _ hr) a ha (h₁.spliced.above_old hf (hinside r hr) habove)
  have hready₁ := hready.turned h₁ fun r hr => hfree r (List.mem_append_left _ hr)
  refine (hrest _ _ hready₁ hshows₁ hsplit₁ hfree₁ hsame).mono fun d₂ h₂ => ?_
  rw [hsame] at h₂
  refine h₁.append h₂ hsplit hinside fun r hr => ?_
  rw [← hsame] at hr
  obtain ⟨c, hc, hr⟩ := List.mem_flatMap.mp hr
  exact ⟨c, hc, h₁.wellFormed.above_of_mem_found hr⟩

/-- References are expanded one after the other in the order in which they
    are found: by induction on the trees, and below each node on its
    children. -/
theorem Steps.turn {step : NodeId → Build Unit} (hstep : Steps guarded defs l chain line step)
    (hplain : Plain ts) (hready : Ready guarded defs l d) (hshows : d.forest.Shows is ts)
    (hsplit : d.forest.children p = pre ++ is ++ post)
    (hfree : ∀ r ∈ is.flatMap (d.forest.found chain), d.forest.Free guarded r) :
    ComesTo l (Turned defs chain line p is ts (is.flatMap (d.forest.found chain)) d)
      ((is.flatMap (d.forest.found chain)).forM step d) := by
  induction hplain generalizing d p is pre post with
  | nil =>
    cases hshows
    exact .ok (.nil hready p)
  | cons leaves below beside ih₁ ih₂ =>
    cases hshows with
    | @cons i is kids rest hbelow hbeside =>
    have hi : d.forest.parent? i = some p := hready.wellFormed.only i p (by rw [hsplit]; simp)
    have hkids := ih₁ hready hbelow (show d.forest.children i = [] ++ d.forest.children i ++ [] by simp)
    have hfirst := hstep.turn_one leaves hready hi hbelow below hkids fun r hr =>
      hfree r (List.mem_flatMap.mpr ⟨i, List.mem_cons_self, hr⟩)
    rw [List.flatMap_cons, Build.forM_append]
    refine hfirst.bind fun _ d₁ h₁ => ?_
    refine h₁.then hready (by rw [hsplit, List.append_cons, List.append_assoc]) hbeside hfree
      fun pre post hready₁ hshows₁ hsplit₁ hfree₁ hsame => ?_
    rw [← hsame]
    exact ih₂ hready₁ hshows₁ hsplit₁ hfree₁

/-- So they are if they are looked for below each node in turn. -/
theorem Steps.turn_each {step : NodeId → Build Unit}
    (hstep : Steps guarded defs l chain line step) (hchain : chain ≠ [])
    (hplain : Plain ts) (hready : Ready guarded defs l d) (hshows : d.forest.Shows is ts)
    (hsplit : d.forest.children p = pre ++ is ++ post)
    (hfree : ∀ r ∈ is.flatMap (d.forest.found chain), d.forest.Free guarded r) :
    ComesTo l (Turned defs chain line p is ts (is.flatMap (d.forest.found chain)) d)
      ((is.forM fun c => do (← Pass.nodesOf .substitutionReference c).forM step : Build Unit) d) := by
  induction is generalizing d ts pre post with
  | nil =>
    cases hshows
    exact .ok (.nil hready p)
  | cons i is ih =>
    cases hshows with
    | @cons i is kids rest hbelow hbeside =>
    cases hplain with
    | cons leaves below beside =>
    have hsplit' : d.forest.children p = pre ++ [i] ++ (is ++ post) := by
      rw [hsplit, List.append_cons, List.append_assoc]
    have hone := hstep.turn (.cons leaves below .nil) hready (.cons hbelow .nil) hsplit' fun r hr =>
      hfree r (by simp at hr ⊢; exact .inl hr)
    rw [List.flatMap_singleton] at hone
    have hlooked : (do (← Pass.nodesOf .substitutionReference i).forM step) d
        = (d.forest.found chain i).forM step d := by
      rw [Forest.found_eq_findAll hchain]
      rfl
    rw [← hlooked] at hone
    refine hone.bind fun _ d₁ h₁ => ?_
    exact h₁.then hready hsplit' hbeside hfree fun pre post hready₁ hshows₁ hsplit₁ hfree₁ _ =>
      ih beside hready₁ hshows₁ hsplit₁ hfree₁

end Turning

/-! ## One reference -/

/-- Raising an error about a node: the run stops there, or goes on in a
    well-formed forest with the same nodes. -/
theorem Build.raise_comesTo (text : String) (base : NodeId) {d : Document} (hf : d.forest.WellFormed) :
    ComesTo d.reporter.haltLevel (fun d' => ∃ (x : Notice), x.level = .error ∧ x.text = text ∧
        d.forest.Extends d'.forest ∧ d'.forest.WellFormed ∧
        d' = { d with forest := d'.forest, reporter := d.reporter.heard x })
      (raise .error text { base := some base } d) := by
  obtain ⟨spot, hplace⟩ := place_eq { base := some base } d
  obtain ⟨g, msg, hmessage, hmade⟩ := message_made .error text rfl hf hplace
  let x : Notice := ⟨.error, text, spot.1, spot.2, none⟩
  have hraise : raise .error text { base := some base } d
      = (announce x >>= fun _ => pure msg) { d with forest := g } := by
    rw [raise_eq]
    simp only [bind, EStateM.bind, hplace, hmessage]
    rfl
  rw [hraise]
  simp only [bind, EStateM.bind, announce_eq]
  by_cases hhalt : d.reporter.haltLevel ≤ .error
  · rw [if_pos hhalt]
    exact .error (.inr ⟨hhalt, x, rfl, rfl⟩)
  · rw [if_neg hhalt]
    refine .ok ⟨x, rfl, rfl, hmade.extended, hmade.wellFormed, ?_⟩
    rw [Reporter.heard, if_neg hhalt]

section Expanding

variable {guarded : NodeId → Prop} {l : Level} {d d' : Document} {r p : NodeId}

/-- A refused reference is marked. -/
theorem Turned.refused (hready : Ready guarded defs l d) (hr : d.forest.parent? r = some p)
    (hshows : d.forest.Shows (d.forest.children r) kids) (refusal : Refusal)
    (hexpands : Expands defs chain 0 [.node (d.forest.get r).bare kids]
      [.refused 0 (d.forest.get r).bare kids] [refusal]) :
    ComesTo l (Turned defs chain 0 p [r] [.node (d.forest.get r).bare kids] [r] d)
      (Pass.refuseReference r refusal.text d) := by
  have hrsize : r < d.forest.size := Forest.lt_size_of_parent? hr
  have hraise := Build.raise_comesTo refusal.text r hready.wellFormed
  rw [hready.level] at hraise
  refine hraise.bind fun _ d₁ ⟨x, hlevel, htext, hextends, hf₁, heq⟩ => ?_
  have hnode : d₁.node r = d.forest.get r := hextends.old r hrsize
  -- The error stands aside, so the mark gets the text that the reference had.
  have hshown : d₁.forest.asText r = (Tree.node (d.forest.get r).bare kids).text := by
    have hsame : d₁.forest.Shows [r] [.node (d.forest.get r).bare kids] :=
      Forest.Shows.extends (.cons hshows .nil) hready.wellFormed hextends
        (List.forall_mem_singleton.mpr hrsize)
    rw [hf₁.asText_eq, ← (List.cons.inj (hsame.eq_map_shape hf₁)).1]
  obtain ⟨g, mark, hmark, hmade⟩ := Build.textElement_made
    { kind := .problematic, line := (d.forest.get r).line, source := (d.forest.get r).source }
    (Tree.node (d.forest.get r).bare kids).text hf₁
  have hmade' : Build.Made d.forest g [mark] [.refused 0 (d.forest.get r).bare kids] := by
    refine ⟨hextends.trans hmade.extended, hmade.wellFormed, hmade.nodup, fun i hi => ?_,
      hmade.inside, ?_⟩
    · exact Nat.le_trans hextends.size (hmade.new i hi)
    · rw [Tree.refused, Node.lined_zero]
      exact hmade.shows
  obtain ⟨hspliced, hwellFormed, hplace, hput⟩ := hmade'.put hready.wellFormed hr
  have hrun : Pass.markProblematic r d₁ = .ok ⟨⟩ { d₁ with forest := g.replaceWith r [mark] } := by
    have hget : Build.node r d₁ = .ok (d.forest.get r) d₁ := by
      rw [← hnode]
      rfl
    have htext : Build.asText r d₁ = .ok (Tree.node (d.forest.get r).bare kids).text d₁ := by
      rw [← hshown]
      rfl
    simp only [Pass.markProblematic, bind, EStateM.bind, hget, htext, hmark]
    rfl
  rw [hrun]
  refine .ok ⟨hspliced, hwellFormed, [mark], _, [refusal], [x], hplace, hput, hexpands,
    .cons ⟨hlevel, htext⟩ .nil, ?_⟩
  rw [heq]
  rfl

/-- Copies of trees, made one after the other. -/
theorem copies_made {cs : List NodeId} (hf : d.forest.WellFormed)
    (hinside : ∀ c ∈ cs, c < d.forest.size) (hshows : d.forest.Shows cs ts) :
    ∃ g copies, (cs.mapM fun c => modifyGet fun d =>
        let (copy, forest) := d.forest.deepCopy c
        (copy, { d with forest := forest }) : Build (List NodeId)) d
          = .ok copies { d with forest := g } ∧ Build.Made d.forest g copies ts := by
  induction cs generalizing d ts with
  | nil =>
    cases hshows
    exact ⟨d.forest, [], rfl, .nil hf⟩
  | cons c cs ih =>
    cases hshows with
    | @cons _ _ kids rest below beside =>
    obtain ⟨hc, hcs⟩ := List.forall_mem_cons.mp hinside
    obtain ⟨hroot, hsprouted, hsame⟩ := hf.deepCopy_spec hc
    generalize hcopy : d.forest.deepCopy c = copied at hroot hsprouted hsame
    obtain ⟨copy, f₁⟩ := copied
    obtain rfl : copy = d.forest.size := hroot
    have hextends : d.forest.Extends f₁ := ⟨Nat.le_of_lt hsprouted.size, hsprouted.old⟩
    have hf₁ := hsprouted.wellFormed hf
    obtain ⟨g, copies, hrun, hmade⟩ := ih (d := { d with forest := f₁ }) hf₁
      (fun i hi => Nat.lt_of_lt_of_le (hcs i hi) hextends.size) (beside.extends hf hextends hcs)
    have hcopied : f₁.Shows [d.forest.size] [.node (d.forest.get c).bare kids] :=
      Forest.Shows.of_sameTree (.cons below .nil) (.cons hsame .nil)
    refine ⟨g, d.forest.size :: copies, ?_, hextends.trans hmade.extended, hmade.wellFormed,
      List.nodup_cons.mpr ⟨fun hmem => ?_, hmade.nodup⟩, ?_, ?_, ?_⟩
    · rw [List.mapM_cons]
      have hfirst : (modifyGet fun d : Document =>
          ((d.forest.deepCopy c).1, { d with forest := (d.forest.deepCopy c).2 }) : Build NodeId) d
            = .ok d.forest.size { d with forest := f₁ } := by
        show EStateM.Result.ok _ _ = _
        rw [hcopy]
      rw [Contract.bind_run, hfirst]
      dsimp only
      rw [Contract.bind_run, hrun]
      rfl
    · exact absurd hsprouted.size (Nat.not_lt.mpr (hmade.new _ hmem))
    · exact List.forall_mem_cons.mpr ⟨Nat.le_refl _, fun i hi =>
        Nat.le_trans hextends.size (hmade.new i hi)⟩
    · refine List.forall_mem_cons.mpr ⟨⟨?_, ?_⟩, hmade.inside⟩
      · exact Nat.lt_of_lt_of_le hsprouted.size hmade.extended.size
      · rw [Forest.parent?, hmade.extended.old _ hsprouted.size]
        exact hsprouted.root
    · exact (hcopied.extends hf₁ hmade.extended
        (List.forall_mem_singleton.mpr hsprouted.size)).append hmade.shows

/-- A reference without a line may be given one before it is expanded. -/
theorem Steps.lined {step : NodeId → Build Unit} (hstep : Steps guarded defs l chain 0 step)
    (line : Int) :
    Steps guarded defs l chain line (fun r => do
      Build.update r fun m => if m.line = 0 then { m with line := line } else m
      step r) := by
  intro d r p kids hready hr hkind hshows hplain hfree
  have hf := hready.wellFormed
  let f := d.forest.modify r fun m => if m.line = 0 then { m with line := line } else m
  show ComesTo l _ (step r { d with forest := f })
  have hget : ∀ j, f.get j = if j = r then (d.forest.get r).lined line else d.forest.get j := by
    intro j
    have hrsize : r < d.forest.size := Forest.lt_size_of_parent? hr
    rw [Forest.get_modify]
    by_cases hj : j = r
    · rw [if_pos ⟨hj.symm, hj ▸ hrsize⟩, if_pos hj, hj, Node.lined]
      split <;> rfl
    · rw [if_neg fun h => hj h.1.symm, if_neg hj]
  have hparent : ∀ j, f.parent? j = d.forest.parent? j := fun j =>
    Forest.parent?_modify d.forest r j fun m => by split <;> rfl
  have hchildren : ∀ j, f.children j = d.forest.children j := fun j =>
    Forest.children_modify d.forest r j fun m => by split <;> rfl
  have hspliced : d.forest.Spliced f [r] := by
    refine ⟨Nat.le_of_eq (by simp [f]), fun j _ hj => ?_, fun j _ _ => hparent j,
      fun j _ => .inl (hparent j), fun j _ _ => hchildren j⟩
    rw [hget, if_neg (by simpa using hj)]
  have hf' : f.WellFormed := hf.congr hparent hchildren
  have hready' : Ready guarded defs l { d with forest := f } :=
    ⟨hf', hready.stocked.keep hf hspliced (List.forall_mem_singleton.mpr hfree), hready.level⟩
  have hlabel : (f.get r).bare = (d.forest.get r).bare.lined line := by
    rw [hget, if_pos rfl]
    rfl
  -- The reference does not stand below itself.
  have hshows' : f.Shows (f.children r) kids := by
    rw [hchildren]
    refine hshows.keep (hf.below_closed (d.forest.children r)) ?_ fun c hc => ⟨c, hc, .here⟩
    rintro j ⟨c, hc, hcj⟩
    refine ⟨?_, hchildren j⟩
    rw [hget, if_neg]
    rintro rfl
    exact hcj.not_circle (hf.ends c) (hf.only c j hc)
  have hplain' : Plain [.node (f.get r).bare kids] := by
    cases hplain with
    | cons leaves below beside =>
    rw [hlabel]
    exact .cons leaves below beside
  have hkind' : (f.get r).kind = .substitutionReference := by
    rw [hget, if_pos rfl]
    exact hkind
  have hfree' : f.Free guarded r := fun a ha habove =>
    hfree a ha (hspliced.above_old hf (Forest.lt_size_of_parent? hr) habove)
  refine (hstep { d with forest := f } r p kids hready' ((hparent r).trans hr) hkind' hshows' hplain'
    hfree').mono fun d' h => ?_
  obtain ⟨is', ts', refusals, notices, hplace, hdone, hexpands, hrefuses, heq⟩ := h.outcome
  rw [hlabel] at hexpands
  refine ⟨(hspliced.trans h.spliced ?_).mono (by simp), h.wellFormed, is', ts', refusals, notices,
    fun pre post hsplit => hplace pre post ((hchildren p).trans hsplit), hdone,
    hexpands.of_lined hkind, hrefuses, heq⟩
  exact List.forall_mem_singleton.mpr (Forest.lt_size_of_parent? hr)

variable (chain) in
/-- What is found in copies that were put in the place of a free reference is
    new and free, too. -/
theorem Build.Made.found_new {g : Forest} {copies : List NodeId} (h : Build.Made d.forest g copies ts)
    (hready : Ready guarded defs l d) (hr : d.forest.parent? r = some p)
    (hfree : d.forest.Free guarded r) :
    ∀ s ∈ copies.flatMap ((g.replaceWith r copies).found chain),
      (g.replaceWith r copies).Free guarded s ∧ d.forest.size ≤ s ∧
      ∀ q < d.forest.size, (g.replaceWith r copies).parent? s = some q → q = p := by
  have hf := hready.wellFormed
  obtain ⟨hspliced, hwellFormed, hplace, -⟩ := h.put hf hr
  obtain ⟨pre, post, hsplit⟩ := List.append_of_mem ((hf.linked.mem_iff r p).mpr hr)
  have hkids := hplace pre post (hsplit.trans (List.append_cons _ _ _))
  intro s hs
  obtain ⟨c, hc, hs⟩ := List.mem_flatMap.mp hs
  have hcs := hwellFormed.above_of_mem_found hs
  have hcp : (g.replaceWith r copies).parent? c = some p :=
    hwellFormed.only c p (by rw [hkids]; simp [hc])
  have hnew : ∀ j, (g.replaceWith r copies).Above c j → d.forest.size ≤ j := fun j hcj =>
    Nat.le_of_not_lt fun hj => Nat.not_lt.mpr (h.new c hc) (hspliced.lt_size_of_above hf hj hcj)
  refine ⟨fun a ha has => ?_, hnew s hcs, fun q hq hparent => ?_⟩
  · -- Above the reference are nodes of the copy, and what is above its root.
    have hasize : a < d.forest.size := hready.stocked.inside a ha
    rcases has.total hcs with hac | hca
    · rcases hac.eq_or with rfl | ⟨q, hq, haq⟩
      · exact Nat.not_lt.mpr (h.new _ hc) hasize
      · obtain rfl := Option.some.inj (hcp.symm.trans hq)
        have hpsize := Forest.lt_size_of_mem_children ((hf.linked.mem_iff r p).mpr hr)
        exact hfree a ha (.up hr (hspliced.above_old hf hpsize haq))
    · exact Nat.not_lt.mpr (hnew a hca) hasize
  · rcases hcs.eq_or with rfl | ⟨q', hq', hcq⟩
    · exact Option.some.inj (hparent.symm.trans hcp)
    · obtain rfl := Option.some.inj (hparent.symm.trans hq')
      exact absurd hq (Nat.not_lt.mpr (hnew q hcq))

/-- Copies stand for the reference when what they refer to stands for their
    references. -/
theorem Turned.replaced {g : Forest} {copies R : List NodeId} {n : Node} {body : List Tree}
    (h : Build.Made d.forest g copies body) (hready : Ready guarded defs l d)
    (hr : d.forest.parent? r = some p) (hkind : n.kind = .substitutionReference)
    (hknown : defs n.refname = some body) (hnew : n.refname ∉ chain)
    (hturned : Turned defs (chain ++ [n.refname]) n.line p copies body R
      { d with forest := g.replaceWith r copies } d')
    (hR : ∀ s ∈ R, d.forest.size ≤ s ∧
      ∀ q < d.forest.size, (g.replaceWith r copies).parent? s = some q → q = p) :
    Turned defs chain 0 p [r] [.node n kids] [r] d d' := by
  obtain ⟨hspliced, -, hplace, -⟩ := h.put hready.wellFormed hr
  obtain ⟨is', ts', refusals, notices, hplace', hshows', hexpands, hrefuses, heq⟩ :=
    hturned.outcome
  refine ⟨hspliced.trans_new hturned.spliced (fun s hs => (hR s hs).1) fun s hs q hq hparent =>
    ⟨r, List.mem_singleton_self r, ?_⟩, hturned.wellFormed, is', ts', refusals, notices,
    fun pre post hsplit => hplace' pre post (hplace pre post hsplit), hshows', ?_, hrefuses, heq⟩
  · rw [(hR s hs).2 q hq hparent]
    exact hr
  · have hreplaced := @Expands.replaced defs _ 0 _ kids _ _ _ _ _ _ hkind hknown hnew
      (by rw [Node.lined_zero]; exact hexpands) .nil
    rwa [List.append_nil, List.append_nil] at hreplaced

/-- Expands what is found below nodes, on a chain of names; the references
    without a line get one. -/
def Pass.expandBelow (depth : Nat) (chain : List String) (line : Int) (nodes : List NodeId) :
    Build Unit :=
  nodes.forM fun c => do
    (← Pass.nodesOf .substitutionReference c).forM fun nested => do
      Build.update nested fun m => if m.line = 0 then { m with line := line } else m
      Pass.expand depth nested chain

/-- A reference whose name has no definition is refused. -/
theorem Pass.expand_undefined {r : NodeId} (depth : Nat) (chain : List String)
    (h : d.substitution? (d.forest.get r).refname = none) :
    Pass.expand (depth + 1) r chain d
      = Pass.refuseReference r (Refusal.undefined (d.forest.get r).refname).text d := by
  have hnode : Build.node r d = .ok (d.forest.get r) d := rfl
  have hdocument : (get : Build Document) d = .ok d d := rfl
  simp only [Pass.expand, Contract.bind_run, hnode, hdocument, h]
  rfl

/-- A reference whose name is on the chain is refused. -/
theorem Pass.expand_circular {r i : NodeId} (depth : Nat)
    (h : d.substitution? (d.forest.get r).refname = some i)
    (hagain : (d.forest.get r).refname ∈ chain) :
    Pass.expand (depth + 1) r chain d
      = Pass.refuseReference r (Refusal.circular (d.forest.get r).refname).text d := by
  have hnode : Build.node r d = .ok (d.forest.get r) d := rfl
  have hdocument : (get : Build Document) d = .ok d d := rfl
  simp only [Pass.expand, Contract.bind_run, hnode, hdocument, h,
    if_pos (List.contains_iff_mem.mpr hagain)]
  rfl

/-- Copies of what is defined take the place of any other reference, and the
    references in them are expanded. -/
theorem Pass.expand_defined {r i : NodeId} {copies : List NodeId} {g : Forest} (depth : Nat)
    (h : d.substitution? (d.forest.get r).refname = some i)
    (hnew : (d.forest.get r).refname ∉ chain)
    (hcopies : Pass.copyChildren i d = .ok copies { d with forest := g }) :
    Pass.expand (depth + 1) r chain d
      = Pass.expandBelow depth (chain ++ [(d.forest.get r).refname]) (d.forest.get r).line copies
          { d with forest := g.replaceWith r copies } := by
  have hnode : Build.node r d = .ok (d.forest.get r) d := rfl
  have hdocument : (get : Build Document) d = .ok d d := rfl
  have hnot : ¬chain.contains (d.forest.get r).refname = true := fun hagain =>
    hnew (List.contains_iff_mem.mp hagain)
  simp only [Pass.expand, Contract.bind_run, hnode, hdocument, h, if_neg hnot, hcopies]
  rfl

/-- Definitions that are at hand are expanded in the place of references: by
    induction on the depth to which definitions lead to others. -/
theorem steps_expand (depth : Nat) (chain : List String) :
    Steps guarded defs l chain 0 (Pass.expand depth · chain) := by
  induction depth generalizing chain with
  | zero => exact fun d r p kids _ _ _ _ _ _ => .error (.inl rfl)
  | succ depth ih =>
    intro d r p kids hready hr hkind hshows hplain hfree
    have hf := hready.wellFormed
    let n := d.forest.get r
    show ComesTo l _ (Pass.expand (depth + 1) r chain d)
    rcases hready.stocked.entries n.refname with
      ⟨hnone, hunknown⟩ | ⟨i, body, hi, hguarded, hknown, hbody, hbodyShows⟩
    · have hexpands : Expands defs chain 0 [.node n.bare kids] [.refused 0 n.bare kids]
          [.undefined n.refname] := .undefined (n := n.bare) hkind hunknown .nil
      rw [Pass.expand_undefined depth chain hnone]
      exact Turned.refused hready hr hshows _ hexpands
    by_cases hagain : n.refname ∈ chain
    · have hsome : (defs n.refname).isSome = true := hknown ▸ rfl
      have hexpands : Expands defs chain 0 [.node n.bare kids] [.refused 0 n.bare kids]
          [.circular n.refname] := .circular (n := n.bare) hkind hsome hagain .nil
      rw [Pass.expand_circular depth hi hagain]
      exact Turned.refused hready hr hshows _ hexpands
    · obtain ⟨g, copies, hcopies, hmade⟩ := copies_made hf (hf.inside i) hbodyShows
      rw [Pass.expand_defined depth hi hagain hcopies]
      obtain ⟨hspliced, hwellFormed, hplace, hput⟩ := hmade.put hf hr
      obtain ⟨pre, post, hsplit⟩ := List.append_of_mem ((hf.linked.mem_iff r p).mpr hr)
      -- The copies are free, so what is found in them is expanded on the longer chain.
      have hfound := hmade.found_new (chain ++ [n.refname]) hready hr hfree
      have hready' : Ready guarded defs l { d with forest := g.replaceWith r copies } :=
        ⟨hwellFormed, hready.stocked.keep hf hspliced (List.forall_mem_singleton.mpr hfree),
          hready.level⟩
      have hturn := ((ih (chain ++ [n.refname])).lined n.line).turn_each (by simp) hbody hready' hput
        (hplace pre post (hsplit.trans (List.append_cons _ _ _))) fun s hs => (hfound s hs).1
      exact hturn.mono fun d' h =>
        .replaced hmade hready hr hkind hknown hagain h fun s hs => (hfound s hs).2

end Expanding

/-! ## The whole tree -/

theorem Node.eq_of_bare {n m : Node} (hbare : n.bare = m.bare) (hchildren : n.children = m.children)
    (hparent : n.parent = m.parent) : n = m := by
  have hn : n = { n.bare with children := n.children, parent := n.parent } := rfl
  rw [hn, hbare, hchildren, hparent]
  rfl

/-- References to substitutions hold leaves with text, and nothing else. -/
def Forest.HoldsText (f : Forest) : Prop :=
  ∀ i, (f.get i).kind = .substitutionReference → ∀ c ∈ f.children i,
    (f.get c).kind = .text ∧ f.children c = []

/-- The shapes that the names of substitutions stand for. -/
def Document.definitions (d : Document) (name : String) : Option (List Tree) :=
  (d.substitution? name).map fun i => (d.forest.children i).map d.forest.shape

theorem Forest.Shows.plain {f : Forest} {is : List NodeId} (h : f.Shows is ts)
    (htext : f.HoldsText) : Plain ts := by
  induction h with
  | nil => exact .nil
  | @cons i is kids rest below _ ih₁ ih₂ =>
    refine .cons (fun hkind => ?_) ih₁ ih₂
    have hkids := htext i hkind
    generalize f.children i = cs at below hkids
    clear ih₁ ih₂
    induction below with
    | nil => exact List.forall_mem_nil _
    | @cons c cs kids rest below _ _ ih =>
      obtain ⟨⟨hleaf, hnone⟩, hrest⟩ := List.forall_mem_cons.mp hkids
      refine List.forall_mem_cons.mpr ⟨⟨(f.get c).bare, ?_, hleaf⟩, ih hrest⟩
      rw [hnone] at below
      cases below
      rfl

/-- **Substitutions are expanded, all of them and once for all.**  In a
    well-formed tree whose references hold text, with a table of definitions,
    the pass comes to an end, unless an error stops it.  Then no reference is
    left outside definitions; the definitions are as they were; the shape of
    the tree became what `Expands` says, reference by reference; and an error
    was raised for each reference that was refused, and no other message. -/
theorem Pass.substitute_expands {d : Document} {root : NodeId} (hf : d.forest.WellFormed)
    (hin : root < d.forest.size) (hkind : (d.node root).kind = .document)
    (hroot : d.forest.parent? root = none)
    (htext : d.forest.HoldsText)
    (htable : ∀ name i, d.substitution? name = some i → (d.node i).kind = .substitutionDefinition) :
    match substitute root d with
    | .ok _ d' =>
      (∃ refusals notices,
        Expands d.definitions [] 0 [d.forest.shape root] [d'.forest.shape root] refusals ∧
        List.Forall₂ Notice.refuses notices refusals ∧
        d' = { d with
          forest := d'.forest, reporter := notices.foldl Reporter.heard d.reporter }) ∧
      d'.forest.WellFormed ∧
      d'.forest.findOutsideDefinitions .substitutionReference root = [] ∧
      ∀ i j, (d.node i).kind = .substitutionDefinition → d.forest.Above i j →
        d'.node j = d.node j
    | .error e _ =>
      d.reporter.haltLevel ≤ .error ∧ ∃ x : Notice, x.level = .error ∧ e = .halted x.halt := by
  let guarded : NodeId → Prop := fun i => (d.forest.get i).kind = .substitutionDefinition
  have hinside : ∀ i, guarded i → i < d.forest.size := fun i hi => by
    by_contra hlt
    have hdefault : (d.forest.get i).kind = .document := by
      rw [Forest.get_of_size_le (Nat.le_of_not_lt hlt)]
      rfl
    exact absurd (hdefault.symm.trans hi) (by decide)
  have hready : Ready guarded d.definitions d.reporter.haltLevel d := by
    refine ⟨hf, ⟨hinside, fun name => ?_⟩, rfl⟩
    cases hentry : d.substitution? name with
    | none => exact .inl ⟨rfl, by rw [Document.definitions, hentry]; rfl⟩
    | some i =>
      have hshows := hf.shows (d.forest.children i)
      exact .inr ⟨i, _, rfl, htable name i hentry, by rw [Document.definitions, hentry]; rfl,
        hshows.plain htext, hshows⟩
  have henters : entering [] (d.forest.get root) = true := by
    simp [entering, show (d.forest.get root).kind = .document from hkind]
  have hnot : (d.forest.get root).kind ≠ .substitutionReference := by
    rw [show (d.forest.get root).kind = .document from hkind]
    decide
  have hfound : d.forest.found [] root
      = (d.forest.children root).flatMap (d.forest.found []) := by
    rw [hf.found_eq, henters, if_pos rfl, if_neg hnot, List.nil_append]
  -- No definition is above a reference that is found.
  have hfree : ∀ r ∈ (d.forest.children root).flatMap (d.forest.found []),
      d.forest.Free guarded r := by
    intro r hr a ha habove
    rw [← hfound] at hr
    rcases hf.enter_of_mem_walk (List.mem_of_mem_filter hr) habove with rfl | hin | ⟨p, hp, -⟩
    · exact absurd ((Forest.kind_of_mem_found hr).symm.trans ha) (by decide)
    · simp [entering, show (d.forest.get a).kind = _ from ha] at hin
    · rw [hroot] at hp
      cases hp
  have hshows := hf.shows (d.forest.children root)
  have hturn := (steps_expand (d.forest.size + 2) []).turn (hshows.plain htext) hready
    hshows (show d.forest.children root = [] ++ d.forest.children root ++ [] by simp) hfree
  rw [← hfound] at hturn
  have hrun : substitute root d
      = (d.forest.found [] root).forM (expand (d.forest.size + 2) · []) d := rfl
  have hexhausted := substitute_ne_exhausted root d
  rw [hrun] at hexhausted ⊢
  generalize (d.forest.found [] root).forM (expand (d.forest.size + 2) · []) d = result
    at hturn hexhausted
  cases hturn with
  | error h =>
    rcases h with rfl | h
    · exact absurd rfl (hexhausted _)
    · exact h
  | @ok _ d' h =>
    obtain ⟨is', ts', refusals, notices, hplace, hdone, hexpands, hrefuses, heq⟩ := h.outcome
    have hf' := h.wellFormed
    have hbare : (d'.forest.get root).bare = (d.forest.get root).bare :=
      h.spliced.bare root hin fun hmem => hnot (Forest.kind_of_mem_found hmem)
    have hkids : d'.forest.children root = is' := by simpa using hplace [] [] (by simp)
    have hshape : d'.forest.shape root = .node (d.forest.get root).bare ts' := by
      rw [hf'.shape_eq, hbare, hkids, hdone.eq_map_shape hf']
    have hroots : Expands d.definitions [] 0 [d.forest.shape root] [d'.forest.shape root]
        refusals := by
      rw [hshape, hf.shape_eq, ← List.append_nil refusals]
      exact .stays (n := (d.forest.get root).bare) hnot henters hexpands .nil
    have hleft := Forest.found_of_expands hf' hroots (hf'.shows [root]) root
      (List.mem_singleton_self root)
    refine ⟨⟨refusals, notices, hroots, hrefuses, heq⟩, hf', hleft, fun i j hi hij => ?_⟩
    have hfree' : ∀ r ∈ d.forest.found [] root, d.forest.Free guarded r := hfound ▸ hfree
    obtain ⟨hsame, hchildren⟩ := h.spliced.agreeOn_guarded hinside hfree' j ⟨i, hi, hij⟩
    have hparent : d'.forest.parent? j = d.forest.parent? j := by
      refine h.spliced.parent j ?_ fun hmem => hfree' j hmem i hi hij
      rcases hij.eq_or with rfl | ⟨q, hq, -⟩
      · exact hinside _ hi
      · exact Forest.lt_size_of_parent? hq
    exact Node.eq_of_bare hsame hchildren hparent

/-- A paragraph that refers to a substitution, and its definition after it. -/
theorem Pass.substitute_expands_paragraph :
    ∃ d : Document, d.forest.WellFormed ∧ d.forest.HoldsText ∧ ∃ d', d'.forest.WellFormed ∧
      substitute 0 d = .ok ⟨⟩ d' ∧ d.forest.asText 0 = "a\n\nx" ∧
      d'.forest.asText 0 = "x\n\nx" := by
  have h₁ := Forest.Edited.empty.element { kind := .document } [] nofun
  have h₂ := h₁.element { kind := .text, value := "x" } [] nofun
  have h₃ := h₂.element { kind := .substitutionDefinition } [1] (by decide)
  have h₄ := h₃.element { kind := .text, value := "a" } [] nofun
  have h₅ := h₄.element { kind := .substitutionReference, refname := "a" } [3] (by decide)
  have h₆ := h₅.element { kind := .paragraph } [4] (by decide)
  have h₇ := h₆.step (.append 0 (.own [5, 2])) ⟨by decide, by decide, fun c hc h => ?_⟩
  · generalize hforest : Forest.Edit.run _ _ = f at h₇
    let d : Document := { Document.new "" {} with
      forest := f, substitutions := [("a", 2)], foldedSubstitutions := [("a", "a")] }
    have hf : d.forest.WellFormed := h₇.wellFormed_of
    have htext : d.forest.HoldsText := by
      intro i hi
      have hall : ∀ i < f.size, (f.get i).kind = .substitutionReference → ∀ c ∈ f.children i,
          (f.get c).kind = .text ∧ f.children c = [] := by
        rw [← hforest]
        decide
      exact hall i (Forest.lt_size_of_reference hi) hi
    have htable : ∀ name i, d.substitution? name = some i →
        (d.node i).kind = .substitutionDefinition := by
      have hentry : ∀ key i, d.substitutions.get? key = some i →
          (d.node i).kind = .substitutionDefinition := by
        intro key i hi
        obtain ⟨-, rfl⟩ := Prod.mk.inj (List.mem_singleton.mp (Data.Table.mem_of_get? hi))
        show (f.get 2).kind = _
        rw [← hforest]
        decide
      intro name i hi
      simp only [Document.substitution?] at hi
      split at hi
      · rename_i hfound
        exact hentry _ i (hi ▸ hfound)
      · obtain ⟨key, -, hkey⟩ := Option.bind_eq_some_iff.mp hi
        exact hentry key i hkey
    have hin : 0 < f.size := by
      rw [← hforest]
      decide
    have hroot : (f.get 0).kind = .document ∧ f.parent? 0 = none := by
      rw [← hforest]
      decide
    have hrun := substitute_expands (d := d) hf hin hroot.1 hroot.2 htext htable
    have hshown : (match substitute 0 d with
        | .ok _ d' => d'.forest.asText 0
        | .error _ _ => "") = "x\n\nx" := by
      subst hforest
      decide +kernel
    have hbefore : f.asText 0 = "a\n\nx" := by
      subst hforest
      decide +kernel
    cases hresult : substitute 0 d with
    | ok u d' =>
      rw [hresult] at hrun hshown
      exact ⟨d, hf, htext, d', hrun.2.1, hresult, hbefore, hshown⟩
    | error e d' =>
      rw [hresult] at hrun
      have hnever : ¬Level.never ≤ .error := by decide
      exact absurd hrun.1 hnever
  · -- The document has no parent, so nothing but itself stands above it.
    rcases h.eq_or with h | ⟨p, hp, -⟩
    · subst h
      revert hc
      decide
    · cases hp

end MarkupLint