import MarkupLint.Proofs.Account
import MarkupLint.Proofs.Substituting
import MarkupLint.Proofs.Walking

/-! # Marks in the place of nodes

    Passes raise messages, and put marks in the place of what is wrong.  New
    nodes stand aside at first (`Build.Drafted`), and a mark then takes the
    place of a node with the text of that node (`Forest.Marked`).  Marks that
    are put one after the other in document order hold the texts of the tree
    as it was in the beginning (`Forest.Marked.trans`): what stands below a
    node is marked after it. -/

namespace MarkupLint

/-- Whether nodes of the kind are made to say what is wrong. -/
def Kind.isRemark : Kind → Bool
  | .systemMessage | .problematic | .paragraph | .literalBlock | .text => true
  | _ => false

/-- The node after it was said whether something refers to it. -/
def Node.noted (n : Node) (now : Bool) : Node := { n with referenced := n.referenced || now }

theorem Node.noted_false (n : Node) : n.noted false = n := by
  rw [noted, Bool.or_false]

theorem Node.noted_noted (n : Node) (a b : Bool) : (n.noted a).noted b = n.noted (a || b) := by
  simp only [noted, Bool.or_assoc]

/-- What a notice says, and how grave it is. -/
def Notice.said (x : Notice) : Level × String := (x.level, x.text)

/-! ## Runs -/

/-- The run ended as `Q` says, unless a message no graver than `top` stopped
    it, which reached the level that stops processing. -/
inductive Reaches {α : Type} (halt top : Level) (Q : α → Document → Prop) :
    EStateM.Result Stop Document α → Prop
  | ok {a : α} {d : Document} (h : Q a d) : Reaches halt top Q (.ok a d)
  | error {x : Notice} {d : Document} (known : x.level ≤ top) (reached : halt ≤ x.level) :
      Reaches halt top Q (.error (.halted x.halt) d)

namespace Reaches

variable {α β : Type} {halt top : Level} {Q : α → Document → Prop} {Q' : β → Document → Prop}
  {d : Document}

theorem bind {x : Build α} {k : α → Build β} (hx : Reaches halt top Q (x d))
    (hk : ∀ a d', Q a d' → Reaches halt top Q' (k a d')) : Reaches halt top Q' ((x >>= k) d) := by
  rw [Contract.bind_run]
  generalize x d = result at hx
  cases hx with
  | ok h => exact hk _ _ h
  | error known reached => exact .error known reached

theorem mono {P : α → Document → Prop} {x : EStateM.Result Stop Document α}
    (hx : Reaches halt top Q x) (himp : ∀ a d', Q a d' → P a d') : Reaches halt top P x := by
  cases hx with
  | ok h => exact .ok (himp _ _ h)
  | error known reached => exact .error known reached

end Reaches

/-! ## New nodes that stand aside -/

namespace Build

/-- What is made of nodes that say what is wrong and have no parent. -/
structure Drafted (f g : Forest) (is : List NodeId) : Prop where
  extended : f.Extends g
  wellFormed : g.WellFormed
  nodup : is.Nodup
  new : ∀ i ∈ is, f.size ≤ i
  inside : ∀ i ∈ is, i < g.size ∧ g.parent? i = none
  remarks : ∀ j, f.size ≤ j → j < g.size → (g.get j).kind.isRemark = true

variable {f g h : Forest} {is js : List NodeId} {d : Document}

theorem Drafted.nil (hf : f.WellFormed) : Drafted f f [] :=
  ⟨⟨Nat.le_refl _, fun _ _ => rfl⟩, hf, List.nodup_nil, List.forall_mem_nil _, List.forall_mem_nil _,
    fun _ hle hlt => absurd hlt (Nat.not_lt.mpr hle)⟩

theorem Drafted.made (hs : Drafted f g is) : Made f g is (is.map g.shape) :=
  ⟨hs.extended, hs.wellFormed, hs.nodup, hs.new, hs.inside, hs.wellFormed.shows is⟩

theorem Drafted.append (hs : Drafted f g is) (hs' : Drafted g h js) : Drafted f h (is ++ js) where
  extended := hs.extended.trans hs'.extended
  wellFormed := hs'.wellFormed
  nodup := List.nodup_append.mpr ⟨hs.nodup, hs'.nodup, fun i hi j hj heq =>
    absurd (hs.inside i hi).1 (Nat.not_lt.mpr (heq ▸ hs'.new j hj))⟩
  new i hi := by
    rcases List.mem_append.mp hi with hi | hi
    · exact hs.new i hi
    · exact Nat.le_trans hs.extended.size (hs'.new i hi)
  inside i hi := by
    rcases List.mem_append.mp hi with hi | hi
    · obtain ⟨hlt, hnone⟩ := hs.inside i hi
      refine ⟨Nat.lt_of_lt_of_le hlt hs'.extended.size, ?_⟩
      rw [Forest.parent?, hs'.extended.old i hlt]
      exact hnone
    · exact hs'.inside i hi
  remarks j hle hlt := by
    by_cases hj : j < g.size
    · rw [hs'.extended.old j hj]
      exact hs.remarks j hle hj
    · exact hs'.remarks j (Nat.le_of_not_lt hj) hlt

theorem Drafted.perm (hs : Drafted f g is) (hperm : is.Perm js) : Drafted f g js :=
  ⟨hs.extended, hs.wellFormed, hperm.nodup_iff.mp hs.nodup,
    fun i hi => hs.new i (hperm.mem_iff.mpr hi), fun i hi => hs.inside i (hperm.mem_iff.mpr hi),
    hs.remarks⟩

theorem element_drafted (hs : Drafted f d.forest is) {n : Node} (hn : n.kind.isRemark = true) :
    ∃ g, element n is d = .ok d.forest.size { d with forest := g } ∧
      Drafted f g [d.forest.size] ∧ (g.get d.forest.size).bare = n.bare := by
  obtain ⟨g, hrun, hmade⟩ := element_made hs.made n
  have hg : g = (d.forest.alloc n).2.append d.forest.size is := by
    injection hrun.symm with _ heq
    exact congrArg Document.forest heq
  have hbare : ∀ j, (g.get j).bare
      = if j = d.forest.size then n.bare else (d.forest.get j).bare := fun j => by
    rw [hg, Forest.bare_append, Forest.get_alloc]
    split <;> rfl
  refine ⟨g, hrun, ⟨hmade.extended, hmade.wellFormed, hmade.nodup, hmade.new, hmade.inside,
    fun j hle hlt => ?_⟩, by rw [hbare, if_pos rfl]⟩
  have hkind : (g.get j).bare.kind.isRemark = true := by
    rw [hbare]
    split
    · exact hn
    · rename_i hne
      have hsize : g.size = d.forest.size + 1 := by simp [hg]
      rw [hsize] at hlt
      exact hs.remarks j hle (Nat.lt_of_le_of_ne (Nat.le_of_lt_succ hlt) hne)
  exact hkind

theorem textElement_drafted (hf : d.forest.WellFormed) {n : Node} (hn : n.kind.isRemark = true)
    (text : String) :
    ∃ g i, textElement n text d = .ok i { d with forest := g } ∧ Drafted d.forest g [i] := by
  by_cases htext : text = ""
  · obtain ⟨g, hrun, hdrafted, -⟩ := element_drafted (Drafted.nil hf) hn
    refine ⟨g, _, ?_, hdrafted⟩
    rw [textElement, if_pos htext]
    exact hrun
  · obtain ⟨g, hleaf, hdrafted, -⟩ :=
      element_drafted (n := { kind := .text, value := text }) (Drafted.nil hf) rfl
    obtain ⟨h, hrun, hdrafted, -⟩ := element_drafted (d := { d with forest := g }) hdrafted hn
    refine ⟨h, _, ?_, hdrafted⟩
    rw [textElement, if_neg htext]
    simp only [leaf, bind, EStateM.bind, hleaf, hrun]

theorem textElements_drafted {k : Kind} (hk : k.isRemark = true) (texts : List String)
    (hs : Drafted f d.forest is) :
    ∃ g js, texts.mapM (textElement { kind := k }) d = .ok js { d with forest := g } ∧
      Drafted f g (is ++ js) := by
  induction texts generalizing d is with
  | nil => exact ⟨d.forest, [], rfl, by rwa [List.append_nil]⟩
  | cons text texts ih =>
    obtain ⟨g, i, hrun, hfirst⟩ :=
      textElement_drafted (n := { kind := k }) hs.wellFormed hk text
    obtain ⟨h, js, hruns, hrest⟩ := ih (d := { d with forest := g }) (hs.append hfirst)
    refine ⟨h, i :: js, ?_, by rwa [List.append_assoc] at hrest⟩
    rw [List.mapM_cons]
    simp only [bind, EStateM.bind, hrun, hruns]
    rfl

theorem message_drafted (level : Level) (text : String) (o : Placement)
    (hf : d.forest.WellFormed) :
    ∃ g msg, message level text o d = .ok msg { d with forest := g } ∧
      Drafted d.forest g [msg] ∧ (g.get msg).kind = .systemMessage ∧
      (g.get msg).level = level := by
  obtain ⟨spot, hplace⟩ := place_eq o d
  obtain ⟨g₁, quote, hquote, hquoted⟩ :=
    textElements_drafted (k := .literalBlock) rfl o.literal.toList (Drafted.nil hf)
  obtain ⟨g₂, statement, hstatement, hstated⟩ := textElements_drafted (k := .paragraph) rfl
    (if text = "" then [] else [text]) (d := { d with forest := g₁ }) hquoted
  let n : Node :=
    { kind := .systemMessage, level := level, type := level.name, source := spot.1, line := spot.2 }
  obtain ⟨g, hrun, hdrafted, hbare⟩ := element_drafted (d := { d with forest := g₂ }) (n := n)
    (hstated.perm List.perm_append_comm) rfl
  refine ⟨g, _, ?_, hdrafted, congrArg Node.kind hbare, congrArg Node.level hbare⟩
  simp only [message, messageAt, bind, EStateM.bind, hplace, hquote, hstatement]
  exact hrun

/-- Raising a message makes its node aside, and the reporter hears its
    notice. -/
theorem raise_reaches {level top : Level} (hlevel : level ≤ top) (text : String) (o : Placement)
    (hf : d.forest.WellFormed) :
    Reaches d.reporter.haltLevel top (fun msg d' => ∃ x : Notice, x.level = level ∧ x.text = text ∧
        Drafted d.forest d'.forest [msg] ∧ (d'.node msg).kind = .systemMessage ∧
        (d'.node msg).level = level ∧
        d' = { d with forest := d'.forest, reporter := d.reporter.heard x })
      (raise level text o d) := by
  obtain ⟨spot, hplace⟩ := place_eq o d
  obtain ⟨g, msg, hmessage, hdrafted, hkind, hmsg⟩ := message_drafted level text o hf
  let x : Notice := ⟨level, text, spot.1, spot.2, o.literal⟩
  have hraise : raise level text o d = (announce x >>= fun _ => pure msg) { d with forest := g } := by
    rw [raise_eq]
    simp only [bind, EStateM.bind, hplace, hmessage]
    rfl
  rw [hraise]
  simp only [bind, EStateM.bind, announce_eq]
  by_cases hhalt : d.reporter.haltLevel ≤ level
  · rw [if_pos hhalt]
    exact .error hlevel hhalt
  · rw [if_neg hhalt]
    refine .ok ⟨x, rfl, rfl, hdrafted, hkind, hmsg, ?_⟩
    rw [Reporter.heard, if_neg hhalt]

end Build

/-! ## Marks -/

namespace Forest

variable {f g h : Forest} {i j r c m : NodeId} {is rs rs' ns ns' : List NodeId}
  {mark mark' : NodeId → NodeId} {P : NodeId → Prop}

/-- Nodes with the same kinds and leaves below them have the same text. -/
theorem WellFormed.asText_congr (hf : f.WellFormed) (hsize : f.size ≤ g.size)
    (hclosed : ∀ j, P j → ∀ c ∈ f.children j, P c)
    (hagree : ∀ j, P j → (g.get j).kind = (f.get j).kind ∧ (g.get j).value = (f.get j).value ∧
      g.children j = f.children j) (hi : P i) : g.asText i = f.asText i := by
  have hdepths : ∀ n i, f.Within n i → P i → ∀ depth depth', n ≤ depth → n ≤ depth' →
      g.textWithin depth' i = f.textWithin depth i := by
    intro n
    induction n with
    | zero => exact fun i h => h.elim
    | succ n ih =>
      intro i hwithin hi depth depth' hn hn'
      obtain ⟨depth, rfl⟩ := Nat.exists_eq_add_of_le' (Nat.lt_of_lt_of_le (Nat.succ_pos n) hn)
      obtain ⟨depth', rfl⟩ := Nat.exists_eq_add_of_le' (Nat.lt_of_lt_of_le (Nat.succ_pos n) hn')
      obtain ⟨hkind, hvalue, hkids⟩ := hagree i hi
      have htexts : (f.children i).map (g.textWithin depth')
          = (f.children i).map (f.textWithin depth) :=
        List.map_congr_left fun c hc => ih c (hwithin c hc) (hclosed i hi c hc) _ _
          (Nat.le_of_succ_le_succ hn) (Nat.le_of_succ_le_succ hn')
      simp only [children] at hkids htexts
      simp only [textWithin, hkind, hvalue, hkids, htexts]
  exact hdepths _ i (hf.within i) hi _ _ (Nat.le_refl _) (Nat.succ_le_succ hsize)

/-- The node `m` of `g` is a mark with the text of the node `r` of `f`, and
    stands where that stood. -/
structure MarkOf (f g : Forest) (r m : NodeId) : Prop where
  new : f.size ≤ m
  inside : m < g.size
  kind : (g.get m).kind = .problematic
  line : (g.get m).line = (f.get r).line
  source : (g.get m).source = (f.get r).source
  text : g.asText m = f.asText r
  parent : g.parent? m = f.parent? r

/-- From `f` to `g`, marks were put in the place of the nodes `rs`, and the
    nodes `ns` were said to be referred to; what else is new stands aside and
    says what is wrong. -/
structure Marked (f g : Forest) (rs ns : List NodeId) (mark : NodeId → NodeId) : Prop where
  size : f.size ≤ g.size
  wellFormed : g.WellFormed
  bare : ∀ j < f.size, (g.get j).bare = (f.get j).bare.noted (j ∈ ns)
  parent : ∀ j < f.size, g.parent? j = if j ∈ rs then none else f.parent? j
  children : ∀ j < f.size, g.children j = (f.children j).map fun c => if c ∈ rs then mark c else c
  remarks : ∀ j, f.size ≤ j → j < g.size → (g.get j).kind.isRemark = true
  marks : ∀ r ∈ rs, f.MarkOf g r (mark r)

theorem map_unmarked (h : ∀ c ∈ is, c ∉ rs) :
    (is.map fun c => if c ∈ rs then mark c else c) = is :=
  (List.map_congr_left fun c hc => if_neg (h c hc)).trans (List.map_id _)

namespace Marked

theorem of_drafted (hs : Build.Drafted f g is) : f.Marked g [] [] mark where
  size := hs.extended.size
  wellFormed := hs.wellFormed
  bare j hj := by rw [hs.extended.old j hj]; exact (Node.noted_false _).symm
  parent j hj := by simp [Forest.parent?, hs.extended.old j hj]
  children j hj := by simp [Forest.children, hs.extended.old j hj]
  remarks := hs.remarks
  marks := List.forall_mem_nil _

theorem refl (hf : f.WellFormed) : f.Marked f [] [] mark := of_drafted (.nil hf)

theorem note (hf : f.WellFormed) (n : NodeId) :
    f.Marked (f.modify n ({ · with referenced := true })) [] [n] mark := by
  have hparent : ∀ j, (f.modify n ({ · with referenced := true })).parent? j = f.parent? j :=
    fun j => parent?_modify f n j fun _ => rfl
  have hkids : ∀ j, (f.modify n ({ · with referenced := true })).children j = f.children j :=
    fun j => children_modify f n j fun _ => rfl
  exact {
    size := by simp
    wellFormed := hf.congr hparent hkids
    bare := fun j hj => by
      rw [get_modify]
      by_cases hnj : n = j
      · subst hnj
        simp [hj, Node.noted, Node.bare]
      · simp [hnj, Ne.symm hnj, Node.noted]
    parent := fun j _ => by simpa using hparent j
    children := fun j _ => by simpa using hkids j
    remarks := fun j hle hlt => by
      rw [size_modify] at hlt
      exact absurd hlt (Nat.not_lt.mpr hle)
    marks := List.forall_mem_nil _ }

/-- What neither says where a node stands nor whether it is referred to is
    kept of an old node. -/
theorem view_old {α : Type} (view : Node → α) (hview : ∀ n now, view (n.bare.noted now) = view n)
    (hs : f.Marked g rs ns mark) (hj : j < f.size) : view (g.get j) = view (f.get j) := by
  have h := congrArg view (hs.bare j hj)
  rwa [hview, ← Node.noted_false (g.get j).bare, hview] at h

/-- An old node has an old parent or none, so what is new holds nothing
    old. -/
theorem new_children (hs : f.Marked g rs ns mark) (hf : f.WellFormed) (hj : f.size ≤ j)
    (hc : c ∈ g.children j) : f.size ≤ c := by
  by_contra hlt
  have hparent := hs.wellFormed.only c j hc
  rw [hs.parent c (Nat.lt_of_not_le hlt)] at hparent
  split at hparent
  · cases hparent
  · exact absurd (lt_size_of_mem_children ((hf.linked.mem_iff c j).mpr hparent))
      (Nat.not_lt.mpr hj)

/-- What stands below a new node is new. -/
theorem new_of_above (hs : f.Marked g rs ns mark) (hf : f.WellFormed) {a : NodeId} (ha : f.size ≤ a)
    (h : g.Above a j) : f.size ≤ j := by
  induction h with
  | here => exact ha
  | up hq _ ih => exact hs.new_children hf ih ((hs.wellFormed.linked.mem_iff _ _).mpr hq)

/-- Above an old node is what was above it. -/
theorem above_old (hs : f.Marked g rs ns mark) (hf : f.WellFormed) {a : NodeId} (hj : j < f.size)
    (ha : g.Above a j) : f.Above a j := by
  induction ha with
  | here => exact .here
  | @up j q hq _ ih =>
    rw [hs.parent j hj] at hq
    split at hq
    · cases hq
    · exact .up hq (ih (lt_size_of_mem_children ((hf.linked.mem_iff j q).mpr hq)))

/-- The text of a node is kept if nothing below it was marked. -/
theorem text_old (hs : f.Marked g rs ns mark) (hf : f.WellFormed) (hi : i < f.size)
    (hnot : ∀ r ∈ rs, ¬f.Above i r) : g.asText i = f.asText i := by
  refine hf.asText_congr hs.size (P := fun j => f.Above i j ∧ j < f.size)
    (fun j hj c hc => ⟨.up (hf.only c j hc) hj.1, hf.inside j c hc⟩) (fun j hj => ?_) ⟨.here, hi⟩
  refine ⟨hs.view_old Node.kind (fun _ _ => rfl) hj.2, hs.view_old Node.value (fun _ _ => rfl) hj.2, ?_⟩
  rw [hs.children j hj.2]
  exact map_unmarked fun c hc hmem => hnot c hmem (.up (hf.only c j hc) hj.1)

/-- A mark stays one when more is marked, but not the mark itself: what
    stands below a mark is new, and what is marked is old. -/
theorem markOf (hs : f.Marked g rs ns mark) (hs' : g.Marked h rs' ns' mark') (hf : f.WellFormed)
    (hold : ∀ r ∈ rs', r < f.size) (hmark : f.MarkOf g r m) : f.MarkOf h r m :=
  have hunmarked : m ∉ rs' := fun hmem => absurd (hold m hmem) (Nat.not_lt.mpr hmark.new)
  { new := hmark.new
    inside := Nat.lt_of_lt_of_le hmark.inside hs'.size
    kind := (hs'.view_old Node.kind (fun _ _ => rfl) hmark.inside).trans hmark.kind
    line := (hs'.view_old Node.line (fun _ _ => rfl) hmark.inside).trans hmark.line
    source := (hs'.view_old Node.source (fun _ _ => rfl) hmark.inside).trans hmark.source
    text := (hs'.text_old hs.wellFormed hmark.inside fun r' hr' habove =>
      absurd (hs.new_of_above hf hmark.new habove) (Nat.not_le.mpr (hold r' hr'))).trans hmark.text
    parent := by rw [hs'.parent m hmark.inside, if_neg hunmarked, hmark.parent] }

/-- The mark of a node that looks as it did before other nodes were marked. -/
theorem markOf_unmarked (hs : f.Marked g rs ns mark) (hf : f.WellFormed) (hr : r < f.size)
    (hnot : ∀ r' ∈ rs, ¬f.Above r r') (hmark : g.MarkOf h r m) : f.MarkOf h r m :=
  have hunmarked : r ∉ rs := fun hmem => hnot r hmem .here
  { new := Nat.le_trans hs.size hmark.new
    inside := hmark.inside
    kind := hmark.kind
    line := hmark.line.trans (hs.view_old Node.line (fun _ _ => rfl) hr)
    source := hmark.source.trans (hs.view_old Node.source (fun _ _ => rfl) hr)
    text := hmark.text.trans (hs.text_old hf hr hnot)
    parent := by rw [hmark.parent, hs.parent r hr, if_neg hunmarked] }

/-- Marks come after marks, if nothing is marked that stands above a node
    marked before. -/
theorem trans (hs : f.Marked g rs ns mark) (hs' : g.Marked h rs' ns' mark') (hf : f.WellFormed)
    (hold : ∀ r ∈ rs', r < f.size) (hnot : ∀ r' ∈ rs', ∀ r ∈ rs, ¬f.Above r' r) :
    f.Marked h (rs ++ rs') (ns ++ ns') fun r => if r ∈ rs then mark r else mark' r := by
  have hlt : ∀ {j}, j < f.size → j < g.size := fun hj => Nat.lt_of_lt_of_le hj hs.size
  have hnew : ∀ r ∈ rs, mark r ∉ rs' := fun r hr hmem =>
    absurd (hold _ hmem) (Nat.not_lt.mpr (hs.marks r hr).new)
  exact {
    size := Nat.le_trans hs.size hs'.size
    wellFormed := hs'.wellFormed
    bare := fun j hj => by
      rw [hs'.bare j (hlt hj), hs.bare j hj, Node.noted_noted]
      simp only [List.mem_append, Bool.decide_or]
    parent := fun j hj => by
      rw [hs'.parent j (hlt hj), hs.parent j hj]
      by_cases hrs : j ∈ rs <;> by_cases hrs' : j ∈ rs' <;> simp [hrs, hrs']
    children := fun j hj => by
      rw [hs'.children j (hlt hj), hs.children j hj, List.map_map]
      refine List.map_congr_left fun c _ => ?_
      by_cases hc : c ∈ rs
      · simp [hc, hnew c hc]
      · simp [hc]
    remarks := fun j hle hj => by
      by_cases hjg : j < g.size
      · rw [hs'.view_old Node.kind (fun _ _ => rfl) hjg]
        exact hs.remarks j hle hjg
      · exact hs'.remarks j (Nat.le_of_not_lt hjg) hj
    marks := fun r hr => by
      by_cases hrs : r ∈ rs
      · rw [if_pos hrs]
        exact hs.markOf hs' hf hold (hs.marks r hrs)
      · have hmem := (List.mem_append.mp hr).resolve_left hrs
        rw [if_neg hrs]
        exact hs.markOf_unmarked hf (hold r hmem) (hnot r hmem) (hs'.marks r hmem) }

end Marked

end Forest

/-- The node of a mark for the node `r`. -/
def Forest.markFor (f : Forest) (r : NodeId) : Node :=
  { kind := .problematic, line := (f.get r).line, source := (f.get r).source }

/-- The shape of a mark for the node `r`. -/
def Forest.markShape (f : Forest) (r : NodeId) : Tree :=
  .node (f.markFor r).bare
    (if f.asText r = "" then [] else [.node { kind := .text, value := f.asText r } []])

namespace Forest

variable {f g : Forest} {r m p : NodeId}

/-- A node in the shape of a mark is one, wherever it stands. -/
theorem MarkOf.of_shows (hg : g.WellFormed) (h : g.Shows [m] [f.markShape r]) (hnew : f.size ≤ m)
    (hinside : m < g.size) (hparent : g.parent? m = f.parent? r) : f.MarkOf g r m := by
  have hshape := (List.cons.inj (h.eq_map_shape hg)).1
  have hbare : (f.markFor r).bare = (g.get m).bare := by
    rw [hg.shape_eq] at hshape
    exact (Tree.node.inj hshape).1
  have hfields : (g.get m).kind = .problematic ∧ (g.get m).line = (f.get r).line ∧
      (g.get m).source = (f.get r).source := by
    refine ⟨?_, ?_, ?_⟩
    · exact (congrArg Node.kind hbare).symm
    · exact (congrArg Node.line hbare).symm
    · exact (congrArg Node.source hbare).symm
  refine ⟨hnew, hinside, hfields.1, hfields.2.1, hfields.2.2, ?_, hparent⟩
  have hkind : (f.markFor r).bare.kind = .problematic := rfl
  have htextual : Kind.problematic.isTextual = true := rfl
  rw [hg.asText_eq, ← hshape, markShape]
  by_cases htext : f.asText r = "" <;> simp [Tree.text, Tree.texts, hkind, htext, htextual]

/-- A node that stands nowhere stays there, and so does its mark. -/
theorem Marked.of_orphan (hf : f.WellFormed) (hs : Build.Drafted f g [m])
    (hshows : g.Shows [m] [f.markShape r]) (hr : f.parent? r = none) :
    f.Marked g [r] [] fun _ => m := by
  have haside : f.Marked g [] [] fun _ => m := .of_drafted hs
  have hnew := hs.new m (List.mem_singleton_self m)
  obtain ⟨hinside, horphan⟩ := hs.inside m (List.mem_singleton_self m)
  exact { haside with
    parent := fun j hj => by
      rw [haside.parent j hj]
      by_cases hjr : j = r <;> simp [hjr, hr]
    children := fun j hj => by
      have hnone : ((f.children j).map fun c => if c ∈ [] then m else c) = f.children j :=
        map_unmarked fun c _ => List.not_mem_nil
      rw [haside.children j hj, hnone, map_unmarked fun c hc hcr => ?_]
      obtain rfl := List.mem_singleton.mp hcr
      rw [hf.only c j hc] at hr
      cases hr
    marks := List.forall_mem_singleton.mpr
      (.of_shows hs.wellFormed hshows hnew hinside (horphan.trans hr.symm)) }

/-- The mark of a child stands in its place. -/
theorem Marked.of_child (hf : f.WellFormed) (hs : Build.Drafted f g [m])
    (hshows : g.Shows [m] [f.markShape r]) (hr : f.parent? r = some p) :
    f.Marked (g.replaceWith r [m]) [r] [] fun _ => m := by
  have hmade : Build.Made f g [m] [f.markShape r] :=
    ⟨hs.extended, hs.wellFormed, hs.nodup, hs.new, hs.inside, hshows⟩
  have hnew := hs.new m (List.mem_singleton_self m)
  have hinside := (hs.inside m (List.mem_singleton_self m)).1
  have hold : ∀ j < f.size, g.get j = f.get j := hs.extended.old
  have hparent : g.parent? r = some p := by
    rw [Forest.parent?, hold r (lt_size_of_parent? hr)]
    exact hr
  obtain ⟨-, hwellFormed, -, hshows'⟩ := hmade.put hf hr
  have hplace := hs.wellFormed.replaceWith_inPlace hparent hs.inside
  have hmark : f.MarkOf (g.replaceWith r [m]) r m := by
    refine .of_shows hwellFormed hshows' hnew (hplace.size ▸ hinside) ?_
    rw [hplace.parent, if_pos (List.mem_singleton_self m), hr]
  exact {
    size := hplace.size ▸ hs.extended.size
    wellFormed := hwellFormed
    bare := fun j hj => by
      rw [hplace.bare, hold j hj]
      exact (Node.noted_false _).symm
    parent := fun j hj => by
      have hne : j ≠ m := Nat.ne_of_lt (Nat.lt_of_lt_of_le hj hnew)
      rw [hplace.parent]
      simp only [List.mem_singleton, hne, if_false]
      rw [Forest.parent?, hold j hj, Forest.parent?]
    children := fun j hj => by
      by_cases hjp : j = p
      · -- Among the children of the parent the mark comes where the node was.
        subst hjp
        obtain ⟨pre, post, hsplit⟩ := List.append_of_mem ((hf.linked.mem_iff r j).mpr hr)
        have hnot := hf.not_mem_of_split hsplit
        have hother : ∀ l : List NodeId, r ∉ l → ∀ c ∈ l, c ∉ [r] := fun l hl c hc hcr =>
          hl (List.mem_singleton.mp hcr ▸ hc)
        rw [hplace.place pre post (by rw [Forest.children, hold j hj]; exact hsplit), hsplit,
          List.map_append, List.map_cons, map_unmarked (hother pre hnot.1),
          map_unmarked (hother post hnot.2)]
        simp
      · rw [hplace.children j hjp, Forest.children, hold j hj, ← Forest.children,
          map_unmarked fun c hc hcr => ?_]
        obtain rfl := List.mem_singleton.mp hcr
        exact hjp (Option.some.inj ((hf.only c j hc).symm.trans hr))
    remarks := fun j hle hlt => by
      rw [kind_of_bare (hplace.bare j)]
      exact hs.remarks j hle (hplace.size ▸ hlt)
    marks := List.forall_mem_singleton.mpr hmark }

end Forest

/-- A mark is put in the place of a node and has its text. -/
theorem Pass.markProblematic_marked {d : Document} {r : NodeId} (hf : d.forest.WellFormed)
    (hr : r < d.forest.size) :
    ∃ g m, markProblematic r d = .ok ⟨⟩ { d with forest := g } ∧
      d.forest.Marked g [r] [] fun _ => m := by
  obtain ⟨g, m, hrun, hs⟩ :=
    Build.textElement_drafted (n := d.forest.markFor r) hf rfl (d.forest.asText r)
  have hshows : g.Shows [m] [d.forest.markShape r] := by
    obtain ⟨g', m', hrun', hmade⟩ := Build.textElement_made (d.forest.markFor r) (d.forest.asText r) hf
    obtain ⟨rfl, hg⟩ := EStateM.Result.ok.inj (hrun.symm.trans hrun')
    obtain rfl : g = g' := congrArg Document.forest hg
    exact hmade.shows
  have hmark : markProblematic r d = .ok ⟨⟩ { d with forest := g.replaceWith r [m] } := by
    have hnode : Build.node r d = .ok (d.forest.get r) d := rfl
    have htext : Build.asText r d = .ok (d.forest.asText r) d := rfl
    simp only [Forest.markFor] at hrun
    simp only [markProblematic, bind, EStateM.bind, hnode, htext, hrun]
    rfl
  refine ⟨_, m, hmark, ?_⟩
  cases hp : d.forest.parent? r with
  | none =>
    have hparent : g.parent? r = none := by
      rw [Forest.parent?, hs.extended.old r hr]
      exact hp
    have hsame : g.replaceWith r [m] = g := by rw [Forest.replaceWith, hparent]
    rw [hsame]
    exact .of_orphan hf hs hshows hp
  | some p => exact .of_child hf hs hshows hp

end MarkupLint
