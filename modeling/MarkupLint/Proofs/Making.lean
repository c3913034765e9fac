import MarkupLint.Proofs.Collecting
import MarkupLint.Proofs.Expansion

/-! # New nodes and where they are put

    Nodes that are made stand behind the old ones and have no parent
    (`Build.Made`).  Put in the place of a reference they are found there in
    the shape in which they were made (`Build.Made.put`), and the old nodes
    are as they were but for the reference and its parent. -/

namespace MarkupLint

variable {ts : List Tree}

namespace Forest

variable {f g h : Forest} {p r : NodeId} {is js : List NodeId}

theorem Extends.spliced (hfg : f.Extends g) : f.Spliced g [] :=
  ⟨hfg.size, fun j hj _ => by rw [hfg.old j hj], fun j hj _ => by rw [parent?, hfg.old j hj, parent?],
    fun j hj => .inl (by rw [parent?, hfg.old j hj, parent?]),
    fun j hj _ => by rw [children, hfg.old j hj, children]⟩

theorem Shows.extends (hshows : f.Shows is ts) (hf : f.WellFormed) (hfg : f.Extends g)
    (his : ∀ i ∈ is, i < f.size) : g.Shows is ts :=
  hshows.keep (fun j _ c hc => hf.inside j c hc) (agreeOn_of_get hfg.old) his

/-- Nodes that were made stand in the place of a node. -/
theorem InPlace.spliced (hplace : g.InPlace h p r js) (hfg : f.Extends g)
    (hnew : ∀ c ∈ js, f.size ≤ c) (hr : f.parent? r = some p) : f.Spliced h [r] := by
  have hfg' := hfg.spliced
  have hold : ∀ j < f.size, j ∉ js := fun j hj hmem => Nat.not_lt.mpr (hnew j hmem) hj
  refine ⟨hplace.size ▸ hfg.size, fun j hj _ => ?_, fun j hj hjr => ?_, fun j hj => ?_,
    fun j hj hparents => ?_⟩
  · rw [hplace.bare, hfg.old j hj]
  · rw [hplace.parent, if_neg (hold j hj), if_neg (by simpa using hjr)]
    exact hfg'.parent j hj List.not_mem_nil
  · rw [hplace.parent, if_neg (hold j hj)]
    split
    · exact .inr rfl
    · exact hfg'.orphan j hj
  · have hjp : j ≠ p := fun heq => hparents r (List.mem_singleton_self r) (heq ▸ hr)
    rw [hplace.children j hjp]
    exact hfg'.children j hj (List.forall_mem_nil _)

/-- What was made is not above an old node, and shows there what it showed
    before it was put there. -/
theorem InPlace.shows (hplace : g.InPlace h p r js) (hf : f.WellFormed) (hg : g.WellFormed)
    (hfg : f.Extends g) (hnew : ∀ c ∈ js, f.size ≤ c) (hp : p < f.size) (hshows : g.Shows js ts) :
    (∀ c ∈ js, ¬g.Above c p) ∧ h.Shows js ts := by
  have hnot : ∀ c ∈ js, ¬g.Above c p := fun c hc habove =>
    absurd (hfg.spliced.lt_size_of_above hf hp habove) (Nat.not_lt.mpr (hnew c hc))
  refine ⟨hnot, hshows.keep (hg.below_closed js) (fun j ⟨c, hc, hcj⟩ => ⟨hplace.bare j, ?_⟩)
    fun i hi => ⟨i, hi, .here⟩⟩
  exact hplace.children j fun heq => hnot c hc (heq ▸ hcj)

end Forest

namespace Build

/-- What is made of nodes that have no parent. -/
structure Made (f g : Forest) (is : List NodeId) (ts : List Tree) : Prop where
  extended : f.Extends g
  wellFormed : g.WellFormed
  nodup : is.Nodup
  new : ∀ i ∈ is, f.size ≤ i
  inside : ∀ i ∈ is, i < g.size ∧ g.parent? i = none
  shows : g.Shows is ts

theorem Made.nil {f : Forest} (hf : f.WellFormed) : Made f f [] [] :=
  ⟨⟨Nat.le_refl _, fun _ _ => rfl⟩, hf, List.nodup_nil, List.forall_mem_nil _, List.forall_mem_nil _,
    .nil⟩

theorem element_made {d : Document} {f : Forest} {kids : List NodeId} {ts : List Tree}
    (h : Made f d.forest kids ts) (n : Node) :
    ∃ g, element n kids d = .ok d.forest.size { d with forest := g } ∧
      Made f g [d.forest.size] [.node n.bare ts] := by
  let g := (d.forest.alloc n).2.append d.forest.size kids
  have halloc := Forest.get_alloc d.forest n
  have hpsize : d.forest.size < (d.forest.alloc n).2.size := by simp
  have hne : ∀ c ∈ kids, c ≠ d.forest.size := fun c hc => Nat.ne_of_lt (h.inside c hc).1
  have horphans : ∀ c ∈ kids, c < (d.forest.alloc n).2.size ∧
      (d.forest.alloc n).2.parent? c = none ∧ c ≠ d.forest.size := by
    refine fun c hc => ⟨?_, ?_, hne c hc⟩
    · rw [Forest.size_alloc]
      exact Nat.lt_succ_of_lt (h.inside c hc).1
    · rw [Forest.parent?, halloc, if_neg (hne c hc)]
      exact (h.inside c hc).2
  have hget : ∀ j, g.get j = _ := Forest.get_append_orphans hpsize h.nodup horphans
  have hsize : g.size = d.forest.size + 1 := by simp [g]
  have hroot : g.get d.forest.size = { n.bare with children := kids } := by
    rw [hget, if_pos rfl, halloc, if_pos rfl]
    rfl
  have hagree : ∀ j, j < d.forest.size → (g.get j).bare = (d.forest.get j).bare ∧
      g.children j = d.forest.children j := by
    intro j hj
    have hj' : j ≠ d.forest.size := Nat.ne_of_lt hj
    rw [Forest.children, hget, if_neg hj', halloc, if_neg hj']
    split <;> exact ⟨rfl, rfl⟩
  exact ⟨g, rfl, {
    extended := {
      size := by
        rw [hsize]
        exact Nat.le_succ_of_le h.extended.size
      old := fun j hj => by
        have hj' : j ≠ d.forest.size := Nat.ne_of_lt (Nat.lt_of_lt_of_le hj h.extended.size)
        rw [hget, if_neg hj', if_neg fun hmem => Nat.not_lt.mpr (h.new j hmem) hj, halloc,
          if_neg hj', h.extended.old j hj] }
    wellFormed := (h.wellFormed.alloc n).append
      ((d.forest.alloc_mayTake n fun c hc => (h.inside c hc).1).mayHold h.nodup)
    nodup := List.nodup_singleton _
    new := List.forall_mem_singleton.mpr h.extended.size
    inside := by
      refine List.forall_mem_singleton.mpr ⟨?_, ?_⟩
      · rw [hsize]
        exact Nat.lt_succ_self _
      · rw [Forest.parent?, hroot]
        rfl
    shows := by
      have hbare : (g.get d.forest.size).bare = n.bare := by
        rw [hroot]
        rfl
      rw [← hbare]
      refine .cons ?_ .nil
      rw [Forest.children, hroot]
      exact h.shows.keep (P := (· < d.forest.size)) (fun j _ c hc => h.wellFormed.inside j c hc)
        hagree fun i hi => (h.inside i hi).1 }⟩

theorem textElement_made (n : Node) (text : String) {d : Document} (hf : d.forest.WellFormed) :
    ∃ g i, textElement n text d = .ok i { d with forest := g } ∧
      Made d.forest g [i]
        [.node n.bare (if text = "" then [] else [.node { kind := .text, value := text } []])] := by
  by_cases htext : text = ""
  · obtain ⟨g, hrun, hmade⟩ := element_made (Made.nil hf) n
    refine ⟨g, _, ?_, by rwa [if_pos htext]⟩
    rw [textElement, if_pos htext]
    exact hrun
  · obtain ⟨g, hleaf, hmade⟩ := element_made (Made.nil hf) { kind := .text, value := text }
    obtain ⟨h, hrun, hmade⟩ := element_made (d := { d with forest := g }) hmade n
    refine ⟨h, _, ?_, by rwa [if_neg htext]⟩
    rw [textElement, if_neg htext]
    simp only [leaf, bind, EStateM.bind, hleaf, hrun]

/-- The shape of a message that quotes nothing. -/
def messageTree (level : Level) (text source : String) (line : Int) : Tree :=
  .node { kind := .systemMessage, level := level, type := level.name, source := source, line := line }
    (if text = "" then []
      else [.node { kind := .paragraph } [.node { kind := .text, value := text } []]])

theorem message_made (level : Level) (text : String) {o : Placement} (hquote : o.literal = none)
    {d : Document} (hf : d.forest.WellFormed) {source : String} {line : Int}
    (hplace : place o d = .ok (source, line) d) :
    ∃ g msg, message level text o d = .ok msg { d with forest := g } ∧
      Made d.forest g [msg] [messageTree level text source line] := by
  have hstatement : ∃ g ids, (if text = "" then [] else [text]).mapM
      (textElement { kind := .paragraph }) d = .ok ids { d with forest := g } ∧
      Made d.forest g ids (if text = "" then []
        else [.node { kind := .paragraph } [.node { kind := .text, value := text } []]]) := by
    by_cases htext : text = ""
    · rw [if_pos htext, if_pos htext]
      exact ⟨d.forest, [], rfl, .nil hf⟩
    · obtain ⟨g, i, hrun, hmade⟩ := textElement_made { kind := .paragraph } text hf
      rw [if_neg htext] at hmade
      rw [if_neg htext, if_neg htext]
      refine ⟨g, [i], ?_, hmade⟩
      rw [List.mapM_cons]
      simp only [bind, EStateM.bind, hrun]
      rfl
  obtain ⟨g, ids, hrun, hmade⟩ := hstatement
  obtain ⟨g', helement, hmade'⟩ := element_made (d := { d with forest := g }) hmade
    { kind := .systemMessage, level := level, type := level.name, source := source, line := line }
  have hnone : o.literal.toList.mapM (textElement { kind := .literalBlock }) d = .ok [] d := by
    rw [hquote]
    rfl
  refine ⟨g', _, ?_, hmade'⟩
  simp only [message, messageAt, bind, EStateM.bind, hplace, hnone, hrun, List.append_nil]
  exact helement

/-- Raising a message below the halt level makes its node, and the reporter
    is told of it. -/
theorem raise_made {level : Level} (text : String) {o : Placement} (hquote : o.literal = none)
    {d : Document} (hf : d.forest.WellFormed) {source : String} {line : Int}
    (hplace : place o d = .ok (source, line) d) (hhalt : ¬d.reporter.haltLevel ≤ level) :
    ∃ g r msg, raise level text o d = .ok msg { d with forest := g, reporter := r } ∧
      Made d.forest g [msg] [messageTree level text source line] ∧
      Reporter.Told [⟨level, text, source, line, none⟩] d.reporter r := by
  obtain ⟨g, msg, hmessage, hmade⟩ := message_made level text hquote hf hplace
  refine ⟨g, _, msg, ?_, hmade, .announce d.reporter _⟩
  rw [raise_eq]
  simp only [bind, EStateM.bind, hplace, hmessage, hquote]
  rw [announce_tells hhalt]
  rfl

/-- Raising a message at the halt level stops. -/
theorem raise_halts {level : Level} (text : String) {o : Placement} {d : Document} {source : String}
    {line : Int} (hplace : place o d = .ok (source, line) d) (hhalt : d.reporter.haltLevel ≤ level) :
    ∃ e, raise level text o d
      = .error (.halted (Notice.halt ⟨level, text, source, line, o.literal⟩)) e := by
  obtain ⟨g, msg, -, hraise⟩ := raise_run level text o d hplace
  exact ⟨_, hraise.trans (if_pos hhalt)⟩

/-- What was made is put in the place of a node. -/
theorem Made.put {f g : Forest} {js : List NodeId} {us : List Tree} (h : Made f g js us)
    (hf : f.WellFormed) {r p : NodeId} (hr : f.parent? r = some p) :
    f.Spliced (g.replaceWith r js) [r] ∧ (g.replaceWith r js).WellFormed ∧
      (∀ pre post, f.children p = pre ++ [r] ++ post →
        (g.replaceWith r js).children p = pre ++ js ++ post) ∧
      (g.replaceWith r js).Shows js us := by
  have hrsize : r < f.size := Forest.lt_size_of_parent? hr
  have hpsize : p < f.size := Forest.lt_size_of_mem_children ((hf.linked.mem_iff r p).mpr hr)
  have hr' : g.parent? r = some p := by rw [Forest.parent?, h.extended.old r hrsize]; exact hr
  have hplace := h.wellFormed.replaceWith_inPlace hr' h.inside
  obtain ⟨hnot, hshows⟩ := hplace.shows hf h.wellFormed h.extended h.new hpsize h.shows
  refine ⟨hplace.spliced h.extended h.new hr, ?_, fun pre post hsplit => ?_, hshows⟩
  · refine h.wellFormed.replaceWith h.nodup (fun c hc => (h.inside c hc).1) fun q hq => ?_
    obtain rfl := Option.some.inj (hr'.symm.trans hq)
    exact hnot
  · refine hplace.place pre post ?_
    rw [Forest.children, h.extended.old p hpsize]
    exact hsplit.trans (List.append_assoc _ _ _)

end Build

end MarkupLint
