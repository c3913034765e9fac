import Mathlib.Data.List.Forall2
import Mathlib.Data.List.Nodup
import MarkupLint.Document.Names
import MarkupLint.Proofs.Building

/-! # What a message says

    The record of a message is read off the node that was just made for it.
    That node holds what was raised and nothing else, so the record is that
    of a `Notice` that is known beforehand.  Raising a message is therefore
    the same as making its node and announcing its notice, whatever else the
    tree holds. -/

namespace MarkupLint

/-! ## New nodes and their texts -/

namespace Forest

/-- Hanging up nodes that have no parent changes nothing but them and the
    node they are put under. -/
theorem get_append_orphans {f : Forest} {p : NodeId} {kids : List NodeId}
    (hp : p < f.size) (hnodup : kids.Nodup)
    (hkids : ∀ c ∈ kids, c < f.size ∧ f.parent? c = none ∧ c ≠ p) (j : NodeId) :
    (f.append p kids).get j =
      if j = p then { f.get p with children := (f.get p).children ++ kids }
      else if j ∈ kids then { f.get j with parent := some p }
      else f.get j := by
  unfold append
  induction kids generalizing f with
  | nil =>
    by_cases hj : j = p
    · simp [hj]
    · simp [hj]
  | cons c kids ih =>
    obtain ⟨hc, horphan, hcp⟩ := hkids c List.mem_cons_self
    obtain ⟨hnew, hnodup⟩ := List.nodup_cons.mp hnodup
    -- Nothing has to be taken out of another parent.
    have hadopt : f.adopt p c = f.modify c fun m => { m with parent := some p } := by
      simp only [adopt, detach, horphan]
    generalize hg : f.hang p c = g
    have hget : ∀ i, g.get i =
        if i = p then { f.get p with children := (f.get p).children ++ [c] }
        else if i = c then { f.get c with parent := some p } else f.get i := by
      intro i
      rw [← hg, hang, hadopt, get_modify, get_modify, size_modify]
      by_cases hip : i = p
      · subst hip
        simp [hp, hcp]
      · by_cases hic : i = c
        · subst hic
          simp [hip, Ne.symm hip, hc]
        · simp [Ne.symm hip, Ne.symm hic, hip, hic]
    have hsize : g.size = f.size := by rw [← hg, hang, hadopt, size_modify, size_modify]
    rw [List.foldl_cons, hg, ih (by rwa [hsize]) hnodup ?_]
    · by_cases hjp : j = p
      · subst hjp
        simp [hget]
      · by_cases hjc : j = c
        · subst hjc
          simp [hget, hjp, hnew]
        · simp [hget, hjp, hjc]
    · intro i hi
      obtain ⟨hisize, hiorphan, hip⟩ := hkids i (List.mem_cons_of_mem _ hi)
      have hic : i ≠ c := fun h => hnew (h ▸ hi)
      refine ⟨by rwa [hsize], ?_, hip⟩
      rw [parent?, hget, if_neg hip, if_neg hic]
      exact hiorphan

@[simp] theorem size_adopt (f : Forest) (p i : NodeId) : (f.adopt p i).size = f.size := by
  unfold adopt detach
  split <;> simp

@[simp] theorem size_hang (f : Forest) (p i : NodeId) : (f.hang p i).size = f.size := by
  rw [hang, size_modify, size_adopt]

@[simp] theorem size_append (f : Forest) (p : NodeId) (ns : List NodeId) :
    (f.append p ns).size = f.size := by
  unfold append
  induction ns generalizing f with
  | nil => rfl
  | cons i ns ih =>
    rw [List.foldl_cons, ih]
    simp

/-- A node that holds one leaf with a text, or nothing for the empty text. -/
structure Spells (f : Forest) (i : NodeId) (text : String) : Prop where
  inside : i < f.size
  element : (f.get i).kind ≠ .text ∧ (f.get i).kind.isTextual = true
  holds : text = "" ∧ f.children i = [] ∨
    ∃ l, l < f.size ∧ f.children i = [l] ∧ (f.get l).kind = .text ∧ (f.get l).value = text

/-- What a node spells is the text of the node. -/
theorem Spells.textWithin {f : Forest} {i : NodeId} {text : String} (h : f.Spells i text)
    (depth : Nat) : f.textWithin (depth + 2) i = text := by
  obtain ⟨-, ⟨hkind, htextual⟩, ⟨rfl, hkids⟩ | ⟨l, -, hkids, hlkind, rfl⟩⟩ := h
  · simp only [children] at hkids
    simp [Forest.textWithin, hkind, htextual, hkids]
  · simp only [children] at hkids
    simp [Forest.textWithin, hkind, htextual, hkids, hlkind]

/-- What is spelled stays so while the nodes keep kinds, values and
    children. -/
theorem Spells.keep {f g : Forest} {i : NodeId} {text : String} (h : f.Spells i text)
    (hsize : f.size ≤ g.size)
    (hsame : ∀ j < f.size, (g.get j).kind = (f.get j).kind ∧ (g.get j).value = (f.get j).value ∧
      g.children j = f.children j) : g.Spells i text := by
  obtain ⟨hi, helement, hholds⟩ := h
  refine ⟨Nat.lt_of_lt_of_le hi hsize, by rwa [(hsame i hi).1], ?_⟩
  rcases hholds with ⟨rfl, hkids⟩ | ⟨l, hl, hkids, hlkind, hlvalue⟩
  · exact .inl ⟨rfl, by rw [(hsame i hi).2.2, hkids]⟩
  · refine .inr ⟨l, Nat.lt_of_lt_of_le hl hsize, by rw [(hsame i hi).2.2, hkids], ?_, ?_⟩
    · rw [(hsame l hl).1, hlkind]
    · rw [(hsame l hl).2.1, hlvalue]

/-- Parts that spell texts and have no parent yet. -/
def Parts (f : Forest) (kids : List NodeId) (texts : List String) : Prop :=
  List.Forall₂ (fun i text => f.Spells i text ∧ f.parent? i = none) kids texts

theorem Parts.mem {f : Forest} {kids : List NodeId} {texts : List String} (h : f.Parts kids texts) :
    ∀ c ∈ kids, c < f.size ∧ f.parent? c = none := by
  induction h with
  | nil => simp
  | cons hhead _ ih => exact List.forall_mem_cons.mpr ⟨⟨hhead.1.inside, hhead.2⟩, ih⟩

/-- A new node over some parts holds them, and they still spell their
    texts. -/
theorem Parts.join {f : Forest} {kids : List NodeId} {texts : List String} (h : f.Parts kids texts)
    (hnodup : kids.Nodup) (n : Node) (hparent : n.parent = none) :
    (((f.alloc n).2).append f.size kids).get f.size = { n with children := kids } ∧
      List.Forall₂ (fun i text => (((f.alloc n).2).append f.size kids).Spells i text) kids
        texts := by
  have halloc := get_alloc f n
  have hinside : f.size < (f.alloc n).2.size := by simp
  have horphans : ∀ c ∈ kids, c < (f.alloc n).2.size ∧ (f.alloc n).2.parent? c = none ∧
      c ≠ f.size := by
    intro c hc
    obtain ⟨hlt, horphan⟩ := h.mem c hc
    have hne : c ≠ f.size := Nat.ne_of_lt hlt
    refine ⟨?_, ?_, hne⟩
    · rw [size_alloc]
      exact Nat.lt_succ_of_lt hlt
    rw [parent?, halloc, if_neg hne]
    exact horphan
  have hget := get_append_orphans hinside hnodup horphans
  refine ⟨?_, h.imp fun i text hi => hi.1.keep (by simp) fun j hj => ?_⟩
  · rw [hget, if_pos rfl, halloc, if_pos rfl, ← hparent]
    rfl
  · have hne : j ≠ f.size := Nat.ne_of_lt hj
    simp only [children, hget, halloc, if_neg hne]
    split <;> exact ⟨rfl, rfl, rfl⟩

/-- The text of a node over parts that spell texts. -/
theorem asText_of_parts {f : Forest} {i : NodeId} {kids : List NodeId} {texts : List String}
    (hkind : (f.get i).kind = .systemMessage) (hkids : f.children i = kids)
    (h : List.Forall₂ (fun c text => f.Spells c text) kids texts)
    (hlater : ∀ c ∈ kids, c < i) (hi : i < f.size) :
    f.asText i = "\n\n".intercalate texts ∧
      ((f.children i)[0]?.map f.asText).getD "" = texts.headD "" := by
  have htext : ∀ {kids texts}, List.Forall₂ (fun c text => f.Spells c text) kids texts →
      (∀ c ∈ kids, c < i) → kids.map (f.textWithin f.size) = texts := by
    intro kids texts hall hlater
    induction hall with
    | nil => rfl
    | cons hhead _ ih =>
      obtain ⟨hc, hrest⟩ := List.forall_mem_cons.mp hlater
      rw [List.map_cons, ih hrest]
      have hsize : 2 ≤ f.size := Nat.lt_of_le_of_lt (Nat.one_le_of_lt hc) hi
      obtain ⟨depth, hdepth⟩ : ∃ depth, f.size = depth + 2 := ⟨f.size - 2, by omega⟩
      rw [hdepth, hhead.textWithin]
  constructor
  · have hnot : Kind.systemMessage.isTextual = false := rfl
    simp only [children] at hkids
    simp [asText, textWithin, hkind, hkids, hnot, htext h hlater]
  · rw [hkids]
    cases h with
    | nil => rfl
    | cons hhead _ =>
      have hsize : 1 ≤ f.size := Nat.one_le_of_lt hi
      obtain ⟨depth, hdepth⟩ : ∃ depth, f.size + 1 = depth + 2 := ⟨f.size - 1, by omega⟩
      simp [asText, hdepth, hhead.textWithin]

end Forest

namespace Build

/-- A node with no parent that spells a text, and the old nodes as they
    were. -/
structure Spelled (f g : Forest) (i : NodeId) (text : String) : Prop where
  spells : g.Spells i text
  orphan : g.parent? i = none
  new : f.size ≤ i
  size : f.size ≤ g.size
  old : ∀ j < f.size, g.get j = f.get j

theorem textElement_spec {k : Kind} (hk : k ≠ .text ∧ k.isTextual = true) (text : String)
    (d : Document) : ∃ g i, textElement { kind := k } text d = .ok i { d with forest := g } ∧
      Spelled d.forest g i text := by
  by_cases htext : text = ""
  · subst htext
    refine ⟨(d.forest.alloc { kind := k }).2, d.forest.size, rfl, ?_⟩
    have hget := Forest.get_alloc d.forest { kind := k }
    exact {
      spells := {
        inside := by simp
        element := by
          rw [hget, if_pos rfl]
          exact hk
        holds := .inl ⟨rfl, by rw [Forest.children, hget, if_pos rfl]⟩ }
      orphan := by rw [Forest.parent?, hget, if_pos rfl]
      new := Nat.le_refl _
      size := by simp
      old := fun j hj => by rw [hget, if_neg (Nat.ne_of_lt hj)] }
  · let leafNode : Node := { kind := .text, value := text }
    let f := (d.forest.alloc leafNode).2
    have hfsize : f.size = d.forest.size + 1 := by simp [f]
    have hne : d.forest.size ≠ f.size := by omega
    let g := ((f.alloc { kind := k }).2).append f.size [d.forest.size]
    have hrun : textElement { kind := k } text d = .ok f.size { d with forest := g } := by
      simp only [textElement, htext, if_false]
      rfl
    have hf := Forest.get_alloc d.forest leafNode
    have hf' := Forest.get_alloc f { kind := k }
    have hleaf : ((f.alloc { kind := k }).2).get d.forest.size = leafNode := by
      rw [hf', if_neg hne, hf, if_pos rfl]
    have hinside : f.size < (f.alloc { kind := k }).2.size := by simp
    have horphan : ∀ c ∈ [d.forest.size], c < (f.alloc { kind := k }).2.size ∧
        (f.alloc { kind := k }).2.parent? c = none ∧ c ≠ f.size := by
      intro c hc
      obtain rfl := List.mem_singleton.mp hc
      refine ⟨by simp; omega, ?_, hne⟩
      rw [Forest.parent?, hleaf]
    have hget := Forest.get_append_orphans hinside (List.nodup_singleton _) horphan
    have hgsize : g.size = d.forest.size + 2 := by simp [g, hfsize]
    have hgi : g.get f.size = { kind := k, children := [d.forest.size] } := by
      rw [hget, if_pos rfl, hf', if_pos rfl]
      rfl
    have hgl : g.get d.forest.size = { leafNode with parent := some f.size } := by
      rw [hget, if_neg hne, if_pos (List.mem_singleton_self _), hleaf]
    have hinside' : f.size < g.size ∧ d.forest.size < g.size := by omega
    exact ⟨g, f.size, hrun, {
      spells := {
        inside := hinside'.1
        element := by
          rw [hgi]
          exact hk
        holds := .inr ⟨d.forest.size, hinside'.2, by rw [Forest.children, hgi], by rw [hgl],
          by rw [hgl]⟩ }
      orphan := by rw [Forest.parent?, hgi]
      new := by omega
      size := by omega
      old := fun j hj => by
        have hleafne : j ≠ d.forest.size := Nat.ne_of_lt hj
        have hne' : j ≠ f.size := Nat.ne_of_lt (Nat.lt_of_lt_of_le hj (by omega))
        have hmem : j ∉ [d.forest.size] := fun h => hleafne (List.mem_singleton.mp h)
        rw [hget, if_neg hne', if_neg hmem, hf', if_neg hne', hf, if_neg hleafne] }⟩

/-- More nodes behind it leave the node as it is. -/
theorem Spelled.extend {f g h : Forest} {i : NodeId} {text : String} (hs : Spelled f g i text)
    (hsize : g.size ≤ h.size) (hold : ∀ j < g.size, h.get j = g.get j) : Spelled f h i text where
  spells := hs.spells.keep hsize fun j hj => by
    rw [Forest.children, hold j hj]
    exact ⟨rfl, rfl, rfl⟩
  orphan := by
    rw [Forest.parent?, hold i hs.spells.inside]
    exact hs.orphan
  new := hs.new
  size := Nat.le_trans hs.size hsize
  old j hj := (hold j (Nat.lt_of_lt_of_le hj hs.size)).trans (hs.old j hj)

/-- The node is new as well to a forest that had fewer nodes. -/
theorem Spelled.after {f g h : Forest} {i : NodeId} {text : String} (hs : Spelled g h i text)
    (hsize : f.size ≤ g.size) (hold : ∀ j < f.size, g.get j = f.get j) : Spelled f h i text where
  spells := hs.spells
  orphan := hs.orphan
  new := Nat.le_trans hsize hs.new
  size := Nat.le_trans hsize hs.size
  old j hj := (hs.old j (Nat.lt_of_lt_of_le hj hsize)).trans (hold j hj)

/-- Several such nodes, one after the other. -/
theorem textElements_spec {k : Kind} (hk : k ≠ .text ∧ k.isTextual = true) (texts : List String)
    (d : Document) : ∃ g ids, texts.mapM (textElement { kind := k }) d
        = .ok ids { d with forest := g } ∧
      List.Forall₂ (fun i text => Spelled d.forest g i text) ids texts ∧ ids.Nodup ∧
      d.forest.size ≤ g.size ∧ ∀ j < d.forest.size, g.get j = d.forest.get j := by
  induction texts generalizing d with
  | nil => exact ⟨d.forest, [], rfl, .nil, List.nodup_nil, Nat.le_refl _, fun _ _ => rfl⟩
  | cons text texts ih =>
    obtain ⟨g, i, hrun, hspelled⟩ := textElement_spec hk text d
    obtain ⟨h, ids, hruns, hall, hnodup, hsize, hold⟩ := ih { d with forest := g }
    have hi : i < g.size := hspelled.spells.inside
    -- The later ones are at later places.
    have hlater : ∀ {ids texts}, List.Forall₂ (fun i text => Spelled g h i text) ids texts →
        ∀ j ∈ ids, g.size ≤ j := by
      intro ids texts hall
      induction hall with
      | nil => simp
      | cons hhead _ ihtail => exact List.forall_mem_cons.mpr ⟨hhead.new, ihtail⟩
    refine ⟨h, i :: ids, ?_, .cons (hspelled.extend hsize hold)
      (hall.imp fun j t hj => hj.after hspelled.size hspelled.old),
      List.nodup_cons.mpr ⟨fun hmem => absurd hi (Nat.not_lt.mpr (hlater hall i hmem)), hnodup⟩,
      Nat.le_trans hspelled.size hsize, (hspelled.extend hsize hold).old⟩
    rw [List.mapM_cons]
    simp only [bind, EStateM.bind, hrun, hruns, pure, EStateM.pure]

end Build

/-! ## What the node of a message says -/

/-- The node is that of a message with a notice. -/
structure Document.Says (d : Document) (msg : NodeId) (x : Notice) : Prop where
  level : (d.node msg).level = x.level
  record : d.record msg = x.record
  format : d.formatMessage msg = x.format
  halt : (⟨(d.node msg).level, (d.node msg).type, (d.node msg).source, (d.node msg).line,
    d.forest.asText msg⟩ : Halt) = x.halt

/-- What a node says is read off the tree. -/
theorem Document.Says.keep {d e : Document} {msg : NodeId} {x : Notice} (h : d.Says msg x)
    (hforest : e.forest = d.forest) : e.Says msg x := by
  have hnode : e.node = d.node := by
    unfold Document.node
    rw [hforest]
  have hchild : e.childText = d.childText := by
    unfold Document.childText
    rw [hnode, hforest]
  obtain ⟨hlevel, hrecord, hformat, hhalt⟩ := h
  refine ⟨?_, ?_, ?_, ?_⟩
  · rw [hnode, hlevel]
  · simpa only [Document.record, hnode, hchild, hforest] using hrecord
  · simpa only [Document.formatMessage, hnode, hforest] using hformat
  · simpa only [hnode, hforest] using hhalt

namespace Build

/-- The node of a message that quotes markup, if any. -/
def message (level : Level) (text : String) (o : Placement) : Build NodeId := do
  let spot ← place o
  let quote ← o.literal.toList.mapM (textElement { kind := .literalBlock })
  messageAt level text spot quote

/-- Raising a message is making its node and telling of it. -/
theorem raise_eq_message (level : Level) (text : String) (o : Placement) :
    raise level text o = (do
      let msg ← message level text o
      writeMessage msg
      haltOn msg
      handOn msg
      return msg) := by
  simp only [raise, raiseAt, message, bind_assoc]

/-- The node of a message says what was raised. -/
theorem message_spec (level : Level) (text : String) (o : Placement) (d : Document)
    {source : String} {line : Int} (hplace : place o d = .ok (source, line) d) :
    ∃ g msg, message level text o d = .ok msg { d with forest := g } ∧
      Document.Says { d with forest := g } msg ⟨level, text, source, line, o.literal⟩ := by
  obtain ⟨g₁, quote, hquote, hquoted, hqnodup, hqsize, -⟩ :=
    textElements_spec (k := .literalBlock) (by decide) o.literal.toList d
  obtain ⟨g₂, statement, hstatement, hstated, hsnodup, hssize, hsold⟩ :=
    textElements_spec (k := .paragraph) (by decide) (if text = "" then [] else [text])
      { d with forest := g₁ }
  let blank : Node :=
    { kind := .systemMessage, level := level, type := level.name, source := source, line := line }
  let kids := statement ++ quote
  let h := ((g₂.alloc blank).2).append g₂.size kids
  have hrun : message level text o d = .ok g₂.size { d with forest := h } := by
    simp only [message, messageAt, bind, EStateM.bind, hplace, hquote, hstatement]
    rfl
  let x : Notice := ⟨level, text, source, line, o.literal⟩
  have hparts : g₂.Parts kids x.parts := by
    refine List.rel_append (hstated.imp fun i t hi => ⟨hi.spells, hi.orphan⟩)
      (hquoted.imp fun i t hi => ?_)
    have hlt : i < g₁.size := hi.spells.inside
    refine ⟨hi.spells.keep hssize fun j hj => ?_, ?_⟩
    · rw [Forest.children, hsold j hj]
      exact ⟨rfl, rfl, rfl⟩
    · rw [Forest.parent?, hsold i hlt]
      exact hi.orphan
  have hnodup : kids.Nodup := by
    refine List.nodup_append.mpr ⟨hsnodup, hqnodup, ?_⟩
    -- The markup is quoted before the problem is stated.
    rintro i hi j hj rfl
    have hbefore : ∀ {ids texts}, List.Forall₂ (fun i text => Spelled d.forest g₁ i text) ids texts →
        ∀ j ∈ ids, j < g₁.size := by
      intro ids texts hall
      induction hall with
      | nil => simp
      | cons hhead _ ih => exact List.forall_mem_cons.mpr ⟨hhead.spells.inside, ih⟩
    have hafter : ∀ {ids texts}, List.Forall₂ (fun i text => Spelled g₁ g₂ i text) ids texts →
        ∀ j ∈ ids, g₁.size ≤ j := by
      intro ids texts hall
      induction hall with
      | nil => simp
      | cons hhead _ ih => exact List.forall_mem_cons.mpr ⟨hhead.new, ih⟩
    exact absurd (hbefore hquoted i hj) (Nat.not_lt.mpr (hafter hstated i hi))
  obtain ⟨hnode, hspells⟩ := hparts.join hnodup blank rfl
  obtain ⟨hfull, hfirst⟩ := Forest.asText_of_parts (f := h) (i := g₂.size) (by rw [hnode])
    (by rw [Forest.children, hnode]) hspells (fun c hc => (hparts.mem c hc).1) (by simp [h])
  refine ⟨h, g₂.size, hrun, ?_⟩
  have hchild : Document.childText { d with forest := h } g₂.size 0 = x.parts.headD "" := by
    have hzero : ¬(0 : Int) < 0 := by decide
    rw [← hfirst]
    simp only [Document.childText, Document.node, Forest.children, if_neg hzero, Int.toNat_zero]
    cases (h.get g₂.size).children[0]? <;> rfl
  have hnode' : Document.node { d with forest := h } g₂.size = { blank with children := kids } :=
    hnode
  constructor
  · rw [hnode']
  · simp only [Document.record, hnode', hchild, hfull]
    rfl
  · simp only [Document.formatMessage, hnode', hfull]
    rfl
  · simp only [hnode', hfull]
    rfl

/-- Writes a notice to the stream, stops if it is of the halt level or
    above, and hands its record to the collectors. -/
def announce (x : Notice) : Build Unit := do
  modify fun d => { d with reporter := d.reporter.log x }
  if (← get).reporter.haltLevel ≤ x.level then throw (.halted x.halt)
  modify fun d => { d with reporter := d.reporter.tell x }

/-- Telling of the node of a message is announcing its notice. -/
theorem tell_eq {d : Document} {msg : NodeId} {x : Notice} (h : d.Says msg x) :
    (do writeMessage msg; haltOn msg; handOn msg) d = announce x d := by
  let d' : Document := { d with reporter := d.reporter.log x }
  have hsays : d'.Says msg x := h.keep rfl
  have hwrite : writeMessage msg d = .ok () d' := by
    simp only [d', Reporter.log, ← h.level, ← h.format]
    show EStateM.Result.ok () (if _ then _ else _) = EStateM.Result.ok () _
    split <;> simp_all
  have hget : (get : Build Document) d' = .ok d' d' := rfl
  have hhalt : haltOn msg d' =
      if d'.reporter.haltLevel ≤ x.level then .error (.halted x.halt) d' else .ok () d' := by
    rw [← hsays.level, ← hsays.halt]
    simp only [haltOn, bind, EStateM.bind, hget]
    split <;> rfl
  have hhand : handOn msg d' = .ok () { d' with reporter := d'.reporter.tell x } := by
    simp only [Reporter.tell, ← hsays.level, ← hsays.record]
    show EStateM.Result.ok () (if _ then _ else _) = EStateM.Result.ok () _
    split <;> simp_all
  have hmodify : (modify fun d : Document => { d with reporter := d.reporter.log x } : Build Unit) d
      = .ok () d' := rfl
  simp only [announce, bind, EStateM.bind, hwrite, hmodify, hhalt, hget]
  by_cases hlevel : d'.reporter.haltLevel ≤ x.level
  · rw [if_pos hlevel, if_pos hlevel]
    rfl
  · rw [if_neg hlevel, if_neg hlevel]
    exact hhand

/-- Where a message is placed is read off the document. -/
theorem place_eq (o : Placement) (d : Document) : ∃ spot, place o d = .ok spot d := ⟨_, rfl⟩

/-- Raising a message makes its node and announces its notice. -/
theorem raise_eq (level : Level) (text : String) (o : Placement) :
    raise level text o = (do
      let spot ← place o
      let msg ← message level text o
      announce ⟨level, text, spot.1, spot.2, o.literal⟩
      return msg) := by
  funext d
  obtain ⟨spot, hplace⟩ := place_eq o d
  obtain ⟨g, msg, hrun, hsays⟩ := message_spec level text o d hplace
  have htell := tell_eq hsays
  have hraise : raise level text o = (do
      let msg ← message level text o
      (do writeMessage msg; haltOn msg; handOn msg)
      return msg) := by
    simp only [raise_eq_message, bind_assoc]
  rw [hraise]
  simp only [bind, EStateM.bind, hplace, hrun] at htell ⊢
  rw [htell]

/-! ## Raising messages aside -/

open Discipline

variable {v w : World} {L : License} {B : Bounds} {n : Nat}

theorem contract_place (o : Placement) :
    Contract (building v w L B) Anything (place o) (place o) := by
  rintro d _ ⟨forest, halt, hlike, hsooner⟩ _
  refine ⟨⟨B.refl _, .refl d⟩, trivial, .agree ⟨?_, .intro forest halt hlike hsooner, [],
    .quiet rfl rfl⟩⟩
  cases o.base with
  | none => rfl
  | some b => simp only [hlike.position]

theorem announce_eq (x : Notice) (d : Document) :
    announce x d =
      if d.reporter.haltLevel ≤ x.level then
        .error (.halted x.halt) { d with reporter := d.reporter.log x }
      else .ok () { d with reporter := (d.reporter.log x).tell x } := by
  have hget : ∀ d : Document, (get : Build Document) d = .ok d d := fun _ => rfl
  have hmodify : ∀ (g : Document → Document) (d : Document),
      (modify g : Build Unit) d = .ok () (g d) := fun _ _ => rfl
  simp only [announce, bind, EStateM.bind, hmodify, hget, (Reporter.Told.log _ _).haltLevel]
  split
  · rfl
  · exact hmodify _ _

theorem announce_halts {x : Notice} {d : Document} (h : d.reporter.haltLevel ≤ x.level) :
    announce x d = .error (.halted x.halt) { d with reporter := d.reporter.log x } := by
  rw [announce_eq, if_pos h]

theorem announce_tells {x : Notice} {d : Document} (h : ¬d.reporter.haltLevel ≤ x.level) :
    announce x d = .ok () { d with reporter := (d.reporter.log x).tell x } := by
  rw [announce_eq, if_neg h]

/-- Raising a message makes a node that says it, and stops at the halt
    level. -/
theorem raise_run (level : Level) (text : String) (o : Placement) (d : Document)
    {source : String} {line : Int} (hplace : place o d = .ok (source, line) d) :
    let x : Notice := ⟨level, text, source, line, o.literal⟩
    ∃ g msg, Document.Says { d with forest := g } msg x ∧ raise level text o d =
      if d.reporter.haltLevel ≤ level then
        .error (.halted x.halt) { d with forest := g, reporter := d.reporter.log x }
      else .ok msg { d with forest := g, reporter := (d.reporter.log x).tell x } := by
  intro x
  obtain ⟨g, msg, hmessage, hsays⟩ := message_spec level text o d hplace
  refine ⟨g, msg, hsays, ?_⟩
  rw [raise_eq]
  by_cases hlevel : d.reporter.haltLevel ≤ level
  · simp only [Contract.bind_run, hplace, hmessage, announce_eq, if_pos hlevel]
    rfl
  · simp only [Contract.bind_run, hplace, hmessage, announce_eq, if_neg hlevel]
    rfl

/-- At a notice that only the second document halts at, the runs part. -/
theorem contract_announce (x : Notice) (hlevel : L.levels x.level) :
    Contract (building v w L B) Anything (announce x) (announce x) := by
  rintro d _ ⟨forest, halt, hlike, hsooner⟩ _
  have hlog := Reporter.Told.log d.reporter x
  have htell := Reporter.Told.announce d.reporter x
  have halike : ∀ r : Reporter, r.haltLevel = d.reporter.haltLevel →
      ({ d with reporter := r } : Document).Alike v w L
        { d with forest := forest, reporter := { r with haltLevel := halt } } :=
    fun r hr => .intro forest halt hlike (by rwa [hr])
  let other : Reporter := { d.reporter with haltLevel := halt }
  by_cases hfirst : d.reporter.haltLevel ≤ x.level
  · -- Both halt: the second one does so no later than the first.
    have hsecond : halt ≤ x.level := by
      rcases hsooner with rfl | ⟨-, hreached⟩
      · exact hfirst
      · exact hreached _ hlevel hfirst
    have hsame : other.log x = { d.reporter.log x with haltLevel := halt } :=
      d.reporter.log_halt x (iff_of_true hsecond hfirst)
    have hother : Reporter.Told [] other { d.reporter.log x with haltLevel := halt } :=
      hsame ▸ .log other x
    refine ⟨?_, ?_, ?_⟩
    · rw [stateAfter_of_error (announce_halts hfirst)]
      exact ⟨B.refl _, .of_told d ⟨[], hlog⟩⟩
    · rw [announce_halts hfirst]
      exact .inr ⟨x.halt, rfl, hlog.haltLevel ▸ hfirst, hlevel⟩
    · rw [announce_halts hfirst, announce_halts hsecond]
      refine .agree ⟨rfl, ?_⟩
      show Together (building v w L B) d { d with forest := forest, reporter := other }
        { d with reporter := d.reporter.log x }
        { d with forest := forest, reporter := other.log x }
      rw [hsame]
      exact ⟨halike _ hlog.haltLevel, [], List.forall_mem_nil _, hlog, hother⟩
  · have htold : announce x d = _ := announce_tells hfirst
    refine ⟨?_, ?_, ?_⟩
    · rw [stateAfter_of_ok htold]
      exact ⟨B.refl _, .of_told d ⟨[x], htell⟩⟩
    · rw [htold]
      exact trivial
    rw [htold]
    by_cases hsecond : halt ≤ x.level
    · -- Only the second one halts, which is where the runs part.
      rw [announce_halts hsecond]
      have hparts : L.parts := by
        rcases hsooner with rfl | ⟨hparts, -⟩
        · exact absurd hsecond hfirst
        · exact hparts
      exact .parted rfl ⟨hparts, [], x, [], List.forall_mem_nil _, hlevel, hsecond, rfl, htell,
        Reporter.Told.log _ x⟩
    · -- Neither halts, and both tell of the notice.
      have hlogged : other.log x = { d.reporter.log x with haltLevel := halt } :=
        d.reporter.log_halt x (iff_of_false hsecond hfirst)
      have hsame : (other.log x).tell x = { (d.reporter.log x).tell x with haltLevel := halt } :=
        (congrArg (·.tell x) hlogged).trans (Reporter.tell_halt _ x halt)
      have hother : Reporter.Told [x] other { (d.reporter.log x).tell x with haltLevel := halt } :=
        hsame ▸ .announce other x
      rw [announce_tells hsecond]
      refine .agree ⟨rfl, ?_⟩
      show Together (building v w L B) d { d with forest := forest, reporter := other }
        { d with reporter := (d.reporter.log x).tell x }
        { d with forest := forest, reporter := (other.log x).tell x }
      rw [hsame]
      exact ⟨halike _ htell.haltLevel, [x], List.forall_mem_singleton.mpr ⟨hlevel, hsecond⟩, htell,
        hother⟩

theorem aside_message (level : Level) (text : String) (o : Placement) :
    Contract (aside v w L n) (n ≤ ·) (message level text o) (message level text o) := by
  refine .bind (contract_place o) fun _ _ => ?_
  refine .bind (.mapM fun t _ => aside_textElement _ t) fun quote hquote => ?_
  refine .bind (.mapM fun t _ => aside_textElement _ t) fun statement hstatement => ?_
  exact aside_element (.refl _) (.append hstatement hquote)

/-- Messages are raised alike, whatever the leaves of the tree hold. -/
theorem aside_raise (level : Level) (text : String) (o : Placement)
    (hlevel : L.levels level) :
    Contract (aside v w L n) (n ≤ ·) (raise level text o) (raise level text o) := by
  rw [raise_eq]
  refine .bind (contract_place o) fun _ _ => ?_
  refine .bind (aside_message level text o) fun msg hmsg => ?_
  exact .bind (contract_announce _ hlevel) fun _ _ => .pure hmsg

/-! ## Names -/

theorem aside_noteName (i : NodeId) (explicit : Bool) (name : String) :
    Contract (aside v w L n) (AllNew n) (noteName i explicit name) (noteName i explicit name) := by
  refine .get ?_
  rintro d _ ⟨forest, halt, hlike, hsooner⟩ _
  have huri : ∀ old, Document.sameUri
      { d with forest := forest, reporter := { d.reporter with haltLevel := halt } } old i
        = d.sameUri old i := by
    rintro (_ | old)
    · rfl
    · show (decide ((forest.get i).refuri ≠ "") && (forest.get old).refuri == (forest.get i).refuri)
        = _
      rw [(hlike.node i).refuri, (hlike.node old).refuri]
      rfl
  simp only [huri]
  refine .bind (contract_modify _ (fun _ _ _ => rfl) (fun _ => rfl) fun d => .same rfl rfl rfl rfl rfl rfl)
    fun _ _ => ?_
  split
  · exact .bind (aside_raise _ _ _ (L.severity _)) fun msg hmsg => .pure (.one hmsg)
  · exact .pure (.nil n)

theorem aside_noteTarget (i : NodeId) (explicit : Bool) :
    Contract (aside v w L n) (AllNew n) (noteTarget i explicit) (noteTarget i explicit) := by
  refine contract_node fun a b hab => ?_
  rw [hab.names]
  refine .bind (.mapM fun name _ => aside_noteName i explicit name) fun complaints h => ?_
  exact .pure (.flatten h)

theorem aside_noteSubstitution (name : String) (definition : NodeId) :
    Contract (aside v w L n) (AllNew n) (noteSubstitution name definition)
      (noteSubstitution name definition) := by
  refine .get ?_
  rintro d _ ⟨forest, halt, hlike, hsooner⟩ _
  dsimp only
  refine .ite (fun _ => .bind (aside_raise _ _ _ L.error) fun msg hmsg => ?_) fun _ => ?_
  · refine .bind (P := AllNew n) (.pure (.one hmsg)) fun complaints h => ?_
    exact .bind (contract_modify _ (fun _ _ _ => rfl) (fun _ => rfl) fun d => .same rfl rfl rfl rfl rfl rfl)
      fun _ _ => .pure h
  · refine .bind (P := AllNew n) (.pure (.nil n)) fun complaints h => ?_
    exact .bind (contract_modify _ (fun _ _ _ => rfl) (fun _ => rfl) fun d => .same rfl rfl rfl rfl rfl rfl)
      fun _ _ => .pure h

theorem aside_pending (a : Node) (kind : String) (priority : Int)
    (options : List (String × Data.Value))
    (hrequest : ∀ target, L.requests ⟨kind, priority, target, options⟩) :
    Contract (aside v w L n) (n ≤ ·) (pending a kind priority options)
      (pending a kind priority options) := by
  refine .bind (aside_element (.refl _) (.nil n)) fun i hi => ?_
  refine .bind (contract_modify _ (fun _ _ _ => rfl) (fun _ => rfl) fun d => ?_) fun _ _ => .pure hi
  refine ⟨rfl, rfl, rfl, ⟨[], .refl _⟩, fun _ h => h, fun r hr => ?_⟩
  rcases List.mem_append.mp hr with hr | hr
  · exact .inl hr
  · rw [List.mem_singleton.mp hr]
    exact .inr (hrequest i)

end Build

end MarkupLint
