import MarkupLint.Proofs.Sectioning

/-! # Tables of contents

    A table of contents has an item for each section, which holds a link with
    the text of its title and, if it is deep enough, a list for the sections
    below it (`Forest.Mirrors`).  While it is made, sections that are linked
    to are noted to be referred to; otherwise nothing changes that was there
    (`Forest.Noted`), so a section that is listed later is read as it was in
    the beginning (`Pass.contentsList_mirrors`). -/

namespace MarkupLint

variable {f e g h : Forest} {root i j s scope : NodeId} {is ids js js' : List NodeId} {ts : List Tree}
  {depth : Int} {steps : Nat}

namespace Forest

/-! ## Nodes that are referred to -/

/-- Some nodes are noted to be referred to. -/
def noteAll (f : Forest) (js : List NodeId) : Forest :=
  js.foldl (fun f j => f.modify j ({ · with referenced := true })) f

theorem noteAll_append (f : Forest) (js js' : List NodeId) :
    f.noteAll (js ++ js') = (f.noteAll js).noteAll js' := List.foldl_append

@[simp] theorem size_noteAll (f : Forest) (js : List NodeId) : (f.noteAll js).size = f.size := by
  induction js generalizing f with
  | nil => rfl
  | cons j js ih => exact (ih _).trans (size_modify _ _ _)

@[simp] theorem children_noteAll (f : Forest) (js : List NodeId) (i : NodeId) :
    (f.noteAll js).children i = f.children i := by
  induction js generalizing f with
  | nil => rfl
  | cons j js ih =>
    exact (ih _).trans (children_modify (g := ({ · with referenced := true })) f j i fun _ => rfl)

@[simp] theorem parent?_noteAll (f : Forest) (js : List NodeId) (i : NodeId) :
    (f.noteAll js).parent? i = f.parent? i := by
  induction js generalizing f with
  | nil => rfl
  | cons j js ih =>
    exact (ih _).trans (parent?_modify (g := ({ · with referenced := true })) f j i fun _ => rfl)

/-- Noting nodes changes nothing in them but that they are referred to. -/
theorem bare_noteAll (f : Forest) (js : List NodeId) (i : NodeId) :
    ∃ now, ((f.noteAll js).get i).bare = (f.get i).bare.noted now := by
  induction js generalizing f with
  | nil => exact ⟨false, (Node.noted_false _).symm⟩
  | cons j js ih =>
    obtain ⟨now, hnow⟩ := ih (f.modify j ({ · with referenced := true }))
    rw [get_modify] at hnow
    split at hnow
    · exact ⟨true, hnow.trans (by simp [Node.noted, Node.bare])⟩
    · exact ⟨now, hnow⟩

/-- The others stay as they are. -/
theorem get_noteAll_of_not_mem (h : i ∉ js) : (f.noteAll js).get i = f.get i := by
  induction js generalizing f with
  | nil => rfl
  | cons j js ih =>
    obtain ⟨hne, hjs⟩ := List.ne_and_not_mem_of_not_mem_cons h
    exact (ih hjs).trans (get_modify_of_ne f hne _)

/-- Noting nodes moves none. -/
theorem WellFormed.noteAll (hf : f.WellFormed) (js : List NodeId) : (f.noteAll js).WellFormed :=
  hf.congr (parent?_noteAll f js) (children_noteAll f js)

/-- Nodes noted in a forest may be noted in a later one. -/
theorem Extends.noteAll (h : f.Extends g) (hjs : ∀ j ∈ js, j < f.size) :
    (f.noteAll js).Extends (g.noteAll js) := by
  induction js generalizing f g with
  | nil => exact h
  | cons j js ih =>
    obtain ⟨hj, hjs⟩ := List.forall_mem_cons.mp hjs
    refine ih ⟨?_, fun i hi => ?_⟩ ?_
    · rw [size_modify, size_modify]
      exact h.size
    · rw [size_modify] at hi
      have hi' := Nat.lt_of_lt_of_le hi h.size
      rw [get_modify, get_modify, h.old i hi]
      simp only [hi, hi', and_true]
    · intro i hi
      rw [size_modify]
      exact hjs i hi

end Forest

/-- Noting old nodes does not change what was made. -/
theorem Build.Made.noteAll (hmade : Made f g is ts) (hf : f.WellFormed)
    (hjs : ∀ j ∈ js, j < f.size) : Made (f.noteAll js) (g.noteAll js) is ts := by
  have hextends := hmade.extended.noteAll hjs
  refine ⟨hextends, hmade.wellFormed.noteAll js, hmade.nodup, ?_, ?_, ?_⟩
  · simpa using hmade.new
  · simpa using hmade.inside
  -- What was made is not among the nodes that are noted.
  · refine hmade.shows.keep (P := (f.size ≤ ·)) (fun j hj c hc => ?_) (fun j hj => ⟨?_, by simp⟩)
      hmade.new
    · refine hf.new_children hmade.wellFormed (fun i hi => ?_) hj hc
      rw [Forest.parent?, hmade.extended.old i hi, Forest.parent?]
    · rw [Forest.get_noteAll_of_not_mem fun hmem => Nat.not_lt.mpr hj (hjs j hmem)]

namespace Forest

/-- From `f` to `e`, some nodes were noted to be referred to and new ones were
    made; nothing else changed that was there. -/
structure Noted (f e : Forest) (js : List NodeId) : Prop where
  inside : ∀ j ∈ js, j < f.size
  extended : (f.noteAll js).Extends e
  wellFormed : e.WellFormed

namespace Noted

/-- Nothing is noted to begin with. -/
theorem refl (hf : f.WellFormed) : f.Noted f [] where
  inside := List.forall_mem_nil _
  extended := ⟨Nat.le_refl _, fun _ _ => rfl⟩
  wellFormed := hf

theorem size (hn : f.Noted e js) : f.size ≤ e.size := size_noteAll f js ▸ hn.extended.size

/-- The children of old nodes are theirs still. -/
theorem children (hn : f.Noted e js) (hi : i < f.size) : e.children i = f.children i := by
  rw [Forest.children, hn.extended.old i (by simpa using hi), ← Forest.children, children_noteAll]

/-- So is what they say. -/
theorem bare (hn : f.Noted e js) (hi : i < f.size) :
    ∃ now, (e.get i).bare = (f.get i).bare.noted now := by
  obtain ⟨now, hnow⟩ := bare_noteAll f js i
  exact ⟨now, by rw [hn.extended.old i (by simpa using hi), hnow]⟩

/-- What is made then, where more nodes are noted. -/
theorem made (hn : f.Noted e js) (hjs : ∀ j ∈ js', j < f.size)
    (hmade : Build.Made (e.noteAll js') g is ts) : f.Noted g (js ++ js') where
  inside := List.forall_mem_append.mpr ⟨hn.inside, hjs⟩
  extended := by
    rw [noteAll_append]
    exact (hn.extended.noteAll (by simpa using hjs)).trans hmade.extended
  wellFormed := hmade.wellFormed

theorem kind (hn : f.Noted e js) (hi : i < f.size) : (e.get i).kind = (f.get i).kind := by
  obtain ⟨now, hnow⟩ := hn.bare hi
  have hkind := congrArg Node.kind hnow
  exact hkind

theorem names (hn : f.Noted e js) (hi : i < f.size) : (e.get i).names = (f.get i).names := by
  obtain ⟨now, hnow⟩ := hn.bare hi
  have hnames := congrArg Node.names hnow
  exact hnames

theorem value (hn : f.Noted e js) (hi : i < f.size) : (e.get i).value = (f.get i).value := by
  obtain ⟨now, hnow⟩ := hn.bare hi
  have hvalue := congrArg Node.value hnow
  exact hvalue

/-- So is their text. -/
theorem asText (hn : f.Noted e js) (hf : f.WellFormed) (hi : i < f.size) :
    e.asText i = f.asText i :=
  hf.asText_congr (P := (· < f.size)) hn.size (fun j _ c hc => hf.inside j c hc)
    (fun _ hj => ⟨hn.kind hj, hn.value hj, hn.children hj⟩) hi

/-- And the sections below them. -/
theorem sections (hn : f.Noted e js) (hf : f.WellFormed) (hi : i < f.size) :
    e.sections i = f.sections i := by
  rw [Forest.sections, hn.children hi]
  exact List.filter_congr fun c hc => by rw [hn.kind (hf.inside i c hc)]

end Noted

/-! ## Lists of links -/

/-- The sections that are listed below a node, as deep as there is still to go. -/
def listed (f : Forest) (depth : Int) (i : NodeId) : List NodeId :=
  if depth ≤ 0 then [] else f.sections i

/-- A link to what has some names. -/
def linkLabel : List String → Node
  | [] => { kind := .reference }
  | name :: _ => ({ kind := .reference } : Node).setAttr "refid" (Pass.identifier name)

/-- A link to a section: it holds the text of its title. -/
def linkTree (f : Forest) (s : NodeId) : Tree :=
  .node (linkLabel (f.get s).names)
    (if f.asText (f.titleOf s) = "" then []
      else [.node { kind := .text, value := f.asText (f.titleOf s) } []])

/-- A list of some items, if there are any. -/
def listTree (items : List Tree) : List Tree :=
  if items.isEmpty then [] else [.node { kind := .bulletList } items]

/-- Side by side, the items of a table of contents for some sections. -/
inductive Mirrors (f : Forest) : Int → List NodeId → List Tree → Prop
  | nil {depth : Int} : Mirrors f depth [] []
  | cons {depth : Int} {s : NodeId} {rest : List NodeId} {below items : List Tree}
      (sub : Mirrors f (depth - 1) (f.listed (depth - 1) s) below)
      (beside : Mirrors f depth rest items) :
      Mirrors f depth (s :: rest)
        (.node { kind := .listItem } (.node { kind := .paragraph } [f.linkTree s] :: listTree below)
          :: items)

/-- Nothing is listed where there is nothing to list or no depth left. -/
theorem listed_eq_nil : f.listed depth i = [] ↔ depth ≤ 0 ∨ f.sections i = [] := by
  rw [listed]
  split <;> simp_all

/-- Sections are mirrored by as many items. -/
theorem Mirrors.eq_nil_iff (h : f.Mirrors depth is ts) : ts = [] ↔ is = [] := by
  cases h <;> simp

end Forest

namespace Pass

variable {d : Document}

/-- A link to a section is made. -/
theorem contentsLink_made (hf : f.WellFormed) (hn : f.Noted d.forest js) (hs : s < f.size)
    (htitle : f.titleOf s < f.size) :
    ∃ js' g i, contentsLink s d = .ok i { d with forest := g } ∧ (∀ j ∈ js', j < f.size) ∧
      Build.Made (d.forest.noteAll js') g [i] [f.linkTree s] := by
  have hnode : Build.node s d = .ok (d.forest.get s) d := rfl
  have htext : Build.asText ((d.forest.get s).children.headD s) d
      = .ok (f.asText (f.titleOf s)) d := by
    rw [← hn.asText hf htitle, Forest.titleOf, ← hn.children hs]
    rfl
  rw [contentsLink, Contract.bind_run, hnode]
  dsimp only
  rw [Contract.bind_run, htext]
  dsimp only
  rw [hn.names hs, Forest.linkTree]
  cases (f.get s).names with
  | nil =>
    obtain ⟨g, i, hrun, hmade⟩ := Build.textElement_made { kind := .reference }
      (f.asText (f.titleOf s)) hn.wellFormed
    exact ⟨[], g, i, hrun, List.forall_mem_nil _, hmade⟩
  | cons name names =>
    have hnote : Build.update s ({ · with referenced := true }) d
        = .ok ⟨⟩ { d with forest := d.forest.noteAll [s] } := rfl
    obtain ⟨g, i, hrun, hmade⟩ := Build.textElement_made
      (({ kind := .reference } : Node).setAttr "refid" (identifier name)) (f.asText (f.titleOf s))
      (d := { d with forest := d.forest.noteAll [s] }) (hn.wellFormed.noteAll [s])
    refine ⟨[s], g, i, ?_, List.forall_mem_singleton.mpr hs, hmade⟩
    dsimp only
    rw [Contract.bind_run, hnote]
    exact hrun

/-- The item for a section. -/
def contentsItem (steps : Nat) (depth : Int) (i : NodeId) : Build NodeId := do
  let link ← contentsLink i
  let item ← Build.element { kind := .listItem } [← Build.element { kind := .paragraph } [link]]
  if let some sub ← contentsList steps i (depth - 1) then Build.append item [sub]
  return item

/-- One level of a table of contents. -/
theorem contentsList_succ : contentsList (steps + 1) scope depth = (do
    if depth ≤ 0 then return none
    let items ← (← sectionsOf scope).mapM (contentsItem steps depth)
    if items.isEmpty then return none
    return some (← Build.element { kind := .bulletList } items)) := rfl

/-- What is made of the sections below a node: a list that mirrors them. -/
def Lists (f : Forest) (steps : Nat) (scope : NodeId) (depth : Int) : Prop :=
  ∀ (d : Document) (js : List NodeId), f.Noted d.forest js →
    ∃ js' g list items, contentsList steps scope depth d = .ok list { d with forest := g } ∧
      (∀ j ∈ js', j < f.size) ∧ f.Mirrors depth (f.listed depth scope) items ∧
      Build.Made (d.forest.noteAll js') g list.toList (Forest.listTree items)

/-- The item for a section is made, with the list for what is below it. -/
theorem contentsItem_made (hf : f.WellFormed) (hn : f.Noted d.forest js) (hs : s < f.size)
    (htitle : f.titleOf s < f.size) (hbelow : Lists f steps s (depth - 1)) :
    ∃ js' g i items, contentsItem steps depth s d = .ok i { d with forest := g } ∧
      (∀ j ∈ js', j < f.size) ∧ f.Mirrors (depth - 1) (f.listed (depth - 1) s) items ∧
      Build.Made (d.forest.noteAll js') g [i] [.node { kind := .listItem }
        (.node { kind := .paragraph } [f.linkTree s] :: Forest.listTree items)] := by
  obtain ⟨js₁, g₁, link, hlink, hjs₁, hmade₁⟩ := contentsLink_made hf hn hs htitle
  obtain ⟨g₂, hparagraph, hmade₂⟩ := Build.element_made (d := { d with forest := g₁ }) hmade₁
    { kind := .paragraph }
  obtain ⟨g₃, hitem, hmade₃⟩ := Build.element_made (d := { d with forest := g₂ }) hmade₂
    { kind := .listItem }
  -- The list for what is below is made when the item is there, and is then hung into it.
  have hn₃ := hn.made hjs₁ hmade₃
  obtain ⟨js₂, g₄, list, items, hlist, hjs₂, hmirrors, hmade₄⟩ := hbelow { d with forest := g₃ } _ hn₃
  generalize hi : g₂.size = i at hitem hmade₃
  have hold : ∀ j ∈ js₂, j < (d.forest.noteAll js₁).size := fun j hj => by
    rw [Forest.size_noteAll]
    exact Nat.lt_of_lt_of_le (hjs₂ j hj) hn.size
  have hitems := hmade₃.noteAll (hn.wellFormed.noteAll js₁) hold
  rw [← Forest.noteAll_append] at hitems
  rw [contentsItem, Contract.bind_run, hlink]
  dsimp only
  rw [Contract.bind_run, hparagraph]
  dsimp only
  rw [Contract.bind_run, hitem]
  dsimp only
  rw [Contract.bind_run, hlist]
  dsimp only
  cases list with
  | none =>
    have hnone := hitems.append hmade₄
    have hnil : Forest.listTree items = [] := by
      cases hlast : Forest.listTree items with
      | nil => rfl
      | cons t ts =>
        have hshows := hmade₄.shows
        rw [hlast] at hshows
        cases hshows
    rw [hnil, Option.toList_none, List.append_nil, List.append_nil] at hnone
    refine ⟨js₁ ++ js₂, g₄, i, items, rfl, List.forall_mem_append.mpr ⟨hjs₁, hjs₂⟩, hmirrors, ?_⟩
    rw [hnil]
    exact hnone
  | some sub =>
    have hwell := hmade₃.wellFormed.noteAll js₂
    have hsize : i < (g₃.noteAll js₂).size := by
      rw [Forest.size_noteAll]
      exact (hmade₃.inside i List.mem_cons_self).1
    exact ⟨js₁ ++ js₂, g₄.append i [sub], i, items, rfl, List.forall_mem_append.mpr ⟨hjs₁, hjs₂⟩,
      hmirrors, hitems.within (hmade₄.hung hwell hsize)⟩

/-- The items for some sections are made, one after the other. -/
theorem contentsItems_made (hf : f.WellFormed) (hn : f.Noted d.forest js)
    (hbelow : ∀ s ∈ is, s < f.size ∧ f.titleOf s < f.size ∧ Lists f steps s (depth - 1)) :
    ∃ js' g ids items, is.mapM (contentsItem steps depth) d = .ok ids { d with forest := g } ∧
      (∀ j ∈ js', j < f.size) ∧ f.Mirrors depth is items ∧
      Build.Made (d.forest.noteAll js') g ids items := by
  induction is generalizing d js with
  | nil => exact ⟨[], d.forest, [], [], rfl, List.forall_mem_nil _, .nil, .nil hn.wellFormed⟩
  | cons s is ih =>
    obtain ⟨⟨hs, htitle, hfirst⟩, hrest⟩ := List.forall_mem_cons.mp hbelow
    obtain ⟨js₁, g₁, i, below, hrun, hjs₁, hmirrors, hmade⟩ :=
      contentsItem_made hf hn hs htitle hfirst
    -- The first item stays as it is while the others are made.
    have hn₁ := hn.made hjs₁ hmade
    obtain ⟨js₂, g₂, ids, items, hruns, hjs₂, hbeside, hmades⟩ :=
      ih (d := { d with forest := g₁ }) hn₁ hrest
    have hold : ∀ j ∈ js₂, j < (d.forest.noteAll js₁).size := fun j hj => by
      rw [Forest.size_noteAll]
      exact Nat.lt_of_lt_of_le (hjs₂ j hj) hn.size
    have hall := (hmade.noteAll (hn.wellFormed.noteAll js₁) hold).append hmades
    rw [← Forest.noteAll_append] at hall
    refine ⟨js₁ ++ js₂, g₂, i :: ids, _, ?_, List.forall_mem_append.mpr ⟨hjs₁, hjs₂⟩,
      .cons hmirrors hbeside, hall⟩
    rw [List.mapM_cons, Contract.bind_run, hrun]
    dsimp only
    rw [Contract.bind_run, hruns]
    rfl

/-- **A table of contents mirrors the sections.** -/
theorem contentsList_mirrors (hf : f.WellFormed) (ht : f.Titled root) (hscope : f.Above root scope)
    (hsize : scope < f.size) (hwithin : f.Within steps scope) : Lists f steps scope depth := by
  induction steps generalizing scope depth with
  | zero => exact hwithin.elim
  | succ steps ih =>
    intro d js hn
    rw [contentsList_succ, Forest.listed]
    by_cases hdepth : depth ≤ 0
    · rw [if_pos hdepth, if_pos hdepth]
      exact ⟨[], d.forest, none, [], rfl, List.forall_mem_nil _, .nil, .nil hn.wellFormed⟩
    rw [if_neg hdepth, if_neg hdepth, Contract.bind_run,
      sectionsOf_run hf ht hscope (hn.sections hf hsize) fun c hkind =>
        hn.children (Forest.lt_size_of_kind (by decide) hkind)]
    dsimp only
    have hbelow : ∀ s ∈ f.sections scope,
        s < f.size ∧ f.titleOf s < f.size ∧ Lists f steps s (depth - 1) := fun s hs => by
      obtain ⟨hchild, hkind⟩ := Forest.mem_sections.mp hs
      have hroot := hscope.trans (.up (hf.only s scope hchild) .here)
      have htitle := (ht.title hroot (hf.ne_of_child hscope hchild) hkind).1
      exact ⟨hf.inside scope s hchild, hf.inside s _ htitle,
        ih hroot (hf.inside scope s hchild) (hwithin s hchild)⟩
    obtain ⟨js', g, ids, items, hrun, hjs', hmirrors, hmade⟩ := contentsItems_made hf hn hbelow
    rw [Contract.bind_run, hrun]
    dsimp only
    -- There is no list without items.
    cases ids with
    | nil =>
      obtain rfl : items = [] := by
        cases hmade.shows
        rfl
      exact ⟨js', g, none, [], rfl, hjs', hmirrors, hmade⟩
    | cons i ids =>
      obtain ⟨h, hlist, hmade'⟩ := Build.element_made (d := { d with forest := g }) hmade
        { kind := .bulletList }
      refine ⟨js', h, some g.size, items, ?_, hjs', hmirrors, ?_⟩
      · rw [if_neg (by simp), Contract.bind_run, hlist]
        rfl
      · have hitems : items.isEmpty = false := by
          cases hmade.shows
          rfl
        rw [Forest.listTree, hitems]
        exact hmade'

/-- A list of links is there if sections are, and is new. -/
theorem contentsList_run (hf : d.forest.WellFormed) (ht : d.forest.Titled root)
    (hscope : d.forest.Above root scope) (hsize : scope < d.forest.size) (depth : Int) :
    ∃ js g list items,
      contentsList (d.forest.size + 1) scope depth d = .ok list { d with forest := g } ∧
      (list = none ↔ depth ≤ 0 ∨ d.forest.sections scope = []) ∧
      d.forest.Mirrors depth (d.forest.listed depth scope) items ∧ d.forest.Noted g js ∧
      ∀ l, list = some l → d.forest.size ≤ l ∧ g.parent? l = none ∧
        g.Shows [l] [.node { kind := .bulletList } items] := by
  have hlists : Lists d.forest (d.forest.size + 1) scope depth :=
    contentsList_mirrors hf ht hscope hsize (hf.within scope)
  obtain ⟨js, g, list, items, hrun, hjs, hmirrors, hmade⟩ := hlists d [] (.refl hf)
  have hshows := hmade.shows
  refine ⟨js, g, list, items, hrun, ?_, hmirrors, (Forest.Noted.refl hf).made hjs hmade, ?_⟩
  · rw [← Forest.listed_eq_nil, ← hmirrors.eq_nil_iff]
    cases list with
    | none =>
      cases items with
      | nil => simp
      | cons t ts => cases hshows
    | some l =>
      cases items with
      | nil => cases hshows
      | cons t ts => simp
  · rintro l rfl
    have hmem : l ∈ (some l).toList := List.mem_singleton_self l
    refine ⟨by simpa using hmade.new l hmem, (hmade.inside l hmem).2, ?_⟩
    cases items with
    | nil => cases hshows
    | cons t ts => exact hshows

/-! ## The outline -/

/-- **Numbers and tables of contents follow the sections.**  One way leads to
    each section from the root.  The titles of those that a way of at most
    `depth` steps leads to get the numbers on the way in front, and but for
    the node that asks for them nothing else changes.  A table of contents
    mirrors the sections below a node, as deep as `depth`, with the text of
    their titles; there is none if there is nothing to list. -/
theorem outline_follows_sections (hf : d.forest.WellFormed) (hroot : d.root < d.forest.size)
    (ht : d.forest.Titled d.root) (hn : d.forest.Nested d.root) :
    (∀ s, d.forest.Above d.root s → s ≠ d.root → (d.forest.get s).kind = .division →
      ∃! path, path ≠ [] ∧ d.forest.sectionAt? d.root path = some s) ∧
    (∀ pending options depth start, (d.forest.get pending).kind = .pending →
      intOption options "depth" anyDepth d = .ok depth d → intOption options "start" 1 d = .ok start d →
      -Text.wordLimit ≤ start ∧ start + (d.forest.sections d.root).length ≤ Text.wordLimit →
      (∀ s, (d.forest.sections s).length < Text.wordLimit) →
      ∃ g, numberSections pending options d = .ok ⟨⟩ { d with forest := g } ∧
        d.forest.Numbered g d.root pending ⟨textOption options "prefix", textOption options "suffix"⟩
          depth start) ∧
    (∀ scope depth, d.forest.Above d.root scope → scope < d.forest.size →
      ∃ js g list items,
        contentsList (d.forest.size + 1) scope depth d = .ok list { d with forest := g } ∧
        (list = none ↔ depth ≤ 0 ∨ d.forest.sections scope = []) ∧
        d.forest.Mirrors depth (d.forest.listed depth scope) items ∧ d.forest.Noted g js ∧
        ∀ l, list = some l → d.forest.size ≤ l ∧ g.parent? l = none ∧
          g.Shows [l] [.node { kind := .bulletList } items]) := by
  refine ⟨fun s hs hne hkind => hn.sectionAt? hf hs hne hkind, ?_, ?_⟩
  · intro pending options depth start hpending hdepth hstart hfits hlengths
    exact numberSections_numbered hf hroot ht hpending hdepth hstart hfits hlengths
  · intro scope depth hscope hsize
    exact contentsList_run hf ht hscope hsize depth

/-- A section in the only section of a document. -/
theorem outline_follows_sections_birds :
    ∃ (d : Document) (g h : Forest) (l : NodeId), d.forest.WellFormed ∧
      d.forest.children 0 = [7, 6] ∧ d.forest.children 6 = [2, 5] ∧ d.forest.children 5 = [4] ∧
      numberSections 7 [("start", .int 3), ("suffix", .text ".")] d
        = .ok ⟨⟩ { d with forest := g } ∧
      g.children 0 = [6] ∧ g.asText 2 = "3.\u00a0\u00a0\u00a0Birds" ∧
      g.asText 4 = "3.1.\u00a0\u00a0\u00a0Owls" ∧
      contentsList (d.forest.size + 1) 0 2 d = .ok (some l) { d with forest := h } ∧
      h.Shows [l] [.node { kind := .bulletList } [.node { kind := .listItem } [
        .node { kind := .paragraph } [.node { kind := .reference }
          [.node { kind := .text, value := "Birds" } []]],
        .node { kind := .bulletList } [.node { kind := .listItem } [
          .node { kind := .paragraph } [.node (Forest.linkLabel ["owls"])
            [.node { kind := .text, value := "Owls" } []]]]]]]] := by
  have h₁ := Forest.Edited.empty.element { kind := .document } [] nofun
  have h₂ := h₁.element { kind := .text, value := "Birds" } [] nofun
  have h₃ := h₂.element { kind := .title } [1] (by decide)
  have h₄ := h₃.element { kind := .text, value := "Owls" } [] nofun
  have h₅ := h₄.element { kind := .title } [3] (by decide)
  have h₆ := h₅.element { kind := .division, names := ["owls"] } [4] (by decide)
  have h₇ := h₆.element { kind := .division } [2, 5] (by decide)
  have h₈ := h₇.element { kind := .pending } [] nofun
  have h₉ := h₈.step (.append 0 (.own [7, 6])) ⟨by decide, by decide,
    Forest.not_above_of_orphan rfl (by decide)⟩
  generalize hforest : Forest.Edit.run _ _ = f at h₉
  let d : Document := { Document.new "" {} with forest := f }
  have hf : d.forest.WellFormed := h₉.wellFormed_of
  have htree : f.size = 8 ∧ f.children 0 = [7, 6] ∧ f.children 6 = [2, 5] ∧ f.children 5 = [4] ∧
      (f.get 2).kind = .title ∧ (f.get 4).kind = .title ∧ (f.get 7).kind = .pending ∧
      (∀ s < 8, (f.get s).kind = .division → s = 5 ∨ s = 6) ∧
      f.parent? 6 = some 0 ∧ f.parent? 5 = some 6 ∧ (f.get 6).kind = .division ∧
      f.sections 0 = [6] := by
    subst hforest
    decide +kernel
  obtain ⟨hsize, hroot, houter, hinner, htitle, htitle', hpending, hkinds, hup, hup', hdivision,
    hsections⟩ := htree
  have hdivisions : ∀ s, (f.get s).kind = .division → s = 5 ∨ s = 6 := fun s hkind =>
    hkinds s (hsize ▸ Forest.lt_size_of_kind (by decide) hkind) hkind
  have ht : d.forest.Titled 0 := fun s _ _ hkind => by
    rcases hdivisions s hkind with rfl | rfl
    · exact ⟨4, [], hinner, htitle'⟩
    · exact ⟨2, [5], houter, htitle⟩
  have hn : d.forest.Nested 0 := fun s _ _ hkind => by
    rcases hdivisions s hkind with rfl | rfl
    · exact ⟨6, hup', .inr hdivision⟩
    · exact ⟨0, hup, .inl rfl⟩
  have hlengths : ∀ s, (d.forest.sections s).length ≤ 8 := fun s => hsize ▸ hf.length_sections_le s
  have hnumbered : (stateAfter (numberSections 7 [("start", .int 3), ("suffix", .text ".")])
        d).forest.children 0 = [6] ∧
      (stateAfter (numberSections 7 [("start", .int 3), ("suffix", .text ".")])
        d).forest.asText 2 = "3.\u00a0\u00a0\u00a0Birds" ∧
      (stateAfter (numberSections 7 [("start", .int 3), ("suffix", .text ".")])
        d).forest.asText 4 = "3.1.\u00a0\u00a0\u00a0Owls" := by
    subst hforest
    decide +kernel
  have hroot' : d.root < d.forest.size := Nat.lt_of_lt_of_eq (by decide : 0 < 8) hsize.symm
  obtain ⟨-, hnumbers, hcontents⟩ := outline_follows_sections hf hroot' ht hn
  obtain ⟨g, hrun, -⟩ := hnumbers 7 [("start", .int 3), ("suffix", .text ".")] anyDepth 3 hpending
    rfl rfl (by rw [show d.forest.sections d.root = [6] from hsections]; decide +kernel)
    fun s => Nat.lt_of_le_of_lt (hlengths s) (by decide +kernel)
  obtain ⟨-, h, list, items, hlist, hnone, hmirrors, -, hnew⟩ := hcontents 0 2 .here hroot'
  have hsome : ∃ l, list = some l := Option.ne_none_iff_exists'.mp fun hlist => by
    rcases hnone.mp hlist with h | h
    · cases h
    · rw [hsections] at h
      cases h
  obtain ⟨l, rfl⟩ := hsome
  have hlisted : f.listed 2 0 = [6] ∧ f.listed (2 - 1) 6 = [5] ∧ f.listed (2 - 1 - 1) 5 = [] := by
    subst hforest
    decide +kernel
  have hlinks : f.linkTree 6 = .node { kind := .reference }
        [.node { kind := .text, value := "Birds" } []] ∧
      f.linkTree 5 = .node (Forest.linkLabel ["owls"])
        [.node { kind := .text, value := "Owls" } []] := by
    subst hforest
    exact ⟨rfl, rfl⟩
  obtain ⟨-, -, hshows⟩ := hnew l rfl
  rw [hlisted.1] at hmirrors
  obtain _ | ⟨hsub, hbeside⟩ := hmirrors
  cases hbeside
  rw [hlisted.2.1] at hsub
  obtain _ | ⟨hsub', hbeside⟩ := hsub
  cases hbeside
  rw [hlisted.2.2] at hsub'
  cases hsub'
  rw [hlinks.1, hlinks.2] at hshows
  rw [stateAfter_of_ok hrun] at hnumbered
  exact ⟨d, g, h, l, hf, hroot, houter, hinner, hrun, hnumbered.1, hnumbered.2.1, hnumbered.2.2,
    hlist, hshows⟩

/-- The node that asks for numbers stands before the only section, and is not
    left where it was: more than titles changes. -/
theorem numberSections_drops_pending :
    ∃ (d : Document) (g : Forest), d.forest.WellFormed ∧ d.forest.Titled d.root ∧
      d.forest.Nested d.root ∧ (d.forest.get 4).kind = .pending ∧
      numberSections 4 [] d = .ok ⟨⟩ { d with forest := g } ∧
      ¬∀ j < d.forest.size, (∀ s, (d.forest.get s).kind = .division → j ≠ d.forest.titleOf s) →
        g.children j = d.forest.children j := by
  have h₁ := Forest.Edited.empty.element { kind := .document } [] nofun
  have h₂ := h₁.element { kind := .text, value := "Birds" } [] nofun
  have h₃ := h₂.element { kind := .title } [1] (by decide)
  have h₄ := h₃.element { kind := .division } [2] (by decide)
  have h₅ := h₄.element { kind := .pending } [] nofun
  have h₆ := h₅.step (.append 0 (.own [4, 3])) ⟨by decide, by decide,
    Forest.not_above_of_orphan rfl (by decide)⟩
  generalize hforest : Forest.Edit.run _ _ = f at h₆
  let d : Document := { Document.new "" {} with forest := f }
  have hf : d.forest.WellFormed := h₆.wellFormed_of
  have htree : f.size = 5 ∧ f.children 0 = [4, 3] ∧ f.children 3 = [2] ∧
      (f.get 2).kind = .title ∧ (f.get 4).kind = .pending ∧ f.parent? 3 = some 0 ∧
      (∀ s < 5, (f.get s).kind = .division → s = 3) ∧
      (stateAfter (numberSections 4 []) d).forest.children 0 = [3] := by
    subst hforest
    decide +kernel
  obtain ⟨hsize, hroot, hsection, htitle, hpending, hup, hkinds, hafter⟩ := htree
  have hdivision : ∀ s, (f.get s).kind = .division → s = 3 := fun s hkind =>
    hkinds s (hsize ▸ Forest.lt_size_of_kind (by decide) hkind) hkind
  have hroot' : d.root < d.forest.size := Nat.lt_of_lt_of_eq (by decide : 0 < 5) hsize.symm
  have ht : d.forest.Titled d.root := fun s _ _ hkind => by
    obtain rfl := hdivision s hkind
    exact ⟨2, [], hsection, htitle⟩
  have hn : d.forest.Nested d.root := fun s _ _ hkind => by
    obtain rfl := hdivision s hkind
    exact ⟨0, hup, .inl rfl⟩
  have hlengths : ∀ s, (d.forest.sections s).length ≤ 5 := fun s => hsize ▸ hf.length_sections_le s
  have hfits : -(Text.wordLimit : Int) ≤ 1 ∧
      1 + ((d.forest.sections d.root).length : Int) ≤ Text.wordLimit := by
    have := hlengths d.root
    simp only [Text.wordLimit]
    omega
  have hdepth : intOption [] "depth" anyDepth d = .ok anyDepth d := rfl
  obtain ⟨g, hrun, -⟩ := numberSections_numbered hf hroot' ht hpending hdepth rfl hfits
    fun s => Nat.lt_of_le_of_lt (hlengths s) (by decide +kernel)
  rw [stateAfter_of_ok hrun] at hafter
  refine ⟨d, g, hf, ht, hn, hpending, hrun, fun hsame => ?_⟩
  have hchanged := hsame 0 hroot' fun s hkind => by
    obtain rfl := hdivision s hkind
    rw [Forest.titleOf, hsection]
    decide
  rw [hafter, hroot] at hchanged
  cases hchanged

end Pass

end MarkupLint
