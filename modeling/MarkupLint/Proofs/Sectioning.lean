import MarkupLint.Pass.Outline
import MarkupLint.Proofs.Hanging
import MarkupLint.Proofs.Promotion
import MarkupLint.Proofs.Rearranging

/-! # Numbers of sections

    A section is found by going from the root to a section of it, then to a
    section of that one, and so on (`Forest.sectionAt?`).  Which titles get
    which labels is written down before any of them is made
    (`Forest.labels`): the numbers on the way to a section, the first one
    counted from some start on (`Forest.mem_labels`).  Putting the labels
    into the titles one after the other changes nothing that is read later
    on, so in the end each title has its label (`Pass.number_labelled`). -/

namespace MarkupLint

/-- The text of a label for some numbers. -/
def Pass.Numbering.label (x : Pass.Numbering) (numbers : List String) : String :=
  x.before ++ ".".intercalate numbers ++ x.after ++ "\u00a0\u00a0\u00a0"

namespace Forest

variable {f e g : Forest} {root i j c s t n : NodeId} {path : List Nat} {numbers : List String}
  {x : Pass.Numbering} {steps k : Nat} {depth start : Int} {text : String}
  {done : List (NodeId × String)}

/-! ## Sections -/

/-- The sections among the children of a node. -/
def sections (f : Forest) (i : NodeId) : List NodeId :=
  (f.children i).filter fun c => (f.get c).kind = .division

/-- The section that a way leads to from a node: each number on the way says
    to which section to go next, counted from zero. -/
def sectionAt? (f : Forest) : NodeId → List Nat → Option NodeId
  | i, [] => some i
  | i, k :: path => (f.sections i)[k]?.bind fun c => f.sectionAt? c path

/-- The first child of a section. -/
def titleOf (f : Forest) (s : NodeId) : NodeId := (f.children s).headD s

/-- The sections below a node start with their titles. -/
def Titled (f : Forest) (root : NodeId) : Prop :=
  ∀ s, f.Above root s → s ≠ root → (f.get s).kind = .division →
    ∃ title content, f.children s = title :: content ∧ (f.get title).kind = .title

/-- The sections below a node are children of it or of other sections. -/
def Nested (f : Forest) (root : NodeId) : Prop :=
  ∀ s, f.Above root s → s ≠ root → (f.get s).kind = .division →
    ∃ p, f.parent? s = some p ∧ (p = root ∨ (f.get p).kind = .division)

theorem mem_sections : c ∈ f.sections i ↔ c ∈ f.children i ∧ (f.get c).kind = .division := by
  rw [sections, List.mem_filter, decide_eq_true_iff]

theorem WellFormed.length_sections_le (hf : f.WellFormed) (i : NodeId) :
    (f.sections i).length ≤ f.size := by
  have hsubset : f.sections i ⊆ List.range f.size := fun c hc =>
    List.mem_range.mpr (hf.inside i c (mem_sections.mp hc).1)
  have hlength := (List.subperm_of_subset ((hf.linked.nodup i).filter _) hsubset).length_le
  rwa [List.length_range] at hlength

theorem sectionAt?_cons :
    f.sectionAt? i (k :: path) = some s ↔
      ∃ c, (f.sections i)[k]? = some c ∧ f.sectionAt? c path = some s := by
  rw [sectionAt?, Option.bind_eq_some_iff]

theorem WellFormed.above_of_sectionAt? (hf : f.WellFormed) (h : f.sectionAt? i path = some s) :
    f.Above i s := by
  induction path generalizing i with
  | nil =>
    obtain rfl := Option.some.inj h
    exact .here
  | cons k path ih =>
    obtain ⟨c, hc, hs⟩ := sectionAt?_cons.mp h
    exact (Above.up (hf.only c i (mem_sections.mp (List.mem_of_getElem? hc)).1) .here).trans (ih hs)

theorem kind_of_sectionAt? (hc : (f.get c).kind = .division) (h : f.sectionAt? c path = some s) :
    (f.get s).kind = .division := by
  induction path generalizing c with
  | nil =>
    obtain rfl := Option.some.inj h
    exact hc
  | cons k path ih =>
    obtain ⟨c', hc', hs⟩ := sectionAt?_cons.mp h
    exact ih (mem_sections.mp (List.mem_of_getElem? hc')).2 hs

/-- A way that is not empty leads to a section below. -/
theorem WellFormed.below_of_sectionAt? (hf : f.WellFormed) (hpath : path ≠ [])
    (h : f.sectionAt? i path = some s) :
    f.Above i s ∧ s ≠ i ∧ (f.get s).kind = .division := by
  obtain ⟨k, path, rfl⟩ := List.exists_cons_of_ne_nil hpath
  obtain ⟨c, hc, hs⟩ := sectionAt?_cons.mp h
  obtain ⟨hchild, hkind⟩ := mem_sections.mp (List.mem_of_getElem? hc)
  refine ⟨hf.above_of_sectionAt? h, ?_, kind_of_sectionAt? hkind hs⟩
  rintro rfl
  exact hf.not_above_parent hchild (hf.above_of_sectionAt? hs)

theorem sectionAt?_concat :
    f.sectionAt? i (path ++ [k]) = some s ↔
      ∃ c, f.sectionAt? i path = some c ∧ (f.sections c)[k]? = some s := by
  induction path generalizing i with
  | nil =>
    rw [List.nil_append, sectionAt?_cons]
    simp [sectionAt?]
  | cons m path ih =>
    rw [List.cons_append, sectionAt?_cons]
    simp only [ih, sectionAt?_cons]
    constructor
    · rintro ⟨b, hb, c, hc, hs⟩
      exact ⟨c, ⟨b, hb, hc⟩, hs⟩
    · rintro ⟨c, ⟨b, hb, hc⟩, hs⟩
      exact ⟨b, hb, c, hc, hs⟩

/-- No two ways lead to one section. -/
theorem WellFormed.sectionAt?_inj (hf : f.WellFormed) {path' : List Nat}
    (h : f.sectionAt? i path = some s) (h' : f.sectionAt? i path' = some s) : path = path' := by
  have hnil : ∀ {i k path}, f.sectionAt? i (k :: path) = some i → False := fun h =>
    (hf.below_of_sectionAt? (List.cons_ne_nil _ _) h).2.1 rfl
  induction path generalizing i path' with
  | nil =>
    obtain rfl := Option.some.inj h
    cases path' with
    | nil => rfl
    | cons k path' => exact (hnil h').elim
  | cons k path ih =>
    cases path' with
    | nil =>
      obtain rfl := Option.some.inj h'
      exact (hnil h).elim
    | cons k' path' =>
      obtain ⟨c, hc, hs⟩ := sectionAt?_cons.mp h
      obtain ⟨c', hc', hs'⟩ := sectionAt?_cons.mp h'
      have hparent : ∀ {b m}, (f.sections i)[m]? = some b → f.parent? b = some i := fun hb =>
        hf.only _ i (mem_sections.mp (List.mem_of_getElem? hb)).1
      -- Two sections of one node have nothing below them in common.
      obtain rfl : c = c' := by
        by_contra hne
        exact hf.apart_of_siblings (hparent hc) (hparent hc') hne (hf.above_of_sectionAt? hs)
          (hf.above_of_sectionAt? hs')
      have hnodup : (f.sections i).Nodup := (hf.linked.nodup i).filter _
      obtain rfl : k = k' := (List.getElem?_inj (List.getElem?_eq_some_iff.mp hc).1 hnodup).mp
        (hc.trans hc'.symm)
      rw [ih hs hs']

/-- A way leads to every section below. -/
theorem Nested.sectionAt? (hn : f.Nested root) (hf : f.WellFormed) (hs : f.Above root s)
    (hne : s ≠ root) (hkind : (f.get s).kind = .division) :
    ∃! path, path ≠ [] ∧ f.sectionAt? root path = some s := by
  have hexists : ∃ path, path ≠ [] ∧ f.sectionAt? root path = some s := by
    -- On the way up: the section hangs on the root, or on a section with a way to it.
    induction hs with
    | here => exact absurd rfl hne
    | @up s p hp hup ih =>
      obtain ⟨q, hq, hfrom⟩ := hn s (.up hp hup) hne hkind
      obtain rfl := Option.some.inj (hp.symm.trans hq)
      have hmem : s ∈ f.sections p := mem_sections.mpr ⟨(hf.linked.mem_iff s p).mpr hp, hkind⟩
      obtain ⟨k, hk⟩ := List.mem_iff_getElem?.mp hmem
      by_cases hroot : p = root
      · exact ⟨[k], by simp, sectionAt?_cons.mpr ⟨s, hroot ▸ hk, rfl⟩⟩
      · obtain ⟨path, -, hpath⟩ := ih hroot (hfrom.resolve_left hroot)
        exact ⟨path ++ [k], by simp, sectionAt?_concat.mpr ⟨p, hpath, hk⟩⟩
  obtain ⟨path, hpath, hway⟩ := hexists
  exact ⟨path, ⟨hpath, hway⟩, fun path' h => hf.sectionAt?_inj h.2 hway⟩

/-- A section that starts with its title. -/
theorem Titled.title (ht : f.Titled root) (hs : f.Above root s) (hne : s ≠ root)
    (hkind : (f.get s).kind = .division) :
    f.titleOf s ∈ f.children s ∧ (f.get (f.titleOf s)).kind = .title := by
  obtain ⟨title, content, hkids, htitle⟩ := ht s hs hne hkind
  rw [titleOf, hkids]
  exact ⟨List.mem_cons_self, htitle⟩

/-- What stands below the root is not the root. -/
theorem WellFormed.ne_of_child (hf : f.WellFormed) (hi : f.Above root i) (hc : c ∈ f.children i) :
    c ≠ root := by
  rintro rfl
  exact hf.not_above_parent hc hi

/-! ## Labels -/

/-- The numbers that a way goes by, from `start` at first and from one on
    below that. -/
def numbersOf : Int → List Nat → List Int
  | _, [] => []
  | start, k :: path => (start + k) :: numbersOf 1 path

/-- The titles of the sections below a node, with their labels. -/
def labels (f : Forest) (x : Pass.Numbering) :
    Nat → NodeId → List String → Int → Int → List (NodeId × String)
  | 0, _, _, _, _ => []
  | steps + 1, i, numbers, depth, start =>
    if depth ≤ 0 then []
    else (f.sections i).zipIdx.flatMap fun p =>
      let numbers := numbers ++ [Text.intText (start + p.2)]
      (f.titleOf p.1, x.label numbers) :: f.labels x steps p.1 numbers (depth - 1) 1

/-- The title of a section and those below it, with their labels. -/
def labelsUnder (f : Forest) (x : Pass.Numbering) (steps : Nat) (numbers : List String)
    (depth start : Int) (p : NodeId × Nat) : List (NodeId × String) :=
  let numbers := numbers ++ [Text.intText (start + p.2)]
  (f.titleOf p.1, x.label numbers) :: f.labels x steps p.1 numbers (depth - 1) 1

theorem labels_succ : f.labels x (steps + 1) i numbers depth start
    = if depth ≤ 0 then []
      else (f.sections i).zipIdx.flatMap (f.labelsUnder x steps numbers depth start) := rfl

/-- **The labels are those of the sections that a way leads to.** -/
theorem mem_labels (hwithin : f.Within steps i) :
    (t, text) ∈ f.labels x steps i numbers depth start ↔
      ∃ path s, path ≠ [] ∧ (path.length : Int) ≤ depth ∧ f.sectionAt? i path = some s ∧
        t = f.titleOf s ∧ text = x.label (numbers ++ (numbersOf start path).map Text.intText) := by
  induction steps generalizing i numbers depth start with
  | zero => exact hwithin.elim
  | succ steps ih =>
    rw [labels]
    by_cases hdepth : depth ≤ 0
    · rw [if_pos hdepth]
      refine ⟨nofun, ?_⟩
      rintro ⟨path, s, hpath, hlength, -⟩
      have := List.length_pos_of_ne_nil hpath
      omega
    rw [if_neg hdepth, List.mem_flatMap]
    constructor
    · rintro ⟨⟨c, k⟩, hmem, hlabel⟩
      have hc : (f.sections i)[k]? = some c := List.mem_zipIdx_iff_getElem?.mp hmem
      -- The label is that of the section itself, or of one that a way leads to from it.
      rcases List.mem_cons.mp hlabel with heq | hlabel
      · obtain ⟨rfl, rfl⟩ := Prod.mk.inj heq
        exact ⟨[k], c, by simp, by simp only [List.length_singleton]; omega,
          sectionAt?_cons.mpr ⟨c, hc, rfl⟩, rfl, rfl⟩
      · have hchild := (mem_sections.mp (List.mem_of_getElem? hc)).1
        obtain ⟨path, s, hpath, hlength, hs, rfl, rfl⟩ := (ih (hwithin c hchild)).mp hlabel
        refine ⟨k :: path, s, by simp, by simp only [List.length_cons]; omega,
          sectionAt?_cons.mpr ⟨c, hc, hs⟩, rfl, ?_⟩
        rw [numbersOf, List.map_cons, List.append_assoc]
        rfl
    · rintro ⟨path, s, hpath, hlength, hs, rfl, rfl⟩
      obtain ⟨k, path, rfl⟩ := List.exists_cons_of_ne_nil hpath
      obtain ⟨c, hc, hs⟩ := sectionAt?_cons.mp hs
      refine ⟨(c, k), List.mem_zipIdx_iff_getElem?.mpr hc, ?_⟩
      have hchild := (mem_sections.mp (List.mem_of_getElem? hc)).1
      by_cases hnil : path = []
      · subst hnil
        obtain rfl := Option.some.inj hs
        exact List.mem_cons_self
      · refine List.mem_cons_of_mem _ ((ih (hwithin c hchild)).mpr ⟨path, s, hnil, ?_, hs, rfl, ?_⟩)
        · simp only [List.length_cons] at hlength
          omega
        · rw [numbersOf, List.map_cons, List.append_assoc]
          rfl

/-- What gets a label is the title of a section below. -/
theorem WellFormed.below_of_mem_labels (hf : f.WellFormed) (ht : f.Titled root)
    (hi : f.Above root i) (hwithin : f.Within steps i)
    (h : (t, text) ∈ f.labels x steps i numbers depth start) :
    ∃ s, f.Above i s ∧ s ≠ i ∧ f.parent? t = some s ∧ (f.get t).kind = .title := by
  obtain ⟨path, s, hpath, -, hs, rfl, -⟩ := (mem_labels hwithin).mp h
  obtain ⟨his, hne, hkind⟩ := hf.below_of_sectionAt? hpath hs
  have hroot : s ≠ root := by
    rintro rfl
    exact hne (hf.above_antisymm hi his)
  obtain ⟨hmem, htitle⟩ := ht.title (hi.trans his) hroot hkind
  exact ⟨s, his, hne, hf.only _ s hmem, htitle⟩

/-- No title gets two labels. -/
theorem WellFormed.nodup_labels (hf : f.WellFormed) (ht : f.Titled root) (hi : f.Above root i)
    (hwithin : f.Within steps i) :
    ((f.labels x steps i numbers depth start).map Prod.fst).Nodup := by
  induction steps generalizing i numbers depth start with
  | zero => exact hwithin.elim
  | succ steps ih =>
    rw [labels]
    split
    · exact List.nodup_nil
    -- A section is below the root, and what is labelled with it is below it.
    have hsection : ∀ p ∈ (f.sections i).zipIdx, f.parent? p.1 = some i ∧ f.Above root p.1 ∧
        f.Within steps p.1 ∧ f.parent? (f.titleOf p.1) = some p.1 := by
      rintro ⟨c, k⟩ hmem
      have hc := mem_sections.mp (List.mem_of_getElem? (List.mem_zipIdx_iff_getElem?.mp hmem))
      have hparent := hf.only c i hc.1
      have hroot := hi.trans (.up hparent .here)
      exact ⟨hparent, hroot, hwithin c hc.1,
        hf.only _ c (ht.title hroot (hf.ne_of_child hi hc.1) hc.2).1⟩
    have hbelow : ∀ p ∈ (f.sections i).zipIdx, ∀ numbers t,
        t ∈ f.titleOf p.1 :: (f.labels x steps p.1 numbers (depth - 1) 1).map Prod.fst →
          f.Above p.1 t := by
      intro p hp numbers t ht'
      obtain ⟨-, hroot, hwithin, htitle⟩ := hsection p hp
      rcases List.mem_cons.mp ht' with rfl | ht'
      · exact .up htitle .here
      · obtain ⟨⟨t, text⟩, hmem, rfl⟩ := List.mem_map.mp ht'
        obtain ⟨s, hs, -, hparent, -⟩ := hf.below_of_mem_labels ht hroot hwithin hmem
        exact .up hparent hs
    rw [List.map_flatMap, List.Nodup, List.pairwise_flatMap]
    constructor
    · intro p hp
      obtain ⟨-, hroot, hwithin, htitle⟩ := hsection p hp
      refine List.nodup_cons.mpr ⟨fun hmem => ?_, ih hroot hwithin⟩
      obtain ⟨⟨t, text⟩, hmem, heq⟩ := List.mem_map.mp hmem
      obtain ⟨s, -, hne, hparent, -⟩ := hf.below_of_mem_labels ht hroot hwithin hmem
      rw [show t = f.titleOf p.1 from heq, htitle] at hparent
      exact hne (Option.some.inj hparent).symm
    · have hnodup : ((f.sections i).zipIdx).Pairwise fun p q => p.1 ≠ q.1 := by
        refine List.pairwise_map.mp ?_
        rw [List.zipIdx_map_fst]
        exact (hf.linked.nodup i).filter _
      refine hnodup.imp_of_mem fun {p q} hp hq hne t htp u huq heq => ?_
      exact hf.apart_of_siblings (hsection p hp).1 (hsection q hq).1 hne (hbelow p hp _ t htp)
        (heq ▸ hbelow q hq _ u huq)

/-! ## Putting labels into titles -/

/-- A label as it is put into a title. -/
def labelTree (text : String) : Tree :=
  .node { kind := .generatedText } [.node { kind := .text, value := text } []]

/-- From `f` to `g`, some titles got labels in front of what they hold. -/
structure Labelled (f g : Forest) (done : List (NodeId × String)) : Prop where
  size : f.size ≤ g.size
  wellFormed : g.WellFormed
  bare : ∀ j < f.size, (g.get j).bare = (f.get j).bare
  parent : ∀ j < f.size, g.parent? j = f.parent? j
  children : ∀ j < f.size, j ∉ done.map Prod.fst → g.children j = f.children j
  titles : ∀ p ∈ done, (f.get p.1).kind = .title
  label : ∀ p ∈ done, ∃ n, f.size ≤ n ∧ g.children p.1 = n :: f.children p.1 ∧
    g.Shows [n] [labelTree p.2]

namespace Labelled

theorem refl (hf : f.WellFormed) : f.Labelled f [] where
  size := Nat.le_refl _
  wellFormed := hf
  bare _ _ := rfl
  parent _ _ := rfl
  children _ _ _ := rfl
  titles := List.forall_mem_nil _
  label := List.forall_mem_nil _

theorem kind_old (hl : f.Labelled g done) (hj : j < f.size) : (g.get j).kind = (f.get j).kind :=
  kind_of_bare (hl.bare j hj)

/-- A label is no section. -/
theorem sections (hl : f.Labelled g done) (hf : f.WellFormed) (hi : i < f.size) :
    g.sections i = f.sections i := by
  have hold : (f.children i).filter (fun c => (g.get c).kind = .division) = f.sections i :=
    List.filter_congr fun c hc => by rw [hl.kind_old (hf.inside i c hc)]
  rw [Forest.sections]
  by_cases hmem : i ∈ done.map Prod.fst
  · obtain ⟨p, hp, rfl⟩ := List.mem_map.mp hmem
    obtain ⟨n, -, hkids, hshows⟩ := hl.label p hp
    have hkind : (g.get n).bare.kind = .generatedText := by rw [hshows.uncons.1]
    change (g.get n).kind = .generatedText at hkind
    rw [hkids, List.filter_cons_of_neg (by simp [hkind]), hold]
  · rw [hl.children i hi hmem, hold]

/-- A section is not a title. -/
theorem children_section (hl : f.Labelled g done) (hs : (f.get s).kind = .division) :
    g.children s = f.children s := by
  refine hl.children s (lt_size_of_kind (by decide) hs) fun hmem => ?_
  obtain ⟨p, hp, rfl⟩ := List.mem_map.mp hmem
  cases (hl.titles p hp).symm.trans hs

/-- One more title gets a label. -/
theorem add (hl : f.Labelled e done) (hf : f.WellFormed) (htitle : (f.get t).kind = .title)
    (hnew : t ∉ done.map Prod.fst) (hmade : Build.Made e g [n] [labelTree text]) :
    f.Labelled (g.insert t 0 [n]) (done ++ [(t, text)]) := by
  have htsize : t < f.size := lt_size_of_kind (by decide) htitle
  have hte : t < e.size := Nat.lt_of_lt_of_le htsize hl.size
  have hn : e.size ≤ n := hmade.new n (List.mem_singleton_self n)
  obtain ⟨hng, hnone⟩ := hmade.inside n (List.mem_singleton_self n)
  have hbelow : ¬g.Above n t := fun h =>
    absurd (hmade.extended.spliced.lt_size_of_above hl.wellFormed hte h) (Nat.not_lt.mpr hn)
  have hold : ∀ j < f.size, g.get j = e.get j := fun j hj =>
    hmade.extended.old j (Nat.lt_of_lt_of_le hj hl.size)
  have hi : g.Inserted (g.insert t 0 [n]) n t [] (g.children t) :=
    hmade.wellFormed.inserted (u := []) (Nat.lt_of_lt_of_le hte hmade.extended.size) hng hnone hbelow
      (List.nil_append _).symm
  have hkids : ∀ j < e.size, j ≠ t → (g.insert t 0 [n]).children j = e.children j := fun j hj hjt => by
    rw [hi.children, if_neg hjt, Forest.children, hmade.extended.old j hj, Forest.children]
  -- The new label hangs on no title that has one, so the labels before it are as they were.
  exact {
    size := by
      rw [hi.size]
      exact Nat.le_trans hl.size hmade.extended.size
    wellFormed := hi.wellFormed
    bare := fun j hj => by rw [hi.bare, hold j hj, hl.bare j hj]
    parent := fun j hj => by
      have hjn : j ≠ n := Nat.ne_of_lt (Nat.lt_of_lt_of_le hj (Nat.le_trans hl.size hn))
      rw [hi.parent, if_neg hjn, parent?, hold j hj, ← parent?, hl.parent j hj]
    children := fun j hj hjt => by
      simp only [List.map_append, List.map_cons, List.map_nil, List.mem_append, List.mem_singleton,
        not_or] at hjt
      rw [hkids j (Nat.lt_of_lt_of_le hj hl.size) hjt.2, hl.children j hj hjt.1]
    titles := List.forall_mem_append.mpr ⟨hl.titles, List.forall_mem_singleton.mpr htitle⟩
    label := by
      refine List.forall_mem_append.mpr ⟨fun p hp => ?_, List.forall_mem_singleton.mpr ?_⟩
      · obtain ⟨m, hm, hpkids, hshows⟩ := hl.label p hp
        have hpt : p.1 ≠ t := fun heq => hnew (heq ▸ List.mem_map_of_mem hp)
        have hpsize : p.1 < f.size := lt_size_of_kind (by decide) (hl.titles p hp)
        have hme : m < e.size := hl.wellFormed.inside p.1 m (hpkids ▸ List.mem_cons_self)
        refine ⟨m, hm, ?_, hshows.keep (P := fun j => f.size ≤ j ∧ j < e.size) ?_ ?_ ?_⟩
        · rw [hkids _ (Nat.lt_of_lt_of_le hpsize hl.size) hpt, hpkids]
        · exact fun j hj c hc => ⟨hf.new_children hl.wellFormed hl.parent hj.1 hc,
            hl.wellFormed.inside j c hc⟩
        · refine fun j hj => ⟨by rw [hi.bare, hmade.extended.old j hj.2], hkids j hj.2 ?_⟩
          exact Ne.symm (Nat.ne_of_lt (Nat.lt_of_lt_of_le htsize hj.1))
        · exact List.forall_mem_singleton.mpr ⟨hm, hme⟩
      · refine ⟨n, Nat.le_trans hl.size hn, ?_,
          hmade.shows.keep (P := fun j => e.size ≤ j) ?_ ?_ ?_⟩
        · rw [hi.children, if_pos rfl, List.nil_append, Forest.children, hold t htsize,
            ← Forest.children, hl.children t htsize hnew]
        · refine fun j hj c hc => hl.wellFormed.new_children hmade.wellFormed (fun j hj => ?_) hj hc
          rw [parent?, hmade.extended.old j hj, parent?]
        · refine fun j hj => ⟨hi.bare j, ?_⟩
          rw [hi.children, if_neg]
          exact Ne.symm (Nat.ne_of_lt (Nat.lt_of_lt_of_le hte hj))
        · exact List.forall_mem_singleton.mpr hn }

end Labelled

/-! ## Taking out the node that asks for numbers -/

/-- From `f` to `g`, `pending` was taken out, and the sections that a way of
    at most `depth` steps leads to from the root got labels in front of their
    titles. -/
structure Numbered (f g : Forest) (root pending : NodeId) (x : Pass.Numbering)
    (depth start : Int) : Prop where
  size : f.size ≤ g.size
  wellFormed : g.WellFormed
  bare : ∀ j < f.size, (g.get j).bare = (f.get j).bare
  parent : ∀ j < f.size, g.parent? j = if j = pending then none else f.parent? j
  label : ∀ path s, path ≠ [] → (path.length : Int) ≤ depth → f.sectionAt? root path = some s →
    ∃ n, f.size ≤ n ∧
      g.children (f.titleOf s) = n :: (f.children (f.titleOf s)).filter (· ≠ pending) ∧
      g.Shows [n] [labelTree (x.label ((numbersOf start path).map Text.intText))]
  children : ∀ j < f.size, (∀ path s, path ≠ [] → (path.length : Int) ≤ depth →
      f.sectionAt? root path = some s → j ≠ f.titleOf s) →
    g.children j = (f.children j).filter (· ≠ pending)

theorem WellFormed.children_detach (hf : f.WellFormed) (n i : NodeId) :
    (f.detach n).children i = (f.children i).filter (· ≠ n) :=
  children_detach_eq_filter (hf.linked.nodup i) (hf.linked.mem_iff n i).mp

/-- What is no section can be taken out. -/
theorem WellFormed.sections_detach (hf : f.WellFormed) (hn : (f.get n).kind ≠ .division)
    (i : NodeId) : (f.detach n).sections i = f.sections i := by
  rw [sections, hf.children_detach, List.filter_filter, sections]
  refine List.filter_congr fun c _ => ?_
  rw [kind_detach]
  by_cases hc : c = n
  · simp [hc, hn]
  · simp [hc]

theorem WellFormed.sectionAt?_detach (hf : f.WellFormed) (hn : (f.get n).kind ≠ .division)
    (i : NodeId) (path : List Nat) : (f.detach n).sectionAt? i path = f.sectionAt? i path := by
  induction path generalizing i with
  | nil => rfl
  | cons k path ih => simp only [sectionAt?, hf.sections_detach hn, ih]

/-- What is no title can be taken out of a section. -/
theorem Titled.children_detach (ht : f.Titled root) (hf : f.WellFormed)
    (hn : (f.get n).kind ≠ .title) (hs : f.Above root s) (hne : s ≠ root)
    (hkind : (f.get s).kind = .division) :
    ∃ title content, f.children s = title :: content ∧ (f.get title).kind = .title ∧
      (f.detach n).children s = title :: content.filter (· ≠ n) := by
  obtain ⟨title, content, hkids, htitle⟩ := ht s hs hne hkind
  refine ⟨title, content, hkids, htitle, ?_⟩
  rw [hf.children_detach, hkids]
  exact List.filter_cons_of_pos (decide_eq_true fun heq => hn (heq ▸ htitle))

theorem Titled.detach (ht : f.Titled root) (hf : f.WellFormed) (hn : (f.get n).kind ≠ .title) :
    (f.detach n).Titled root := by
  intro s hs hne hkind
  rw [kind_detach] at hkind
  obtain ⟨title, content, -, htitle, hkids⟩ :=
    ht.children_detach hf hn hs.of_detach hne hkind
  exact ⟨title, _, hkids, by rw [kind_detach, htitle]⟩

theorem Titled.titleOf_detach (ht : f.Titled root) (hf : f.WellFormed)
    (hn : (f.get n).kind ≠ .title) (hs : f.Above root s) (hne : s ≠ root)
    (hkind : (f.get s).kind = .division) : (f.detach n).titleOf s = f.titleOf s := by
  obtain ⟨title, content, hkids, -, hkids'⟩ := ht.children_detach hf hn hs hne hkind
  rw [titleOf, hkids', titleOf, hkids]
  rfl

/-- What was labelled after a node was taken out is numbered. -/
theorem Labelled.numbered {pending : NodeId} (hf : f.WellFormed) (ht : f.Titled root)
    (hpending : (f.get pending).kind = .pending) (hwithin : (f.detach pending).Within steps root)
    (hl : (f.detach pending).Labelled g ((f.detach pending).labels x steps root [] depth start)) :
    f.Numbered g root pending x depth start := by
  have hdivision : (f.get pending).kind ≠ .division := by rw [hpending]; decide
  have htitle : (f.get pending).kind ≠ .title := by rw [hpending]; decide
  have hsize : (f.detach pending).size = f.size := size_detach f pending
  have htitleOf : ∀ path s, path ≠ [] → f.sectionAt? root path = some s →
      (f.detach pending).titleOf s = f.titleOf s := fun path s hpath hs => by
    obtain ⟨habove, hne, hkind⟩ := hf.below_of_sectionAt? hpath hs
    exact ht.titleOf_detach hf htitle habove hne hkind
  refine ⟨hsize ▸ hl.size, hl.wellFormed, fun j hj => ?_, fun j hj => ?_,
    fun path s hpath hlength hs => ?_, fun j hj hother => ?_⟩
  · rw [hl.bare j (hsize ▸ hj), bare_detach]
  · rw [hl.parent j (hsize ▸ hj), parent?_detach]
  · have hmem : ((f.detach pending).titleOf s, x.label ((numbersOf start path).map Text.intText))
        ∈ (f.detach pending).labels x steps root [] depth start := (mem_labels hwithin).mpr
      ⟨path, s, hpath, hlength, (hf.sectionAt?_detach hdivision root path).trans hs, rfl, rfl⟩
    obtain ⟨n, hn, hkids, hshows⟩ := hl.label _ hmem
    rw [htitleOf path s hpath hs, hf.children_detach] at hkids
    exact ⟨n, hsize ▸ hn, hkids, hshows⟩
  · rw [hl.children j (hsize ▸ hj), hf.children_detach]
    intro hmem
    obtain ⟨⟨t, text⟩, hlabel, rfl⟩ := List.mem_map.mp hmem
    obtain ⟨path, s, hpath, hlength, hs, rfl, -⟩ := (mem_labels hwithin).mp hlabel
    rw [hf.sectionAt?_detach hdivision] at hs
    exact hother path s hpath hlength hs (htitleOf path s hpath hs)

end Forest

namespace Pass

open Forest

variable {d : Document} {f : Forest} {root i c : NodeId} {x : Numbering} {steps k : Nat}
  {numbers : List String} {depth start n : Int} {done : List (NodeId × String)} {cs : List NodeId}

theorem Numbering.label_ne_empty (x : Numbering) (numbers : List String) : x.label numbers ≠ "" := by
  intro h
  have hlength := congrArg String.length h
  simp [label] at hlength

/-- A section gets its number, and so does what is below it. -/
def numberSection (x : Numbering) (steps : Nat) (numbers : List String) (depth n : Int)
    (c : NodeId) : Build Int := do
  let numbers := numbers ++ [Text.intText n]
  let label ← Build.textElement { kind := .generatedText } (x.label numbers)
  let title := (← Build.node c).children.headD c
  Build.edit (·.insert title 0 [label])
  number x steps c numbers (depth - 1) 1
  return Text.wrapWord (n + 1)

theorem number_succ : number x (steps + 1) i numbers depth start = (do
    if depth ≤ 0 then return
    let _ ← (← sectionsOf i).foldlM (numberSection x steps numbers depth) start) := rfl

/-- Sections are found where they and what they hold are as they were. -/
theorem sectionsOf_run (hf : f.WellFormed) (ht : f.Titled root) (hi : f.Above root i)
    (hsections : d.forest.sections i = f.sections i)
    (hkids : ∀ c, (f.get c).kind = .division → d.forest.children c = f.children c) :
    sectionsOf i d = .ok (f.sections i) d := by
  have hrun : sectionsOf i d = .ok ((d.forest.children i).filter fun c =>
      (d.forest.get c).kind = .division && !(d.forest.get c).children.isEmpty) d := rfl
  have hfull : ((d.forest.sections i).filter fun c => !(d.forest.get c).children.isEmpty)
      = f.sections i := by
    rw [hsections]
    refine List.filter_eq_self.mpr fun c hc => ?_
    obtain ⟨hchild, hkind⟩ := mem_sections.mp hc
    obtain ⟨title, content, htitle, -⟩ := ht c (hi.trans (.up (hf.only c i hchild) .here))
      (hf.ne_of_child hi hchild) hkind
    rw [← Forest.children, hkids c hkind, htitle, List.isEmpty_cons, Bool.not_false]
  rw [hrun, ← hfull, Forest.sections, List.filter_filter]
  refine congrArg (EStateM.Result.ok · d) (List.filter_congr fun c _ => ?_)
  rw [Bool.and_comm]

/-- One section gets its label, and what is below it. -/
theorem numberSection_labelled (hf : f.WellFormed) (ht : f.Titled root) (hc : f.Above root c)
    (hne : c ≠ root) (hkind : (f.get c).kind = .division)
    (hl : f.Labelled d.forest done)
    (hnodup : ((done ++ f.labelsUnder x steps numbers depth start (c, k)).map Prod.fst).Nodup)
    (hbelow : ∀ (e : Document) done numbers, f.Labelled e.forest done →
      ((done ++ f.labels x steps c numbers (depth - 1) 1).map Prod.fst).Nodup →
      ∃ g, number x steps c numbers (depth - 1) 1 e = .ok ⟨⟩ { e with forest := g } ∧
        f.Labelled g (done ++ f.labels x steps c numbers (depth - 1) 1)) :
    ∃ g, numberSection x steps numbers depth (start + k) c d
        = .ok (Text.wrapWord (start + k + 1)) { d with forest := g } ∧
      f.Labelled g (done ++ f.labelsUnder x steps numbers depth start (c, k)) := by
  obtain ⟨hchild, htitle⟩ := ht.title hc hne hkind
  have hcsize : c < f.size := lt_size_of_kind (by decide) hkind
  generalize hnumbers : numbers ++ [Text.intText (start + k)] = numbers'
  -- The label is made and put into the title, and then the sections below are numbered.
  obtain ⟨g, n, hmake, hmade⟩ := Build.textElement_made { kind := .generatedText } (x.label numbers')
    hl.wellFormed
  rw [if_neg (x.label_ne_empty numbers')] at hmade
  have hhead : (g.get c).children.headD c = f.titleOf c := by
    rw [hmade.extended.old c (Nat.lt_of_lt_of_le hcsize hl.size), ← Forest.children,
      hl.children_section hkind]
    rfl
  have hunder : f.labelsUnder x steps numbers depth start (c, k)
      = [(f.titleOf c, x.label numbers')] ++ f.labels x steps c numbers' (depth - 1) 1 := by
    rw [labelsUnder, hnumbers]
    rfl
  rw [hunder, ← List.append_assoc] at hnodup ⊢
  have hfirst := hnodup
  rw [List.map_append, List.map_append] at hfirst
  have hnew : f.titleOf c ∉ done.map Prod.fst := fun hmem =>
    (List.nodup_append.mp (List.nodup_append.mp hfirst).1).2.2 _ hmem _ (List.mem_singleton_self _) rfl
  have hl' := hl.add hf htitle hnew hmade
  obtain ⟨h, hrun, hlabelled⟩ := hbelow { d with forest := g.insert (f.titleOf c) 0 [n] } _ numbers' hl'
    hnodup
  refine ⟨h, ?_, hlabelled⟩
  have hnode : Build.node c { d with forest := g } = .ok (g.get c) { d with forest := g } := rfl
  rw [numberSection, hnumbers, Contract.bind_run, hmake]
  dsimp only
  rw [Contract.bind_run, hnode]
  dsimp only
  rw [hhead]
  have hedit : Build.edit (·.insert (f.titleOf c) 0 [n]) { d with forest := g }
      = .ok ⟨⟩ { d with forest := g.insert (f.titleOf c) 0 [n] } := rfl
  rw [Contract.bind_run, hedit]
  dsimp only
  rw [Contract.bind_run, hrun]
  rfl

/-- Sections get their labels one after the other. -/
theorem foldSections_labelled (hf : f.WellFormed) (ht : f.Titled root)
    (hcs : ∀ c ∈ cs, f.Above root c ∧ c ≠ root ∧ (f.get c).kind = .division)
    (hfits : -Text.wordLimit ≤ start ∧ start + (k + cs.length) ≤ Text.wordLimit)
    (hn : cs ≠ [] → n = start + k) (hl : f.Labelled d.forest done)
    (hnodup : ((done ++ (cs.zipIdx k).flatMap
      (f.labelsUnder x steps numbers depth start)).map Prod.fst).Nodup)
    (hbelow : ∀ c ∈ cs, ∀ (e : Document) done numbers, f.Labelled e.forest done →
      ((done ++ f.labels x steps c numbers (depth - 1) 1).map Prod.fst).Nodup →
      ∃ g, number x steps c numbers (depth - 1) 1 e = .ok ⟨⟩ { e with forest := g } ∧
        f.Labelled g (done ++ f.labels x steps c numbers (depth - 1) 1)) :
    ∃ m g, cs.foldlM (numberSection x steps numbers depth) n d = .ok m { d with forest := g } ∧
      f.Labelled g (done ++ (cs.zipIdx k).flatMap (f.labelsUnder x steps numbers depth start)) := by
  induction cs generalizing k n d done with
  | nil => exact ⟨n, d.forest, rfl, by simpa using hl⟩
  | cons c cs ih =>
    obtain ⟨⟨hc, hne, hkind⟩, hrest⟩ := List.forall_mem_cons.mp hcs
    obtain ⟨hbelow, hbelows⟩ := List.forall_mem_cons.mp hbelow
    rw [List.zipIdx_cons, List.flatMap_cons, ← List.append_assoc] at hnodup ⊢
    have hfirst := hnodup
    rw [List.map_append] at hfirst
    obtain ⟨g, hrun, hl'⟩ := numberSection_labelled hf ht hc hne hkind hl
      (List.nodup_append.mp hfirst).1 hbelow
    rw [List.length_cons] at hfits
    push_cast at hfits
    -- The number after the last one is not used.
    have hnext : cs ≠ [] → Text.wrapWord (start + k + 1) = start + (k + 1 : Nat) := fun hcs => by
      have hlength := List.length_pos_of_ne_nil hcs
      rw [Text.wrapWord_of_fits (decide_eq_true (by omega))]
      push_cast
      omega
    obtain ⟨m, h, hrun', hl''⟩ := ih (d := { d with forest := g }) hrest
      ⟨hfits.1, by push_cast; omega⟩ hnext hl' hnodup hbelows
    refine ⟨m, h, ?_, hl''⟩
    rw [List.foldlM_cons, hn (by simp), Contract.bind_run, hrun]
    exact hrun'

/-- **Each title gets its label.** -/
theorem number_labelled (hf : f.WellFormed) (ht : f.Titled root) (hi : f.Above root i)
    (hsize : i < f.size) (hwithin : f.Within steps i)
    (hfits : -Text.wordLimit ≤ start ∧ start + (f.sections i).length ≤ Text.wordLimit)
    (hlengths : ∀ s, (f.sections s).length < Text.wordLimit) (hl : f.Labelled d.forest done)
    (hnodup : ((done ++ f.labels x steps i numbers depth start).map Prod.fst).Nodup) :
    ∃ g, number x steps i numbers depth start d = .ok ⟨⟩ { d with forest := g } ∧
      f.Labelled g (done ++ f.labels x steps i numbers depth start) := by
  induction steps generalizing i numbers depth start d done with
  | zero => exact hwithin.elim
  | succ steps ih =>
    rw [number_succ]
    rw [labels_succ] at hnodup ⊢
    by_cases hdepth : depth ≤ 0
    · rw [if_pos hdepth, if_pos hdepth, List.append_nil]
      exact ⟨d.forest, rfl, hl⟩
    rw [if_neg hdepth] at hnodup ⊢
    rw [if_neg hdepth, Contract.bind_run, sectionsOf_run hf ht hi (hl.sections hf hsize)
      fun _ => hl.children_section]
    dsimp only
    have hsections : ∀ c ∈ f.sections i, c ∈ f.children i ∧ f.Above root c ∧ c ≠ root ∧
        (f.get c).kind = .division := fun c hc => by
      obtain ⟨hchild, hkind⟩ := mem_sections.mp hc
      exact ⟨hchild, hi.trans (.up (hf.only c i hchild) .here), hf.ne_of_child hi hchild, hkind⟩
    -- Only at the top do the numbers begin elsewhere than at one.
    have hbelow : ∀ c ∈ f.sections i, ∀ (e : Document) done numbers, f.Labelled e.forest done →
        ((done ++ f.labels x steps c numbers (depth - 1) 1).map Prod.fst).Nodup →
        ∃ g, number x steps c numbers (depth - 1) 1 e = .ok ⟨⟩ { e with forest := g } ∧
          f.Labelled g (done ++ f.labels x steps c numbers (depth - 1) 1) := by
      intro c hc e done numbers hl hnodup
      obtain ⟨hchild, hroot, -⟩ := hsections c hc
      have hlength := hlengths c
      exact ih hroot (hf.inside i c hchild) (hwithin c hchild) ⟨by decide, by omega⟩ hl hnodup
    obtain ⟨m, g, hrun, hl'⟩ := foldSections_labelled (k := 0) (n := start) hf ht
      (fun c hc => (hsections c hc).2) (by simpa using hfits) (by simp) hl hnodup hbelow
    refine ⟨g, ?_, hl'⟩
    rw [Contract.bind_run, hrun]
    rfl

/-- **Sections are numbered as they are nested.** -/
theorem numberSections_numbered {pending : NodeId} {options : List (String × Data.Value)}
    (hf : d.forest.WellFormed) (hroot : d.root < d.forest.size) (ht : d.forest.Titled d.root)
    (hpending : (d.forest.get pending).kind = .pending)
    (hdepth : intOption options "depth" anyDepth d = .ok depth d)
    (hstart : intOption options "start" 1 d = .ok start d)
    (hfits : -Text.wordLimit ≤ start ∧ start + (d.forest.sections d.root).length ≤ Text.wordLimit)
    (hlengths : ∀ s, (d.forest.sections s).length < Text.wordLimit) :
    ∃ g, numberSections pending options d = .ok ⟨⟩ { d with forest := g } ∧
      d.forest.Numbered g d.root pending ⟨textOption options "prefix", textOption options "suffix"⟩
        depth start := by
  have hdivision : (d.forest.get pending).kind ≠ .division := by rw [hpending]; decide
  have htitle : (d.forest.get pending).kind ≠ .title := by rw [hpending]; decide
  let f := d.forest.detach pending
  have hf' : f.WellFormed := hf.detach pending
  have ht' : f.Titled d.root := ht.detach hf htitle
  have hsections : ∀ i, f.sections i = d.forest.sections i := hf.sections_detach hdivision
  have hnodup : (([] ++ f.labels ⟨textOption options "prefix", textOption options "suffix"⟩
      (f.size + 1) d.root [] depth start).map Prod.fst).Nodup :=
    hf'.nodup_labels ht' .here (hf'.within d.root)
  obtain ⟨g, hrun, hl⟩ := number_labelled (d := { d with forest := f }) hf' ht' .here
    ((size_detach d.forest pending).symm ▸ hroot) (hf'.within d.root) (hsections d.root ▸ hfits)
    (fun s => hsections s ▸ hlengths s) (.refl hf') hnodup
  refine ⟨g, ?_, hl.numbered hf ht hpending (hf'.within d.root)⟩
  rw [numberSections, Contract.bind_run, hdepth]
  dsimp only
  rw [Contract.bind_run, hstart]
  exact hrun

end Pass

end MarkupLint
