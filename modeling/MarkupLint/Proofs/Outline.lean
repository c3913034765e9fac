import Mathlib.Data.List.Chain
import MarkupLint.Proofs.Parsing

/-! # The outline of a text

    Titles are met one after the other.  Two things of what came before say
    whether a title is admitted and how deep: the styles that are known, in
    the order in which they were met, and how many sections are open.  An
    admitted title opens a section under the latest section that is one level
    higher; a title that is not admitted changes nothing but that a message
    is raised.

    `Processed` lists the titles that were met on the way from one state of
    the parser to another, with the sections they opened.  Whatever titles
    they are, the styles stay different from each other, and every open
    section stays a child of the one before it (`Processed.outlined`). -/

namespace MarkupLint

/-- A title, with the file it stands in. -/
structure Title where
  source : String
  heading : Heading
  deriving DecidableEq, Repr

/-- A section that a title opened. -/
structure Opened where
  depth : Nat
  node : NodeId

/-- A title of a style is admitted at a depth where some sections are open,
    and then some styles are known: the style is one of those known, and not
    that of a level below the next; or it is new, and no known style is left
    for the next level. -/
inductive Admitted (styles : List TitleStyle) (sections : Nat) (style : TitleStyle) :
    Nat → List TitleStyle → Prop
  | known {k : Nat} (met : styles[k]? = some style) (near : k ≤ sections) :
    Admitted styles sections style (k + 1) styles
  | fresh (unmet : style ∉ styles) (full : sections = styles.length) :
    Admitted styles sections style (styles.length + 1) (styles ++ [style])

namespace Admitted

variable {styles after : List TitleStyle} {sections k : Nat} {style : TitleStyle}

theorem pos (h : Admitted styles sections style k after) : 0 < k := by
  cases h <;> exact Nat.succ_pos _

/-- No level is left out. -/
theorem le (h : Admitted styles sections style k after) : k ≤ sections + 1 := by
  cases h with
  | known met near => exact Nat.succ_le_succ near
  | fresh unmet full => exact Nat.le_of_eq (congrArg _ full.symm)

/-- The style is the one of its level. -/
theorem style_at (h : Admitted styles sections style k after) : after[k - 1]? = some style := by
  cases h with
  | known met near => exact met
  | fresh unmet full => simp

theorem le_length (h : Admitted styles sections style k after) : k ≤ after.length := by
  obtain ⟨hlt, -⟩ := List.getElem?_eq_some_iff.mp h.style_at
  have := h.pos
  omega

/-- The styles stay different from each other. -/
theorem nodup (h : Admitted styles sections style k after) (hstyles : styles.Nodup) :
    after.Nodup := by
  cases h with
  | known met near => exact hstyles
  | fresh unmet full =>
    refine List.nodup_append.mpr ⟨hstyles, List.nodup_singleton _, ?_⟩
    rintro a ha b hb rfl
    exact unmet (List.mem_singleton.mp hb ▸ ha)

end Admitted

/-- The parser admits titles so. -/
theorem Site.titleLevel?_eq_some_iff {styles after : List TitleStyle} (hstyles : styles.Nodup)
    {sections k : Nat} {style : TitleStyle} :
    titleLevel? styles sections style = some (k, after) ↔
      Admitted styles sections style k after := by
  constructor
  · intro h
    simp only [titleLevel?] at h
    split at h
    · rename_i j hj
      split at h
      · cases h
        obtain ⟨hlt, hmet, -⟩ := List.idxOf?_eq_some_iff.mp hj
        refine .known ?_ ‹_›
        rw [List.getElem?_eq_getElem hlt, hmet]
      · cases h
    · rename_i hnone
      split at h
      · rename_i hfull
        cases h
        subst hfull
        exact .fresh (List.idxOf?_eq_none_iff.mp hnone) rfl
      · cases h
  · intro h
    cases h with
    | @known j met near =>
      obtain ⟨hlt, hmet⟩ := List.getElem?_eq_some_iff.mp met
      have hfirst : styles.idxOf? style = some j := by
        refine List.idxOf?_eq_some_iff.mpr ⟨hlt, hmet, fun i hi heq => ?_⟩
        exact absurd ((List.Nodup.getElem_inj_iff hstyles).mp (heq.trans hmet.symm)) (Nat.ne_of_lt hi)
      simp only [titleLevel?, hfirst, if_pos near]
    | fresh unmet full =>
      simp only [titleLevel?, List.idxOf?_eq_none_iff.mpr unmet, full, if_true]

/-! ## Places in the tree -/

namespace Forest

/-- A node is a child of another, and says so. -/
structure Child (f : Forest) (p i : NodeId) : Prop where
  mem : i ∈ f.children p
  parent : f.parent? i = some p

/-- A node is the last child of another, and says so. -/
structure LastChild (f : Forest) (p i : NodeId) : Prop where
  last : (f.children p).getLast? = some i
  parent : f.parent? i = some p

variable {f g : Forest} {n p i : Nat}

theorem LastChild.child (h : f.LastChild p i) : f.Child p i :=
  ⟨List.mem_of_getLast? h.last, h.parent⟩

/-- Only nodes that there are have parents and children. -/
theorem Child.lt_size (h : f.Child p i) : p < f.size ∧ i < f.size := by
  obtain ⟨hmem, hparent⟩ := h
  refine ⟨Nat.lt_of_not_le fun hle => ?_, Nat.lt_of_not_le fun hle => ?_⟩
  · rw [children, get_of_size_le hle] at hmem
    cases hmem
  · rw [parent?, get_of_size_le hle] at hparent
    cases hparent

/-- Old nodes stay where they are in a tree that grows. -/
theorem Child.grows (h : f.Child p i) (hgrows : f.Grows f.size g) : g.Child p i := by
  obtain ⟨hp, hi⟩ := h.lt_size
  refine ⟨?_, (hgrows.parent i hi).trans h.parent⟩
  have hmem : i ∈ (f.children p).filter (· < f.size) :=
    List.mem_filter.mpr ⟨h.mem, decide_eq_true hi⟩
  rw [← hgrows.children p hp] at hmem
  exact List.mem_of_mem_filter hmem

/-- Putting nodes somewhere changes parents and children only. -/
theorem get_append (f : Forest) (p : NodeId) (ns : List NodeId) (j : NodeId) :
    ∃ kids parent, (f.append p ns).get j = { f.get j with children := kids, parent := parent } := by
  have hmodify : ∀ (f : Forest) (i : NodeId) (a : Node → Node),
      (∀ m, ∃ kids parent, a m = { m with children := kids, parent := parent }) →
      ∃ kids parent, (f.modify i a).get j = { f.get j with children := kids, parent := parent } := by
    intro f i a ha
    rw [get_modify]
    split
    · exact ha _
    · exact ⟨_, _, rfl⟩
  have htrans : ∀ {m m' m'' : Node},
      (∃ kids parent, m' = { m with children := kids, parent := parent }) →
      (∃ kids parent, m'' = { m' with children := kids, parent := parent }) →
      ∃ kids parent, m'' = { m with children := kids, parent := parent } := by
    rintro m _ _ ⟨_, _, rfl⟩ ⟨kids, parent, rfl⟩
    exact ⟨kids, parent, rfl⟩
  have hdetach : ∀ (f : Forest) (i : NodeId),
      ∃ kids parent, (f.detach i).get j = { f.get j with children := kids, parent := parent } := by
    intro f i
    unfold detach
    split
    · exact ⟨_, _, rfl⟩
    · exact htrans (hmodify _ _ _ fun _ => ⟨_, _, rfl⟩) (hmodify _ _ _ fun _ => ⟨_, _, rfl⟩)
  unfold append
  induction ns generalizing f with
  | nil => exact ⟨_, _, rfl⟩
  | cons i ns ih =>
    refine htrans (htrans ?_ (hmodify _ _ _ fun _ => ⟨_, _, rfl⟩)) (ih _)
    exact htrans (hdetach f i) (hmodify _ _ _ fun _ => ⟨_, _, rfl⟩)

/-- A node that is put somewhere is the last child there. -/
theorem lastChild_append (hp : p < f.size) (hi : i < f.size) : (f.append p [i]).LastChild p i := by
  have happend : f.append p [i]
      = (f.adopt p i).modify p fun m => { m with children := m.children ++ [i] } := rfl
  have hparent : (f.adopt p i).parent? i = some p := by
    have hdetach : i < (f.detach i).size := by
      have hsize := size_adopt f p i
      rw [adopt, size_modify] at hsize
      omega
    rw [parent?, adopt, get_modify_self hdetach]
  constructor
  · rw [happend, children, get_modify_self (by simpa using hp)]
    exact List.getLast?_concat
  · rw [happend, parent?, get_modify]
    split
    · rename_i hpi
      obtain ⟨rfl, -⟩ := hpi
      exact hparent
    · exact hparent

/-- Nodes that are nowhere but among each other may be put under a node
    without a change for the others. -/
theorem get_append_apart {m : Nat} {ns : List NodeId} (hp : p < m)
    (hf : ∀ c, m ≤ c → ∀ q, f.parent? c = some q → m ≤ q ∨ q = p) (hns : AllNew m ns) {j : Nat}
    (hj : j < m) :
    (f.append p ns).parent? j = f.parent? j ∧
      (j ≠ p → (f.append p ns).children j = f.children j) := by
  unfold append
  induction ns generalizing f with
  | nil => exact ⟨rfl, fun _ => rfl⟩
  | cons i ns ih =>
    obtain ⟨hi, hns⟩ := List.forall_mem_cons.mp hns
    rw [List.foldl_cons]
    generalize hg : f.hang p i = g
    have hparents : ∀ c, g.parent? c = if i = c ∧ c < f.size then some p else f.parent? c := by
      intro c
      have hmodify : ∀ (f : Forest) (q c : NodeId) (kids : Node → List NodeId),
          (f.modify q fun m => { m with children := kids m }).parent? c = f.parent? c := by
        intro f q c kids
        rw [parent?, get_modify]
        split <;> rfl
      rw [← hg, hang, hmodify, adopt, parent?, get_modify]
      have hsize : (f.detach i).size = f.size := by
        have hsize := size_adopt f p i
        rwa [adopt, size_modify] at hsize
      rw [hsize]
      split
      · rfl
      · rename_i hic
        unfold detach
        split
        · rfl
        · rw [get_modify, size_modify, if_neg hic]
          exact hmodify _ _ _ _
    -- Detaching takes the node from a new node or from `p`, so `j` loses no child.
    have hkids : j ≠ p → g.children j = f.children j := by
      intro hjp
      have hji : i ≠ j := Nat.ne_of_gt (Nat.lt_of_lt_of_le hj hi)
      rw [← hg, hang, children, get_modify_of_ne _ hjp, adopt, get_modify_of_ne _ (Ne.symm hji)]
      unfold detach
      split
      · rfl
      · rename_i q hq
        have hjq : q ≠ j := by
          rcases hf i hi q hq with hq | rfl
          · exact Nat.ne_of_gt (Nat.lt_of_lt_of_le hj hq)
          · exact Ne.symm hjp
        rw [get_modify_of_ne _ (Ne.symm hji), get_modify_of_ne _ (Ne.symm hjq), children]
    obtain ⟨hparent, hrest⟩ := ih (f := g) (fun c hc q hq => by
      rw [hparents] at hq
      split at hq
      · exact .inr (Option.some.inj hq).symm
      · exact hf c hc q hq) hns
    refine ⟨hparent.trans ?_, fun hjp => (hrest hjp).trans (hkids hjp)⟩
    rw [hparents, if_neg fun h => Nat.ne_of_gt (Nat.lt_of_lt_of_le hj hi) h.1]

end Forest

/-! ## Handling a title -/

/-- The latest section of a depth among those opened, of which the latest is
    the first; the root has depth zero. -/
def latest (root : NodeId) (opened : List Opened) : Nat → Option NodeId
  | 0 => some root
  | k + 1 => (opened.find? (·.depth = k + 1)).map (·.node)

/-- The complaint about a title that is not admitted; a file without a name
    goes by the usual one. -/
def Title.misfit (title : Title) (usual : String) : Notice where
  level := .severe
  text := "Title level inconsistent:"
  source := if title.source = "" then usual else title.source
  line := title.heading.line
  literal := some (String.ofList title.heading.markup)

namespace ParseState

/-- The root and the open sections, from the root down. -/
def path (s : ParseState) : List NodeId := s.doc.root :: s.sections.reverse

/-- The styles and the open sections are the same, and the old part of the
    tree is. -/
structure SameOutline (s t : ParseState) : Prop where
  styles : t.styles = s.styles
  sections : t.sections = s.sections
  root : t.doc.root = s.doc.root
  forest : s.doc.forest.Grows s.doc.forest.size t.doc.forest

/-- A title opens a section.  It is admitted at the depth of the section,
    which is among the open ones or the next; deeper sections are closed, and
    the section becomes the last child of the latest one that is one level
    higher. -/
structure Accepts (s : ParseState) (opened : List Opened) (title : Title) (o : Opened)
    (t : ParseState) : Prop where
  admitted : Admitted s.styles s.sections.length title.heading.style o.depth t.styles
  inRange : 0 < o.depth ∧ o.depth - 1 ≤ s.sections.length
  path : t.path = s.path.take o.depth ++ [o.node]
  place : ∃ p, latest s.doc.root opened (o.depth - 1) = some p ∧
    t.doc.forest.LastChild p o.node
  shown : (t.doc.node o.node).kind = .division ∧
    (t.doc.node o.node).line = title.heading.line ∧ (t.doc.node o.node).source = title.source
  forest : s.doc.forest.Grows s.doc.forest.size t.doc.forest

/-- A title is refused: it is admitted at no depth, a complaint about it is
    raised where it stands, and the outline stays the same. -/
structure Refuses (s : ParseState) (title : Title) (t : ParseState) : Prop where
  unfit : ∀ k styles, ¬Admitted s.styles s.sections.length title.heading.style k styles
  same : s.SameOutline t
  raised : ∃ (d : Document) (msg p : NodeId), s.path.getLast? = some p ∧
    d.Says msg (title.misfit d.reporter.source) ∧
    t.doc.forest = d.forest.append p [msg] ∧ t.doc.forest.LastChild p msg ∧
    t.doc.reporter = (d.reporter.log (title.misfit d.reporter.source)).tell
      (title.misfit d.reporter.source)

/-- A message about a title stops the parser; if the title is not admitted,
    the outline stays the same all the same. -/
structure HaltsOn (s : ParseState) (title : Title) (e : Stop) (t : ParseState) : Prop where
  halted : ∃ h : Halt, e = .halted h ∧ t.doc.reporter.haltLevel ≤ h.level
  same : (∀ k styles, ¬Admitted s.styles s.sections.length title.heading.style k styles) →
    s.SameOutline t

/-- What the outline of a text is like: the styles are different, no more
    sections are open than styles are known, each section on the path is a
    child of the one before it, and they are the latest of their depths. -/
structure Outlined (s : ParseState) (opened : List Opened) : Prop where
  distinct : s.styles.Nodup
  covered : s.sections.length ≤ s.styles.length
  root : s.doc.root < s.doc.forest.size
  nested : s.path.IsChain s.doc.forest.Child
  latest : ∀ k ≤ s.sections.length, latest s.doc.root opened k = s.path[k]?

variable {s t : ParseState} {opened : List Opened} {title : Title} {o : Opened}

@[simp] theorem length_path (s : ParseState) : s.path.length = s.sections.length + 1 := by
  simp [path]

/-- The accepted section is on the path at its depth. -/
theorem Accepts.length (h : s.Accepts opened title o t) : t.sections.length = o.depth := by
  have hpath := congrArg List.length h.path
  have hle := h.admitted.le
  simp only [length_path, List.length_append, List.length_take, List.length_singleton] at hpath
  omega

/-- No step leads to another root. -/
theorem Accepts.root (h : s.Accepts opened title o t) : t.doc.root = s.doc.root := by
  have hhead := congrArg List.head? h.path
  obtain ⟨k, hk⟩ := Nat.exists_eq_succ_of_ne_zero (Nat.ne_of_gt h.admitted.pos)
  rw [hk] at hhead
  simpa [ParseState.path] using hhead

/-- Nothing has happened to the outline. -/
theorem Outlined.same (hs : s.Outlined opened) (h : s.SameOutline t) : t.Outlined opened := by
  have hpath : t.path = s.path := by rw [path, path, h.root, h.sections]
  refine ⟨h.styles ▸ hs.distinct, ?_, ?_, ?_, ?_⟩
  · rw [h.sections, h.styles]
    exact hs.covered
  · rw [h.root]
    exact Nat.lt_of_lt_of_le hs.root h.forest.size
  · rw [hpath]
    exact hs.nested.imp fun _ _ hchild => hchild.grows h.forest
  · rw [h.sections, h.root, hpath]
    exact hs.latest

/-- A section is opened. -/
theorem Outlined.accept (hs : s.Outlined opened) (h : s.Accepts opened title o t) :
    t.Outlined (o :: opened) := by
  obtain ⟨p, hp, hlast⟩ := h.place
  have hpos := h.admitted.pos
  have hle := h.admitted.le
  have hlength := h.length
  have hparent : (s.path.take o.depth).getLast? = some p := by
    rw [← hp, hs.latest _ (by omega), List.getLast?_take, if_neg (by omega),
      List.getElem?_eq_getElem (by simp; omega), Option.some_or]
  refine ⟨h.admitted.nodup hs.distinct, ?_, ?_, ?_, fun k hk => ?_⟩
  · rw [hlength]
    exact h.admitted.le_length
  · rw [h.root]
    exact Nat.lt_of_lt_of_le hs.root h.forest.size
  · rw [h.path]
    refine List.IsChain.append ?_ (List.isChain_singleton _) ?_
    · exact (hs.nested.take _).imp fun _ _ hchild => hchild.grows h.forest
    · intro q hq i hi
      obtain rfl : p = q := Option.some.inj (hparent.symm.trans hq)
      obtain rfl : o.node = i := Option.some.inj hi
      exact hlast.child
  · rw [h.path, h.root]
    rw [hlength] at hk
    have htake : (s.path.take o.depth).length = o.depth := by simp; omega
    rcases Nat.lt_or_eq_of_le hk with hlt | rfl
    · rw [List.getElem?_append_left (by omega), List.getElem?_take, if_pos hlt,
        ← hs.latest k (by omega)]
      cases k with
      | zero => rfl
      | succ k => simp [MarkupLint.latest, Nat.ne_of_gt hlt]
    · obtain ⟨k, hk⟩ := Nat.exists_eq_succ_of_ne_zero (Nat.ne_of_gt hpos)
      rw [List.getElem?_append_right (by omega), htake, hk]
      simp [MarkupLint.latest, hk]

end ParseState

/-! ## Handling titles one after the other -/

/-- The titles that are met on the way from one state to another, and the
    sections they open, the latest first. -/
inductive Processed (start : ParseState) : List Title → List Opened → ParseState → Prop
  | start : Processed start [] [] start
  | between {met : List Title} {opened : List Opened} {s t : ParseState}
      (before : Processed start met opened s) (same : s.SameOutline t) :
    Processed start met opened t
  | accepted {met : List Title} {opened : List Opened} {s t : ParseState} {title : Title}
      {o : Opened} (before : Processed start met opened s)
      (accepts : s.Accepts opened title o t) :
    Processed start (met ++ [title]) (o :: opened) t
  | refused {met : List Title} {opened : List Opened} {s t : ParseState} {title : Title}
      (before : Processed start met opened s) (refuses : s.Refuses title t) :
    Processed start (met ++ [title]) opened t

/-- Whatever titles are met, the outline is as it should be. -/
theorem Processed.outlined {start s : ParseState} {met : List Title} {opened : List Opened}
    (h : Processed start met opened s) (hstart : start.Outlined []) : s.Outlined opened := by
  induction h with
  | start => exact hstart
  | between before same ih => exact ih.same same
  | accepted before accepts ih => exact ih.accept accepts
  | refused before refuses ih => exact ih.same refuses.same

/-- Before any title, no section is open. -/
theorem ParseState.outlined_start (d : Document) (hroot : d.root < d.forest.size) :
    ParseState.Outlined { doc := d } [] where
  distinct := List.nodup_nil
  covered := Nat.le_refl _
  root := hroot
  nested := List.isChain_singleton _
  latest := by
    rintro _ (_ | _)
    rfl

end MarkupLint
