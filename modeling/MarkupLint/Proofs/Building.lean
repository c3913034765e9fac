import MarkupLint.Construct.Role
import MarkupLint.Proofs.Contract
import MarkupLint.Proofs.Notice

/-! # What building steps are held to

    The worlds of two runs differ in their files and their clocks.  A run is
    spoiled once the document depends on a file that the other world does
    not have in the same way.  Documents are alike if they are the same but
    for trees that are alike, the same trees if the clocks agree.

    For what a run may stop, what it may raise and which passes it may ask
    for is the matter of a `License`; with `License.any` it may do all of it.
    A license may also allow the runs to part: then the second document may
    halt sooner.  While the runs go together their reporters are
    told the same notices, all below the level at which the second document
    halts; and the runs part at the first notice that reaches it.

    Steps that prepare nodes `aside` leave the nodes before a place alone.
    Steps that are `hanging` nodes up may put the nodes that are new since a
    place under the old ones.  Steps that are `passing` over a parsed
    document may change its tree at will.  While a text is parsed, steps go
    on `growing` a document, and leave the open sections alone if they are
    told to `keep` them. -/

namespace MarkupLint

/-- What a run sees besides texts and names. -/
structure World where
  files : FileTree
  clock : Int

/-- The document depends on a file that the worlds do not have alike. -/
def Document.Spoiled (v w : World) (d : Document) : Prop :=
  ∃ path ∈ d.dependencies, v.files.read path ≠ w.files.read path

/-- What parsing a text looks at in the document that it goes to. -/
structure Origin where
  source : String
  tabWidth : Int

/-- What parsing a text looks at in a document. -/
def Document.origin (d : Document) : Origin := ⟨d.source, d.tabWidth⟩

theorem Document.origin_source (d : Document) : d.origin.source = d.source := rfl

theorem Document.origin_tabWidth (d : Document) : d.origin.tabWidth = d.tabWidth := rfl

/-- What the steps of a run are allowed.  A run may always stop at a message
    that reaches the halt level. -/
structure License where
  /-- The documents that it is for. -/
  about : Origin → Prop
  /-- The other reasons for which a step may stop. -/
  stops : Stop → Prop
  /-- The levels of messages. -/
  levels : Level → Prop
  /-- The passes that may be asked for. -/
  requests : Request → Prop
  /-- The second of two runs may halt where the first goes on. -/
  parts : Prop
  severity : ∀ s : Severity, levels s

namespace License

/-- Everything is allowed. -/
def any : License :=
  ⟨fun _ => True, fun _ => True, fun _ => True, fun _ => True, False, fun _ => trivial⟩

/-- Everything is allowed for documents of one origin. -/
def anyOf (o : Origin) : License := { any with about := (· = o) }

/-- For documents of one origin, everything is allowed but to stop for want
    of depth. -/
def deepEnough (o : Origin) : License :=
  ⟨(· = o), (· ≠ .exhausted), fun _ => True, fun _ => True, False, fun _ => trivial⟩

/-- For documents of one origin, everything is allowed but to stop for want
    of depth or to go on for ever. -/
def finishing (o : Origin) : License :=
  { deepEnough o with stops := fun e => e ≠ .exhausted ∧ e ≠ .endless }

/-- The reasons for which a run may stop in a document. -/
def Stops (L : License) (d : Document) (e : Stop) : Prop :=
  L.stops e ∨ ∃ h, e = .halted h ∧ d.reporter.haltLevel ≤ h.level ∧ L.levels h.level

theorem deepEnough_ne {o : Origin} {d : Document} {e : Stop} (h : (deepEnough o).Stops d e) :
    e ≠ .exhausted := by
  rcases h with hne | ⟨_, rfl, -⟩
  · exact hne
  · simp

theorem finishing_ne {o : Origin} {d : Document} {e : Stop} (h : (finishing o).Stops d e) :
    e ≠ .exhausted ∧ e ≠ .endless := by
  rcases h with hne | ⟨_, rfl, -⟩
  · exact hne
  · simp

theorem info (L : License) : L.levels .info := L.severity .info

theorem warning (L : License) : L.levels .warning := L.severity .warning

theorem error (L : License) : L.levels .error := L.severity .error

theorem severe (L : License) : L.levels .severe := L.severity .severe

end License

/-- Whatever halts a document that halts at the one level halts a document
    that halts at the other; they are the same level unless runs may part. -/
def License.Sooner (L : License) (usual halt : Level) : Prop :=
  halt = usual ∨ L.parts ∧ ∀ l, L.levels l → usual ≤ l → halt ≤ l

/-- The document with another tree and another halt level. -/
def Document.replant (d : Document) (f : Forest) (l : Level) : Document :=
  { d with forest := f, reporter := { d.reporter with haltLevel := l } }

/-- The documents are the same but for trees that are alike, and for a halt
    level that is reached sooner where runs may part. -/
inductive Document.Alike (v w : World) (L : License) (d : Document) : Document → Prop
  | intro (forest : Forest) (halt : Level) (like : d.forest.Alike (v.clock = w.clock) forest)
      (sooner : L.Sooner d.reporter.haltLevel halt) :
      Alike v w L d
        { d with forest := forest, reporter := { d.reporter with haltLevel := halt } }

/-- Both reporters were told the notices, and the second document halts at
    none of them. -/
structure Document.Kept (L : License) (xs : List Notice) (d e d' e' : Document) : Prop where
  below : ∀ x ∈ xs, L.levels x.level ∧ ¬e.reporter.haltLevel ≤ x.level
  first : Reporter.Told xs d.reporter d'.reporter
  second : Reporter.Told xs e.reporter e'.reporter

/-- The second document halts at a notice after some that both reporters were
    told, and the first one goes on. -/
inductive Document.Parted (L : License) (d e d' : Document) (stop : Stop) (e' : Document) : Prop
  | intro (parts : L.parts) (xs : List Notice) (x : Notice) (ys : List Notice)
      (below : ∀ y ∈ xs, L.levels y.level ∧ ¬e.reporter.haltLevel ≤ y.level)
      (level : L.levels x.level) (reached : e.reporter.haltLevel ≤ x.level)
      (stopped : stop = .halted x.halt)
      (first : Reporter.Told (xs ++ x :: ys) d.reporter d'.reporter)
      (second : Reporter.Told xs e.reporter e'.reporter)

/-- What no step changes, the notices that the reporter is told, the
    dependencies, which are only added to, and the passes that are asked for,
    which are allowed if they are new. -/
structure Document.Steady (L : License) (d e : Document) : Prop where
  root : e.root = d.root
  source : e.source = d.source
  tabWidth : e.tabWidth = d.tabWidth
  told : ∃ xs, Reporter.Told xs d.reporter e.reporter
  dependencies : d.dependencies ⊆ e.dependencies
  requests : ∀ r ∈ e.requests, r ∈ d.requests ∨ L.requests r

namespace Document

section

variable {v w : World} {L : License}

theorem Alike.refl (d : Document) : d.Alike v w L d :=
  .intro d.forest d.reporter.haltLevel (.refl _) (.inl rfl)

theorem Alike.forest {d e : Document} (h : d.Alike v w L e) :
    d.forest.Alike (v.clock = w.clock) e.forest := by
  cases h with
  | intro forest halt like => exact like

/-- Steps that leave the reporters alone. -/
theorem Kept.quiet {d e d' e' : Document} (hfirst : d'.reporter = d.reporter)
    (hsecond : e'.reporter = e.reporter) : Kept L [] d e d' e' where
  below := List.forall_mem_nil _
  first := hfirst ▸ .refl _
  second := hsecond ▸ .refl _

theorem Parted.parts {d e d' e' : Document} {stop : Stop} (h : Parted L d e d' stop e') :
    L.parts := by
  cases h
  assumption

theorem Kept.refl (d e : Document) : Kept L [] d e d e := .quiet rfl rfl

theorem Kept.trans {xs ys : List Notice} {d e d' e' d'' e'' : Document}
    (h : Kept L xs d e d' e') (h' : Kept L ys d' e' d'' e'') :
    Kept L (xs ++ ys) d e d'' e'' where
  below := List.forall_mem_append.mpr ⟨h.below, h.second.haltLevel ▸ h'.below⟩
  first := h.first.trans h'.first
  second := h.second.trans h'.second

/-- What both were told comes before they part. -/
theorem Parted.kept {xs : List Notice} {d e d' e' d'' e'' : Document} {stop : Stop}
    (h : Kept L xs d e d' e') (h' : Parted L d' e' d'' stop e'') : Parted L d e d'' stop e'' := by
  obtain ⟨parts, ys, x, zs, below, level, reached, stopped, first, second⟩ := h'
  have hlevel := h.second.haltLevel
  rw [hlevel] at reached below
  refine ⟨parts, xs ++ ys, x, zs, List.forall_mem_append.mpr ⟨h.below, below⟩, level, reached, stopped,
    ?_, h.second.trans second⟩
  rw [List.append_assoc]
  exact h.first.trans first

/-- The first document goes on after they parted. -/
theorem Parted.told {zs : List Notice} {d e d' d'' e' : Document} {stop : Stop}
    (h : Parted L d e d' stop e') (h' : Reporter.Told zs d'.reporter d''.reporter) :
    Parted L d e d'' stop e' := by
  obtain ⟨parts, xs, x, ys, below, level, reached, stopped, first, second⟩ := h
  refine ⟨parts, xs, x, ys ++ zs, below, level, reached, stopped, ?_, second⟩
  have := first.trans h'
  rwa [List.append_assoc, List.cons_append] at this

end

/-- What is watched is the same. -/
theorem Steady.same {L : License} {d e : Document} (root : e.root = d.root)
    (source : e.source = d.source) (tabWidth : e.tabWidth = d.tabWidth)
    (reporter : e.reporter = d.reporter) (dependencies : e.dependencies = d.dependencies)
    (requests : e.requests = d.requests) : d.Steady L e where
  root := root
  source := source
  tabWidth := tabWidth
  told := ⟨[], reporter ▸ .refl _⟩
  dependencies := by
    rw [dependencies]
    exact fun _ h => h
  requests := by
    rw [requests]
    exact fun _ h => .inl h

theorem Steady.haltLevel {L : License} {d e : Document} (h : d.Steady L e) :
    e.reporter.haltLevel = d.reporter.haltLevel := by
  obtain ⟨xs, htold⟩ := h.told
  exact htold.haltLevel

theorem Steady.refl {L : License} (d : Document) : d.Steady L d := .same rfl rfl rfl rfl rfl rfl

theorem Steady.origin {L : License} {d e : Document} (h : d.Steady L e) : e.origin = d.origin := by
  rw [Document.origin, h.source, h.tabWidth, Document.origin]

/-- Another tree changes nothing else. -/
theorem steady_forest {L : License} (d : Document) (f : Forest) :
    d.Steady L { d with forest := f } :=
  .same rfl rfl rfl rfl rfl rfl

/-- Being told of notices changes nothing else. -/
theorem Steady.of_told {L : License} (d : Document) {r : Reporter}
    (h : ∃ xs, Reporter.Told xs d.reporter r) : d.Steady L { d with reporter := r } where
  root := rfl
  source := rfl
  tabWidth := rfl
  told := h
  dependencies _ h := h
  requests _ h := .inl h

theorem Steady.trans {L : License} {d e f : Document} (hde : d.Steady L e) (hef : e.Steady L f) :
    d.Steady L f where
  root := hef.root.trans hde.root
  source := hef.source.trans hde.source
  tabWidth := hef.tabWidth.trans hde.tabWidth
  told := by
    obtain ⟨xs, hde⟩ := hde.told
    obtain ⟨ys, hef⟩ := hef.told
    exact ⟨xs ++ ys, hde.trans hef⟩
  dependencies _ h := hef.dependencies (hde.dependencies h)
  requests r hr := (hef.requests r hr).elim (hde.requests r) .inr

/-- A world does not differ from itself. -/
theorem not_spoiled (v : World) (d : Document) : ¬d.Spoiled v v := by
  rintro ⟨_, -, hne⟩
  exact hne rfl

theorem Spoiled.steady {v w : World} {L : License} {d e : Document} (h : d.Spoiled v w)
    (hde : d.Steady L e) : e.Spoiled v w := by
  obtain ⟨path, hmem, hne⟩ := h
  exact ⟨path, hde.dependencies hmem, hne⟩

end Document

/-- The states are the same but for documents that are alike. -/
def ParseState.Alike (v w : World) (L : License) (s t : ParseState) : Prop :=
  ∃ d, s.doc.Alike v w L d ∧ t = { s with doc := d }

/-- In one world, states that are alike are the same unless runs may part. -/
theorem ParseState.Alike.eq {v : World} {L : License} {s t : ParseState} (h : s.Alike v v L t)
    (hparts : ¬L.parts) : t = s := by
  obtain ⟨d, ⟨forest, halt, like, sooner⟩, rfl⟩ := h
  obtain rfl := like.eq rfl
  rcases sooner with rfl | ⟨hpart, -⟩
  · rfl
  · exact absurd hpart hparts

/-- The state after a step that goes on growing a document. -/
structure ParseState.Grown (L : License) (n : Nat) (keep : Prop) (s t : ParseState) : Prop where
  forest : s.doc.forest.Grows n t.doc.forest
  steady : s.doc.Steady L t.doc
  outline : keep → t.styles = s.styles ∧ t.sections = s.sections

/-- How far a step on a document may change its tree. -/
structure Bounds where
  /-- Trees from which a step may start. -/
  ready : Forest → Prop
  grown : Forest → Forest → Prop
  refl : ∀ f, grown f f
  trans : ∀ {f g h}, grown f g → grown g h → grown f h
  ready_grown : ∀ {f g}, ready f → grown f g → ready g

namespace Bounds

/-- Nodes are prepared from place `n` on, and the others left alone. -/
def aside (n : Nat) : Bounds where
  ready f := n ≤ f.size ∧ f.Apart n
  grown := Forest.Spares n
  refl := .refl n
  trans hfg hgh := hfg.trans hgh
  ready_grown hf hfg := ⟨Nat.le_trans hf.1 hfg.size, hfg.apart hf.2⟩

/-- Nodes that are new from place `n` on are hung up. -/
def hanging (n : Nat) : Bounds where
  ready f := n ≤ f.size ∧ f.Closed n
  grown := Forest.Grows n
  refl := .refl n
  trans hfg hgh := hfg.trans hgh
  ready_grown hf hfg := ⟨Nat.le_trans hf.1 hfg.size, hfg.closed hf.2⟩

/-- The tree is changed at will. -/
def free : Bounds where
  ready _ := True
  grown _ _ := True
  refl _ := trivial
  trans _ _ := trivial
  ready_grown _ _ := trivial

end Bounds

namespace Discipline

/-- Changing a document within bounds. -/
def building (v w : World) (L : License) (B : Bounds) : Discipline Document where
  alike := Document.Alike v w L
  ready d := B.ready d.forest
  grown d e := B.grown d.forest e.forest ∧ d.Steady L e
  spoiled := Document.Spoiled v w
  stops := L.Stops
  keeps d e d' e' := ∃ xs, Document.Kept L xs d e d' e'
  parted := Document.Parted L
  alike_refl := .refl
  refl d := ⟨B.refl _, .refl d⟩
  trans hde hef := ⟨B.trans hde.1 hef.1, hde.2.trans hef.2⟩
  ready_grown hd hde := B.ready_grown hd hde.1
  spoiled_grown hd hde := hd.steady hde.2
  keeps_refl d e := ⟨[], .refl d e⟩
  keeps_trans := by
    rintro _ _ _ _ _ _ ⟨xs, h⟩ ⟨ys, h'⟩
    exact ⟨xs ++ ys, h.trans h'⟩
  parted_keeps := by
    rintro _ _ _ _ _ _ _ ⟨xs, h⟩ h'
    exact h'.kept h
  parted_grown := by
    rintro _ _ _ _ _ _ h ⟨-, hsteady⟩
    obtain ⟨zs, htold⟩ := hsteady.told
    exact h.told htold

/-- Preparing nodes from place `n` on. -/
abbrev aside (v w : World) (L : License) (n : Nat) : Discipline Document :=
  building v w L (.aside n)

/-- Hanging nodes up that are new from place `n` on. -/
abbrev hanging (v w : World) (L : License) (n : Nat) : Discipline Document :=
  building v w L (.hanging n)

/-- Changing the tree at will. -/
abbrev passing (v w : World) (L : License) : Discipline Document := building v w L .free

/-- Steps on the document alone while a text is parsed. -/
def lift (D : Discipline Document) : Discipline ParseState where
  alike s t := ∃ d, D.alike s.doc d ∧ t = { s with doc := d }
  ready s := D.ready s.doc
  grown s t := D.grown s.doc t.doc ∧ t = { s with doc := t.doc }
  spoiled s := D.spoiled s.doc
  stops s := D.stops s.doc
  keeps s t s' t' := D.keeps s.doc t.doc s'.doc t'.doc
  parted s t s' e t' := D.parted s.doc t.doc s'.doc e t'.doc
  alike_refl s := ⟨s.doc, D.alike_refl _, rfl⟩
  refl s := ⟨D.refl _, rfl⟩
  trans := by
    rintro _ t u ⟨hst, ht⟩ ⟨htu, hu⟩
    refine ⟨D.trans hst htu, ?_⟩
    rw [hu, ht]
  ready_grown hs hst := D.ready_grown hs hst.1
  spoiled_grown hs hst := D.spoiled_grown hs hst.1
  keeps_refl _ _ := D.keeps_refl _ _
  keeps_trans h h' := D.keeps_trans h h'
  parted_keeps h h' := D.parted_keeps h h'
  parted_grown h hst := D.parted_grown h hst.1

/-- Growing a document from place `n` on. -/
def growing (v w : World) (L : License) (n : Nat) (keep : Prop) : Discipline ParseState where
  alike := ParseState.Alike v w L
  ready s := n ≤ s.doc.forest.size ∧ s.doc.forest.Closed n ∧ L.about s.doc.origin
  grown := ParseState.Grown L n keep
  spoiled s := s.doc.Spoiled v w
  stops s := L.Stops s.doc
  keeps s t s' t' := ∃ xs, Document.Kept L xs s.doc t.doc s'.doc t'.doc
  parted s t s' e t' := Document.Parted L s.doc t.doc s'.doc e t'.doc
  alike_refl s := ⟨s.doc, .refl _, rfl⟩
  refl _ := ⟨.refl n _, .refl _, fun _ => ⟨rfl, rfl⟩⟩
  trans hst htu :=
    ⟨hst.forest.trans htu.forest, hst.steady.trans htu.steady, fun hkeep =>
      ⟨(htu.outline hkeep).1.trans (hst.outline hkeep).1,
        (htu.outline hkeep).2.trans (hst.outline hkeep).2⟩⟩
  ready_grown hs hst :=
    ⟨Nat.le_trans hs.1 hst.forest.size, hst.forest.closed hs.2.1, by
      rw [hst.steady.origin]
      exact hs.2.2⟩
  spoiled_grown hs hst := hs.steady hst.steady
  keeps_refl s t := ⟨[], .refl s.doc t.doc⟩
  keeps_trans := by
    rintro _ _ _ _ _ _ ⟨xs, h⟩ ⟨ys, h'⟩
    exact ⟨xs ++ ys, h.trans h'⟩
  parted_keeps := by
    rintro _ _ _ _ _ _ _ ⟨xs, h⟩ h'
    exact h'.kept h
  parted_grown := by
    rintro _ _ _ _ _ _ h hgrown
    obtain ⟨zs, htold⟩ := hgrown.steady.told
    exact h.told htold

end Discipline

/-! ## From one discipline to another -/

namespace Contract

open Discipline

variable {v w : World} {L : License} {n : Nat} {keep : Prop} {α : Type}

/-- In one world, two steps under a contract are the same unless runs may
    part. -/
theorem run_eq {P : α → Prop} {x y : Parse α} (h : Contract (growing v v L n keep) P x y)
    (hparts : ¬L.parts) {s : ParseState} (hready : (growing v v L n keep).ready s) : x s = y s := by
  obtain ⟨-, -, hcompare⟩ := h s s ⟨s.doc, .refl _, rfl⟩ hready
  cases hcompare with
  | spoiled h => exact absurd h (Document.not_spoiled v _)
  | parted hy h => exact absurd (Document.Parted.parts h) hparts
  | agree h =>
    rcases h.cases with ⟨a, t, u, hx, hy, htogether⟩ | ⟨e, t, u, hx, hy, htogether⟩
    · rw [hx, hy, ParseState.Alike.eq htogether.alike hparts]
    · rw [hx, hy, ParseState.Alike.eq htogether.alike hparts]

/-- A step on the document, while a text is parsed. -/
theorem build {D : Discipline Document} {P : α → Prop} {x y : Build α} (h : Contract D P x y) :
    Contract D.lift P (Parse.build x) (Parse.build y) := by
  have hpart : ∀ x : Build α, Parse.build x = onPart ParseState.doc ({ · with doc := · }) x := by
    intro x
    funext s
    simp only [Parse.build, onPart]
    cases x s.doc <;> rfl
  rw [hpart, hpart]
  refine h.zoom _ _ ?_ id (fun _ hgrown => ⟨hgrown, rfl⟩) id id ?_ id id
  · rintro s _ ⟨d, hd, rfl⟩
    exact hd
  · rintro s _ d e ⟨_, -, rfl⟩ hde
    exact ⟨e, hde, rfl⟩

/-- A step that prepares nodes aside, wherever the new ones start, may be
    one of the steps that hang nodes up. -/
theorem hang {P : Nat → α → Prop} {x y : Build α} (h : ∀ m, Contract (aside v w L m) (P m) x y)
    (hP : ∀ m a, n ≤ m → P m a → P n a) : Contract (hanging v w L n) (P n) x y := by
  intro d e hde hready
  obtain ⟨hgrown, hends, hrest⟩ := h d.forest.size d e hde
    ⟨Nat.le_refl _, Forest.apart_of_size_le (Nat.le_refl _)⟩
  exact ⟨⟨.of_spares hready.1 (Nat.le_refl _) hgrown.1, hgrown.2⟩,
    hends.mono fun a ha => hP _ a hready.1 ha,
    hrest.imp (fun _ => id) (fun _ _ _ => id) fun _ _ h => ⟨h.alike, h.keeps⟩⟩

/-- Or one of those that pass over a parsed document. -/
theorem pass {P : Nat → α → Prop} {x y : Build α} (h : ∀ m, Contract (aside v w L m) (P m) x y) :
    Contract (passing v w L) Anything x y := by
  intro d e hde _
  obtain ⟨hgrown, hends, hrest⟩ := h d.forest.size d e hde
    ⟨Nat.le_refl _, Forest.apart_of_size_le (Nat.le_refl _)⟩
  exact ⟨⟨trivial, hgrown.2⟩, hends.mono fun _ _ => trivial,
    hrest.imp (fun _ => id) (fun _ _ _ => id) fun _ _ h => ⟨h.alike, h.keeps⟩⟩

/-- Hanging nodes up grows a document. -/
theorem grow {P : α → Prop} {x y : Parse α} (h : Contract (hanging v w L n).lift P x y) :
    Contract (growing v w L n keep) P x y := by
  intro s t hst hready
  obtain ⟨hgrown, hends, hrest⟩ := h s t hst ⟨hready.1, hready.2.1⟩
  refine ⟨⟨hgrown.1.1, hgrown.1.2, fun _ => ?_⟩, hends,
    hrest.imp (fun _ => id) (fun _ _ _ => id) fun _ _ h => ⟨h.alike, h.keeps⟩⟩
  rw [hgrown.2]
  exact ⟨rfl, rfl⟩

/-- Nodes prepared aside while a text is parsed. -/
theorem settle {P : Nat → α → Prop} {x y : Parse α}
    (h : ∀ m, Contract (aside v w L m).lift (P m) x y)
    (hP : ∀ m a, n ≤ m → P m a → P n a) : Contract (growing v w L n keep) (P n) x y := by
  intro s t hst hready
  obtain ⟨hgrown, hends, hrest⟩ := h s.doc.forest.size s t hst
    ⟨Nat.le_refl _, Forest.apart_of_size_le (Nat.le_refl _)⟩
  refine ⟨⟨.of_spares hready.1 (Nat.le_refl _) hgrown.1.1, hgrown.1.2, fun _ => ?_⟩,
    hends.mono fun a ha => hP _ a hready.1 ha,
    hrest.imp (fun _ => id) (fun _ _ _ => id) fun _ _ h => ⟨h.alike, h.keeps⟩⟩
  rw [hgrown.2]
  exact ⟨rfl, rfl⟩

end Contract

/-! ## Steps on documents -/

/-- The nodes are all new. -/
def AllNew (n : Nat) (ns : List NodeId) : Prop := ∀ i ∈ ns, n ≤ i

namespace AllNew

variable {n : Nat} {i : NodeId} {ms ns : List NodeId}

theorem nil (n : Nat) : AllNew n [] := fun _ h => by cases h

theorem cons (hi : n ≤ i) (hns : AllNew n ns) : AllNew n (i :: ns) :=
  List.forall_mem_cons.mpr ⟨hi, hns⟩

theorem one (hi : n ≤ i) : AllNew n [i] := .cons hi (.nil n)

theorem append (hms : AllNew n ms) (hns : AllNew n ns) : AllNew n (ms ++ ns) :=
  List.forall_mem_append.mpr ⟨hms, hns⟩

theorem flatten {nss : List (List NodeId)} (h : ∀ ns ∈ nss, AllNew n ns) :
    AllNew n nss.flatten := by
  intro i hi
  obtain ⟨ns, hns, hmem⟩ := List.mem_flatten.mp hi
  exact h ns hns i hmem

theorem mono {m : Nat} (hnm : n ≤ m) (h : AllNew m ns) : AllNew n ns :=
  fun i hi => Nat.le_trans hnm (h i hi)

end AllNew

namespace Build

open Discipline

variable {v w : World} {L : License} {B : Bounds} {n : Nat} {α : Type} {P : α → Prop}

/-! ### Within any bounds -/

theorem contract_node {i : NodeId} {f g : Node → Build α}
    (h : ∀ a b, a.Alike (v.clock = w.clock) b → Contract (building v w L B) P (f a) (g b)) :
    Contract (building v w L B) P (node i >>= f) (node i >>= g) := by
  refine .get (f := fun d => f (d.node i)) (g := fun d => g (d.node i)) fun d e hde _ => ?_
  exact h _ _ (hde.forest.node i)

theorem contract_asText {i : NodeId} {f g : String → Build α}
    (h : ∀ a b, Shade.of a = Shade.of b → (v.clock = w.clock → a = b) →
      Contract (building v w L B) P (f a) (g b)) :
    Contract (building v w L B) P (asText i >>= f) (asText i >>= g) := by
  refine .get (f := fun d => f (d.forest.asText i)) (g := fun d => g (d.forest.asText i))
    fun d e hde _ => ?_
  refine h _ _ (hde.forest.shade_asText i).symm fun hclock => ?_
  rw [hde.forest.eq hclock]

/-- Changing parts of the document other than its tree and its reporter,
    depending on such parts only. -/
theorem contract_modify (g : Document → Document)
    (hg : ∀ (d : Document) (f : Forest) (l : Level), g (d.replant f l) = (g d).replant f l)
    (hreporter : ∀ d : Document, (g d).reporter = d.reporter)
    (hsteady : ∀ d : Document, d.Steady L (g d)) :
    Contract (building v w L B) Anything (modify g) (modify g) := by
  refine .modify ?_
  rintro d _ ⟨forest, halt, hlike, hsooner⟩ _
  have hforest : (g d).forest = d.forest := by
    have hsame : g d = (g d).replant d.forest d.reporter.haltLevel :=
      hg d d.forest d.reporter.haltLevel
    rw [hsame]
    rfl
  refine ⟨⟨?_, hsteady d⟩, ?_, [], .quiet (hreporter _) (hreporter _)⟩
  · rw [hforest]
    exact B.refl _
  · show (g d).Alike v w L (g (d.replant forest halt))
    rw [hg]
    exact .intro forest halt (by rwa [hforest]) (by rwa [hreporter])

/-- Documents whose trees are changed in a way that keeps them alike. -/
theorem together_of_forest {d : Document} {f g : Forest} {forest : Forest} {halt : Level}
    (hlike : f.Alike (v.clock = w.clock) g)
    (hsooner : L.Sooner d.reporter.haltLevel halt) :
    Together (building v w L B) d (d.replant forest halt) { d with forest := f }
      (d.replant g halt) :=
  ⟨.intro g halt hlike hsooner, [], .quiet rfl rfl⟩

theorem contract_edit {a b : Forest → Forest}
    (hgrown : ∀ f, B.ready f → B.grown f (a f))
    (hlike : ∀ {f g : Forest}, f.Alike (v.clock = w.clock) g →
      (a f).Alike (v.clock = w.clock) (b g)) :
    Contract (building v w L B) Anything (edit a) (edit b) := by
  refine .modify ?_
  rintro d _ ⟨forest, halt, hforest, hsooner⟩ hready
  exact ⟨⟨hgrown _ hready, d.steady_forest _⟩, together_of_forest (hlike hforest) hsooner⟩

theorem contract_element {P : NodeId → Prop} {a b : Node} (hab : a.Alike (v.clock = w.clock) b)
    {children : List NodeId}
    (hgrown : ∀ f, B.ready f → B.grown f ((f.alloc a).2.append f.size children))
    (hP : ∀ f, B.ready f → P f.size) :
    Contract (building v w L B) P (element a children) (element b children) := by
  refine .modifyGet ?_
  rintro d _ ⟨forest, halt, hlike, hsooner⟩ hready
  have hsame : (d.forest.alloc a).1 = (forest.alloc b).1 := hlike.size.symm
  refine ⟨⟨hgrown _ hready, d.steady_forest _⟩, hP _ hready, hsame, ?_⟩
  dsimp only
  rw [hsame]
  exact together_of_forest ((hlike.alloc hab).append _ children) hsooner

/-! ### Preparing nodes -/

theorem aside_element {a b : Node} (hab : a.Alike (v.clock = w.clock) b) {children : List NodeId}
    (hchildren : AllNew n children) :
    Contract (aside v w L n) (n ≤ ·) (element a children) (element b children) := by
  refine contract_element hab ?_ fun _ hready => hready.1
  rintro f ⟨hsize, hapart⟩
  have halloc : f.Spares n (f.alloc a).2 := .alloc hsize a
  exact halloc.trans (.append (halloc.apart hapart) hsize hchildren)

theorem aside_leaf (text : String) : Contract (aside v w L n) (n ≤ ·) (leaf text) (leaf text) :=
  aside_element (.refl _) (.nil n)

/-- A leaf whose text depends on the clock. -/
theorem aside_leaf_shade {a b : String} (h : Shade.of a = Shade.of b)
    (hsame : v.clock = w.clock → a = b) :
    Contract (aside v w L n) (n ≤ ·) (leaf a) (leaf b) :=
  aside_element (.intro b [] (fun _ => h) (fun hne => absurd rfl hne) rfl
    fun hclock => ⟨(hsame hclock).symm, rfl⟩) (.nil n)

theorem aside_textElement_shade (a : Node) {s t : String} (h : Shade.of s = Shade.of t)
    (hsame : v.clock = w.clock → s = t) :
    Contract (aside v w L n) (n ≤ ·) (textElement a s) (textElement a t) := by
  unfold textElement
  have hempty : s = "" ↔ t = "" := by
    rw [← Shade.of_eq_empty_iff, ← Shade.of_eq_empty_iff, h]
  by_cases hs : s = ""
  · rw [if_pos hs, if_pos (hempty.mp hs)]
    exact aside_element (.refl a) (.nil n)
  · rw [if_neg hs, if_neg fun ht => hs (hempty.mpr ht)]
    exact .bind (aside_leaf_shade h hsame) fun i hi => aside_element (.refl a) (.one hi)

theorem aside_textElement (a : Node) (text : String) :
    Contract (aside v w L n) (n ≤ ·) (textElement a text) (textElement a text) :=
  aside_textElement_shade a rfl fun _ => rfl

theorem aside_update {i : NodeId} (hi : n ≤ i) {g : Node → Node} (hplain : Node.Plain g)
    (hkids : ∀ a, (g a).children = a.children) (hparent : ∀ a, (g a).parent = a.parent) :
    Contract (aside v w L n) Anything (update i g) (update i g) := by
  refine contract_edit ?_ fun h => h.modify_plain i hplain
  rintro f ⟨-, hapart⟩
  refine .modify hi ?_ ?_
  · intro _ c hc
    rw [hkids] at hc
    exact hapart.1 i hi c hc
  · intro _ p hp
    rw [hparent] at hp
    exact hapart.2 i hi p hp

theorem aside_setAttr {i : NodeId} (hi : n ≤ i) (key value : String) :
    Contract (aside v w L n) Anything (setAttr i key value) (setAttr i key value) := by
  refine contract_edit ?_ fun h =>
    h.modify fun hab _ => hab.setAttr rfl fun _ => rfl
  rintro f ⟨-, hapart⟩
  refine .modify hi ?_ ?_
  · exact fun _ c hc => hapart.1 i hi c hc
  · exact fun _ p hp => hapart.2 i hi p hp

/-! ### Hanging nodes up -/

/-- The children of a new node are new. -/
theorem hang_node {i : NodeId} {f g : Node → Build α}
    (h : ∀ a b, (n ≤ i → AllNew n a.children) → a.Alike (v.clock = w.clock) b →
      Contract (hanging v w L n) P (f a) (g b)) :
    Contract (hanging v w L n) P (node i >>= f) (node i >>= g) := by
  refine .get (f := fun d => f (d.node i)) (g := fun d => g (d.node i)) fun d e hde hready => ?_
  exact h _ _ (fun hi => hready.2 i hi) (hde.forest.node i)

theorem hang_element {a b : Node} (hab : a.Alike (v.clock = w.clock) b) {children : List NodeId}
    (hchildren : AllNew n children) :
    Contract (hanging v w L n) (n ≤ ·) (element a children) (element b children) :=
  contract_element hab
    (fun _ hready => (Forest.Grows.alloc hready.1 a).trans (.append _ hchildren))
    fun _ hready => hready.1

theorem hang_append (p : NodeId) {ns : List NodeId} (hns : AllNew n ns) :
    Contract (hanging v w L n) Anything (append p ns) (append p ns) :=
  contract_edit (fun _ _ => .append p hns) fun h => h.append p ns

theorem hang_update (i : NodeId) {g : Node → Node} (hplain : Node.Plain g)
    (hkids : ∀ a, (g a).children = a.children) (hparent : ∀ a, (g a).parent = a.parent) :
    Contract (hanging v w L n) Anything (update i g) (update i g) :=
  contract_edit
    (fun _ _ => Forest.Grows.modify_plain i (fun a => (hplain a "" []).2.1) hparent hkids)
    fun h => h.modify_plain i hplain

theorem hang_setAttr (i : NodeId) (key : String) {a b : String}
    (hab : Node.dim (key, a) = Node.dim (key, b)) (hsame : v.clock = w.clock → b = a) :
    Contract (hanging v w L n) Anything (setAttr i key a) (setAttr i key b) :=
  contract_edit
    (fun _ _ => Forest.Grows.modify_plain (a := (·.setAttr key a)) i (fun _ => rfl) (fun _ => rfl)
      fun _ => rfl)
    fun h => h.modify fun hmn _ => hmn.setAttr hab hsame

/-! ### Passing -/

theorem pass_edit {a b : Forest → Forest}
    (hlike : ∀ {f g : Forest}, f.Alike (v.clock = w.clock) g → (a f).Alike (v.clock = w.clock) (b g)) :
    Contract (passing v w L) Anything (edit a) (edit b) :=
  contract_edit (fun _ _ => trivial) hlike

theorem pass_update (i : NodeId) {g : Node → Node} (hplain : Node.Plain g) :
    Contract (passing v w L) Anything (update i g) (update i g) :=
  pass_edit fun h => h.modify_plain i hplain

theorem pass_element {a b : Node} (hab : a.Alike (v.clock = w.clock) b) (children : List NodeId) :
    Contract (passing v w L) Anything (element a children) (element b children) :=
  contract_element hab (fun _ _ => trivial) fun _ _ => trivial

end Build

end MarkupLint
