import MarkupLint.Lint
import MarkupLint.Proofs.History
import MarkupLint.Proofs.Parsing
import MarkupLint.Proofs.Passes

/-! # Dependencies are complete

    A lint reads files only after it has noted them among its dependencies,
    and what it gives does not show the time of day.  So in a world that has
    those files in the same way, it gives the same result, whatever the other
    files are and whatever the clock says. -/

namespace MarkupLint

open Discipline

variable {v w : World}

/-! ## Applying the passes -/

namespace Schedule

/-- The schedule with another document. -/
def on (s : Schedule) (d : Document) : Schedule := { s with document := d }

/-- Applying passes to a document, none of them a local one. -/
def applying (v w : World) (L : License) : Discipline Schedule where
  alike s t := ∃ d, s.document.Alike v w L d ∧ t = s.on d
  ready s := s.locals = []
  grown s t := s.document.Steady L t.document ∧ (s.locals = [] → t.locals = [])
  spoiled s := s.document.Spoiled v w
  stops _ _ := True
  keeps s t s' t' := ∃ xs, Document.Kept L xs s.document t.document s'.document t'.document
  parted s t s' e t' := Document.Parted L s.document t.document s'.document e t'.document
  alike_refl s := ⟨s.document, .refl _, rfl⟩
  refl _ := ⟨.refl _, id⟩
  trans hst htu := ⟨hst.1.trans htu.1, fun h => htu.2 (hst.2 h)⟩
  ready_grown hs hst := hst.2 hs
  spoiled_grown hs hst := hs.steady hst.1
  keeps_refl s t := ⟨[], .refl s.document t.document⟩
  keeps_trans := by
    rintro _ _ _ _ _ _ ⟨xs, h⟩ ⟨ys, h'⟩
    exact ⟨xs ++ ys, h.trans h'⟩
  parted_keeps := by
    rintro _ _ _ _ _ _ _ ⟨xs, h⟩ h'
    exact h'.kept h
  parted_grown := by
    rintro _ _ _ _ _ _ h ⟨hsteady, -⟩
    obtain ⟨zs, htold⟩ := hsteady.told
    exact h.told htold

variable {L : License}

/-- A standard pass is applied alike. -/
theorem contract_applyRequest (hstops : ∀ e, L.stops e) (r : Request) :
    Contract (applying v w L) Anything (applyRequest r) (applyRequest r) := by
  refine .get ?_
  rintro s _ ⟨d, like, rfl⟩ hlocals
  have hnone : ∀ s : Schedule, s.locals = [] → s.locals.get? r.kind = none := by
    rintro s hs
    rw [hs]
    rfl
  simp only [passFor, hnone s hlocals, hnone (s.on d) hlocals]
  cases Pass.ofKind? r.kind with
  | none => exact .throw fun _ => trivial
  | some p =>
    have hpart : onDocument (p.apply r.target r.options)
        = onPart document on (p.apply r.target r.options) := by
      funext s
      simp only [onDocument, onPart, on]
      cases p.apply r.target r.options s.document <;> rfl
    dsimp only
    rw [hpart]
    have hpass : Contract (passing v w L) Anything (p.apply r.target r.options)
        (p.apply r.target r.options) :=
      p.pass_apply r.target r.options (fun _ => hstops _) fun _ _ => .inl fun _ => hstops _
    refine hpass.zoom _ _ ?_ (fun _ => trivial) (fun _ hgrown => ⟨hgrown.2, id⟩) id
      (fun _ => trivial) ?_ id id
    · rintro s _ ⟨d, hd, rfl⟩
      exact hd
    · rintro s _ d e ⟨_, -, rfl⟩ hde
      exact ⟨e, hde, rfl⟩

theorem addAll_on (s : Schedule) (d : Document) (rs : List Request) :
    (s.on d).addAll rs = (s.addAll rs).on d := by
  induction rs generalizing s with
  | nil => rfl
  | cons r rs ih => exact ih (s.add r)

/-- Draining leaves the document as it was, but for the requests. -/
theorem document_drain (s : Schedule) :
    s.drain.document = { s.document with requests := [] } := by
  rw [drain, (addAll_rest _ _).1]
  rfl

/-- Draining adds the same requests. -/
theorem contract_drain (a : Schedule → Schedule) (hdocument : ∀ s, (a s).document = s.document)
    (hlocals : ∀ s, (a s).locals = s.locals) (hon : ∀ s d, a (s.on d) = (a s).on d) :
    Contract (applying v w L) Anything (modify fun s => (a s).drain)
      (modify fun s => (a s).drain) := by
  refine .modify ?_
  rintro s _ ⟨_, ⟨forest, halt, like, sooner⟩, rfl⟩ _
  refine ⟨⟨?_, fun h => ?_⟩, ⟨{ s.document.replant forest halt with requests := [] }, ?_, ?_⟩, [],
    .quiet ?_ ?_⟩
  · rw [document_drain, hdocument]
    exact ⟨rfl, rfl, rfl, ⟨[], .refl _⟩, fun _ h => h, fun _ h => nomatch h⟩
  · rw [drain, (addAll_rest _ _).2.2]
    exact (hlocals s).trans h
  · rw [document_drain, hdocument]
    exact .intro forest halt like sooner
  · rw [hon]
    show ((a s).on _).addAll (s.document.replant forest halt).requests
      = ((a s).on _ |>.addAll (a s).document.requests).on _
    rw [addAll_on, addAll_on, hdocument]
    rfl
  · rw [document_drain, hdocument]
  · rw [document_drain, hdocument]

/-- Takes the request that is next. -/
def taking : Step (Option Request) :=
  modifyGet fun s =>
    match s.take? with
    | none => (none, s)
    | some (r, s) => (some r, s)

/-- The same request is next. -/
theorem contract_taking :
    Contract (applying v w L) Anything (taking : Step (Option Request)) taking := by
  refine .modifyGet ?_
  rintro s _ ⟨d, like, rfl⟩ _
  simp only [take?, on]
  cases s.queue.pop? Queued.before with
  | none => exact ⟨⟨.refl _, id⟩, trivial, rfl, ⟨d, like, rfl⟩, [], .refl _ _⟩
  | some found => exact ⟨⟨.refl _, id⟩, trivial, rfl, ⟨d, like, rfl⟩, [], .refl _ _⟩

/-- Meets requests as a step, at most `count` of them. -/
def meet : Nat → Step Unit
  | 0 => do if (← get).pending = 0 then pure () else throw .exhausted
  | count + 1 => do
    match ← taking with
    | none => pure ()
    | some r =>
      mapStop (naming r.kind) (applyRequest r)
      modify fun s => (s.record r).drain
      meet count

theorem meet_zero (s : Schedule) :
    meet 0 s = if s.pending = 0 then .ok () s else .error .exhausted s := by
  have hget : (get : Step Schedule) s = .ok s s := rfl
  simp only [meet, Contract.bind_run, hget]
  split <;> rfl

theorem meet_succ (count : Nat) (s : Schedule) :
    meet (count + 1) s = match s.take? with
      | none => .ok () s
      | some (r, s) => match applyRequest r s with
        | .error e s => .error (naming r.kind e) s
        | .ok () s => meet count (s.record r).drain := by
  have htaking : taking s = match s.take? with
      | none => .ok none s
      | some (r, s) => .ok (some r) s := by
    have hrun : taking s = match (match s.take? with
        | none => (none, s)
        | some (r, s) => (some r, s) : Option Request × Schedule) with
      | (a, s) => .ok a s := rfl
    rw [hrun]
    cases s.take? <;> rfl
  rw [meet, Contract.bind_run, htaking]
  cases s.take? with
  | none => rfl
  | some found =>
    obtain ⟨r, t⟩ := found
    simp only [Contract.bind_run, mapStop]
    cases applyRequest r t <;> rfl

theorem runWithin_eq (count : Nat) (s : Schedule) :
    runWithin count s = outcome (meet count s) := by
  induction count generalizing s with
  | zero =>
    rw [meet_zero, runWithin]
    split <;> rfl
  | succ count ih =>
    rw [meet_succ, runWithin]
    cases s.take? with
    | none => rfl
    | some found =>
      obtain ⟨r, t⟩ := found
      dsimp only
      cases applyRequest r t with
      | error stop u => rfl
      | ok _ u => exact ih _

/-- By induction on the rounds, schedules that are alike are run alike. -/
theorem contract_meet (hstops : ∀ e, L.stops e) (count : Nat) :
    Contract (applying v w L) Anything (meet count) (meet count) := by
  induction count with
  | zero =>
    refine .get ?_
    rintro s _ ⟨d, -, rfl⟩ -
    exact .ite (fun _ => .pure trivial) fun _ => .throw fun _ => trivial
  | succ count ih =>
    refine .bind contract_taking fun next _ => ?_
    cases next with
    | none => exact .pure trivial
    | some r =>
      refine .bind (.mapStop (contract_applyRequest hstops r) (fun _ => trivial) ?_) fun _ _ => ?_
      · rintro _ _ _ _ _ ⟨parts, xs, x, ys, below, level, reached, rfl, first, second⟩
        exact ⟨parts, xs, x, ys, below, level, reached, rfl, first, second⟩
      · exact .bind (contract_drain (·.record r) (fun _ => rfl) (fun _ => rfl) fun _ _ => rfl)
          fun _ _ => ih

/-- Meets every request. -/
def meetAll (bound : Nat) : Step Unit := do
  modify drain
  meet bound

theorem run_eq (s : Schedule) : s.run = outcome (meetAll s.bound s) := runWithin_eq _ _

theorem contract_meetAll (hstops : ∀ e, L.stops e) (bound : Nat) :
    Contract (applying v w L) Anything (meetAll bound) (meetAll bound) :=
  .bind (contract_drain id (fun _ => rfl) (fun _ => rfl) fun _ _ => rfl) fun _ _ =>
    contract_meet hstops bound

theorem document_populateStandard (d : Document) :
    ({ document := d : Schedule }.populateStandard).document = d := by
  rw [populateStandard, populate_eq_addAll, (addAll_rest _ _).1]

theorem locals_populateStandard (d : Document) :
    ({ document := d : Schedule }.populateStandard).locals = [] := by
  rw [populateStandard, populate_eq_addAll, (addAll_rest _ _).2.2]

/-- What waits then: the passes that every document goes through. -/
theorem waiting_populateStandard (d : Document) :
    ({ document := d : Schedule }.populateStandard).Valid ∧
      ({ document := d : Schedule }.populateStandard).waiting
        = (Pass.reading ++ Pass.writing).map fun p => p.ask.of d := by
  have hnothing : waiting { document := d } = [] := congrArg Backlog.queue (backlog_new d)
  rw [populateStandard, populate_eq_addAll]
  refine ⟨(valid_new d).addAll _, ?_⟩
  rw [waiting_addAll (valid_new d), hnothing, List.nil_append, List.flatten_cons, List.flatten_cons,
    List.flatten_nil, List.append_nil, ← List.map_append, List.map_map]
  rfl

/-- The standard passes are asked for alike. -/
theorem populateStandard_alike {d e : Document} (h : d.Alike v w L e) :
    (applying v w L).alike ({ document := d : Schedule }.populateStandard)
      ({ document := e : Schedule }.populateStandard) := by
  cases h with
  | intro forest halt like sooner =>
    refine ⟨d.replant forest halt, ?_, ?_⟩
    · rw [document_populateStandard]
      exact .intro forest halt like sooner
    · rw [populateStandard, populateStandard, populate_eq_addAll, populate_eq_addAll]
      exact addAll_on { document := d } _ _

/-- The standard passes are applied alike to documents that are alike. -/
theorem run_compared (hstops : ∀ e, L.stops e) {d e : Document} (h : d.Alike v w L e) :
    ∃ x y, ({ document := d : Schedule }.populateStandard).run = outcome x ∧
      ({ document := e : Schedule }.populateStandard).run = outcome y ∧
      d.Steady L (endState x).document ∧
      Compare (applying v w L) ({ document := d : Schedule }.populateStandard)
        ({ document := e : Schedule }.populateStandard) x y := by
  have halike := populateStandard_alike h
  obtain ⟨hgrown, -, hcompare⟩ := contract_meetAll hstops
    ({ document := d : Schedule }.populateStandard).bound _ _ halike (locals_populateStandard d)
  rw [stateAfter_eq] at hgrown
  refine ⟨_, _, run_eq _, ?_, ?_, hcompare⟩
  · have hbound : ({ document := e : Schedule }.populateStandard).bound
        = ({ document := d : Schedule }.populateStandard).bound := by
      obtain ⟨_, ⟨forest, halt, -, -⟩, heq⟩ := halike
      rw [heq]
      rfl
    rw [run_eq, hbound]
  · have hsteady := hgrown.1
    rwa [document_populateStandard] at hsteady

end Schedule

/-! ## Linting -/

namespace Linter

/-- The linter in a world. -/
def within (l : Linter) (w : World) : Linter :=
  { l with env := { l.env with files := w.files, clock := w.clock } }

/-- A parsed document is finished alike, and only ever depends on more. -/
theorem finish_likewise (source : String) {x y : Except Stop Unit × Document}
    (hxy : x.1 = y.1) (halike : x.2.Alike v w .any y.2) :
    x.2.dependencies ⊆ (finish source x).dependencies ∧
      ((∃ path ∈ (finish source x).dependencies, v.files.read path ≠ w.files.read path) ∨
        finish source x = finish source y) := by
  obtain ⟨result, d⟩ := x
  obtain ⟨_, e⟩ := y
  obtain rfl : result = _ := hxy
  cases result with
  | error stop =>
    cases halike with
    | intro forest halt like => exact ⟨fun _ h => h, .inr rfl⟩
  | ok _ =>
    obtain ⟨x, y, hx, hy, hsteady, hcompare⟩ := Schedule.run_compared (fun _ => trivial) halike
    have hx' : (outcome x).2 = endState x := by cases x <;> rfl
    simp only [finish, hx, hy, hx']
    refine ⟨hsteady.dependencies, ?_⟩
    cases hcompare with
    | spoiled h => exact .inl h
    | parted _ h => exact h.parts.elim
    | agree hagree =>
      rcases hagree.cases with ⟨_, s, _, rfl, rfl, ⟨_, ⟨forest, halt, -, -⟩, rfl⟩, -⟩ |
        ⟨stop, s, _, rfl, rfl, ⟨_, ⟨forest, halt, -, -⟩, rfl⟩, -⟩
      · exact .inr rfl
      · exact .inr rfl

/-- The text of a document is processed alike. -/
theorem process_likewise (l : Linter) (source : String) (text : List Char)
    (constructs : Constructs) :
    (∃ path ∈ ((l.within v).process source text constructs).dependencies,
      v.files.read path ≠ w.files.read path) ∨
    (l.within v).process source text constructs = (l.within w).process source text constructs := by
  have hparse : ∀ u : World, (l.within u).process source text constructs
      = finish source ((l.newDocument source).parse
          (Surroundings.under { l.env with constructs := constructs : Environment }.surroundings u)
          text) :=
    fun _ => rfl
  rw [hparse, hparse]
  obtain ⟨-, -, hcompared⟩ := Document.parse_compared (v := v) (w := w) (L := .any)
    (.refl (l.newDocument source)) { l.env with constructs := constructs : Environment }.surroundings
    (License.free_any.covers _) trivial text
  cases hcompared with
  | spoiled h =>
    obtain ⟨path, hpath, hne⟩ := h
    have hkept := (finish_likewise (v := v) (w := w) source rfl (.refl _)).1 hpath
    exact .inl ⟨path, hkept, hne⟩
  | parted _ h => exact h.parts.elim
  | agree hend halike => exact (finish_likewise source hend halike).2

/-- A text is linted alike in a world that has its dependencies in the same
    way. -/
theorem lint_likewise (l : Linter) (text : List Char) (o : LintOptions)
    (h : ∀ path ∈ ((l.within v).lint text o).1.dependencies,
      v.files.read path = w.files.read path) :
    ((l.within v).lint text o).1 = ((l.within w).lint text o).1 := by
  let scope := Constructs.ignoring (l.ignoredDirectives o) (l.ignoredRoles o)
  rcases l.process_likewise (v := v) (w := w) o.source text
    (l.env.constructs.openScope scope.1 scope.2).2 with ⟨path, hpath, hne⟩ | hsame
  · exact absurd (h path hpath) hne
  · exact hsame

/-- **Dependencies are complete.**  A lint gives the same result, that is the
    same records, error and dependencies, in every world that has the files
    it depends on in the same way, with the same content or the same reason
    for which they cannot be read.  If it depends on none, it gives the same
    whatever the files are. -/
theorem dependencies_complete (l : Linter) (text : List Char) (o : LintOptions) (v : World) :
    (∀ w : World,
      (∀ path ∈ ((l.within v).lint text o).1.dependencies,
        v.files.read path = w.files.read path) →
      ((l.within w).lint text o).1 = ((l.within v).lint text o).1) ∧
    (((l.within v).lint text o).1.dependencies = [] →
      ∀ w : World, ((l.within w).lint text o).1 = ((l.within v).lint text o).1) := by
  have hcomplete : ∀ w : World,
      (∀ path ∈ ((l.within v).lint text o).1.dependencies,
        v.files.read path = w.files.read path) →
      ((l.within w).lint text o).1 = ((l.within v).lint text o).1 :=
    fun w h => (l.lint_likewise text o h).symm
  refine ⟨hcomplete, fun hnone w => hcomplete w ?_⟩
  rw [hnone]
  exact fun path hpath => nomatch hpath

/-- A text that includes a file, and one that does not, in two worlds that
    differ in another file and in their clocks. -/
theorem dependencies_complete_included :
    let l : Linter :=
      { env := { constructs := { directives := [("include", .standard .includeFile)] }
                 files := {}, clock := 0 } }
    let v : World := ⟨{ entries := [("a", .file [120]), ("b", .file [])] }, 0⟩
    let w : World := ⟨{ entries := [("a", .file [120])] }, 86400⟩
    let text := ".. include:: a".toList
    ((l.within v).lint text {}).1.dependencies = ["a"] ∧ v.files.read "b" ≠ w.files.read "b" ∧
      ((l.within w).lint text {}).1 = ((l.within v).lint text {}).1 ∧
      ((l.within w).lint "x".toList {}).1 = ((l.within v).lint "x".toList {}).1 := by
  intro l v w text
  have hincluded : ((l.within v).lint text {}).1.dependencies = ["a"] := by decide +kernel
  have hplain : ((l.within v).lint "x".toList {}).1.dependencies = [] := by decide +kernel
  refine ⟨hincluded, by decide +kernel, (dependencies_complete l text {} v).1 w ?_,
    (dependencies_complete l "x".toList {} v).2 hplain w⟩
  rw [hincluded]
  intro path hpath
  obtain rfl := List.mem_singleton.mp hpath
  decide +kernel

end Linter

end MarkupLint
