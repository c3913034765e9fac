import Mathlib.Data.List.Forall2
import MarkupLint.Proofs.Serial

/-! # Results in order

    Files may be linted in any order, but the results come in the order of
    the files: `Batch.performs_in_order` says which files have one, what is
    counted, and what the hooks are told. -/

namespace MarkupLint

namespace Batch

/-! ## How files come out -/

/-- How a file comes out of a batch: it was linted, and the hooks agreed to it
    before and after; or it has no result, since the batch stopped. -/
inductive Settled (b : Batch) (o : BatchOptions) (stopped : Prop) (path : String) :
    Option FileResult → Prop
  | linted {f : FileResult} {r : LintResult} (same : f.path = path) (lints : b.Lints o path r)
      (records : f.records = r.records) (agreed : b.Agreed (.beforeFile path))
      (agreedAfter : b.Agreed (.afterFile path)) : Settled b o stopped path (some f)
  | missing (stop : stopped) : Settled b o stopped path none

theorem Settled.imp {b : Batch} {o : BatchOptions} {stopped stopped' : Prop} {path : String}
    {found : Option FileResult} (h : b.Settled o stopped path found) (himp : stopped → stopped') :
    b.Settled o stopped' path found := by
  cases h with
  | linted same lints records agreed agreedAfter =>
    exact .linted same lints records agreed agreedAfter
  | missing stop => exact .missing (himp stop)

/-- Why a batch stops: a hook objects to its beginning or to its end, a file
    fails, or it is cancelled. -/
inductive Blamed (b : Batch) (o : BatchOptions) (cancelled : Bool) (paths : List String) :
    BatchError → Prop
  | objected {p : HookPoint} {reason : String} (told : p = .beforeLint paths ∨ p = .afterLint)
      (objects : (p.announce b.hooks).2 = some reason) :
    Blamed b o cancelled paths (.objection reason)
  | failed {path : String} {e : BatchError} (mem : path ∈ paths) (fails : b.Fails o path e) :
    Blamed b o cancelled paths e
  | cancelled (late : cancelled = true) : Blamed b o cancelled paths .cancelled

/-- Nothing stands in the way of a batch: no hook objects to anything, and
    every file can be linted. -/
structure Untroubled (b : Batch) (o : BatchOptions) (paths : List String) : Prop where
  opening : b.Agreed (.beforeLint paths)
  before : ∀ path ∈ paths, b.Agreed (.beforeFile path)
  after : ∀ path ∈ paths, b.Agreed (.afterFile path)
  closing : b.Agreed .afterLint
  lints : ∀ path ∈ paths, ∃ r, b.Lints o path r

/-- A file that can be linted and to which the hooks agree does not fail. -/
theorem Lints.not_fails {b : Batch} {o : BatchOptions} {path : String} {r : LintResult}
    (h : b.Lints o path r) (hbefore : b.Agreed (.beforeFile path))
    (hafter : b.Agreed (.afterFile path)) {e : BatchError} : ¬b.Fails o path e := by
  obtain ⟨content, hread, hmade, hclean⟩ := h
  rintro (⟨told, objects⟩ | ⟨unread⟩ | ⟨readable, unmade⟩ | ⟨readable, made, unclean⟩)
  · rcases told with rfl | rfl
    · cases hbefore.symm.trans objects
    · cases hafter.symm.trans objects
  · cases hread.symm.trans unread
  · cases hread.symm.trans readable
    cases hmade.symm.trans unmade
  · cases hread.symm.trans readable
    cases hmade.symm.trans made
    cases hclean.symm.trans unclean

/-- If nothing stands in the way, there is nothing to blame. -/
theorem Untroubled.not_blamed {b : Batch} {o : BatchOptions} {paths : List String}
    (h : b.Untroubled o paths) {e : BatchError} : ¬b.Blamed o false paths e := by
  rintro (⟨told, objects⟩ | ⟨mem, fails⟩ | ⟨late⟩)
  · rcases told with rfl | rfl
    · cases h.opening.symm.trans objects
    · cases h.closing.symm.trans objects
  · obtain ⟨r, hlints⟩ := h.lints _ mem
    exact hlints.not_fails (h.before _ mem) (h.after _ mem) fails
  · cases late

end Batch

namespace Crew

variable {κ : Type} {paths : List String} {stages : List Stage} {R : String → Stage → Prop}

theorem Aligned.cons_inv {path : String} {paths : List String}
    (h : Aligned (path :: paths) stages R) :
    ∃ st rest, stages = st :: rest ∧ R path st ∧ Aligned paths rest R := by
  cases stages with
  | nil => cases h.1
  | cons st rest =>
    exact ⟨st, rest, rfl, h.2 0 path st rfl rfl, Nat.succ.inj h.1, fun i => h.2 (i + 1)⟩

/-- Each file comes out as its worker does. -/
theorem Aligned.settled {S : String → Option FileResult → Prop} (h : Aligned paths stages R)
    (hR : ∀ st ∈ stages, ∀ path, R path st → S path st.result?) :
    List.Forall₂ S paths (stages.map Stage.result?) := by
  induction paths generalizing stages with
  | nil =>
    rw [List.length_eq_zero_iff.mp h.1]
    exact .nil
  | cons path paths ih =>
    obtain ⟨st, rest, rfl, hst, hrest⟩ := h.cons_inv
    exact .cons (hR st List.mem_cons_self path hst)
      (ih hrest fun st hst => hR st (List.mem_cons_of_mem _ hst))

/-- The hits are the results that were found in the cache. -/
theorem tally_eq_countP (stages : List Stage) :
    tally stages = (stages.filterMap Stage.result?).countP (·.cached) := by
  induction stages with
  | nil => rfl
  | cons st stages ih =>
    rw [tally, ih, List.filterMap_cons]
    cases st with
    | done f =>
      simp only [Stage.tally, Stage.result?, List.countP_cons]
      exact Nat.add_comm _ _
    | _ => exact Nat.zero_add _

end Crew

namespace Batch

variable {κ : Type} [ResultCache κ] {b : Batch} {o : BatchOptions} {paths : List String}
  {cancelled : Bool} {c : κ} {genuine : String → List Record → Prop} {w : Crew κ}

omit [ResultCache κ] in
/-- The results are those of the files that have one. -/
theorem results_eq (w : Crew κ) : w.results = (w.stages.map Stage.result?).filterMap id := by
  rw [List.filterMap_map]
  rfl

/-- At the end each file is settled. -/
theorem settled_of_sound (hw : Crew.Sound b o paths cancelled c genuine w) (hended : w.Ended) :
    List.Forall₂ (b.Settled o (w.error ≠ none)) paths (w.stages.map Stage.result?) := by
  refine hw.workers.settled fun st hst path hstands => ?_
  have hend := hended st hst
  have hfits := hstands.fits
  cases st with
  | done f =>
    obtain ⟨⟨hbefore, hafter⟩, hpath, r, hlints, hrecords⟩ := hfits
    exact .linted hpath hlints hrecords hbefore hafter
  | failed e =>
    exact .missing (hstands.reason e rfl).1
  | _ => cases hend

/-- If nothing stopped the batch, each file has its result. -/
theorem paths_of_settled {paths : List String} {found : List (Option FileResult)}
    (h : List.Forall₂ (b.Settled o False) paths found) :
    (found.filterMap id).map (·.path) = paths := by
  induction h with
  | nil => rfl
  | cons hsettled _ ih =>
    cases hsettled with
    | linted same => exact congrArg₂ _ same ih
    | missing stop => exact stop.elim

/-- The results are those of some of the files, in order. -/
theorem sublist_of_settled {stopped : Prop} {paths : List String}
    {found : List (Option FileResult)} (h : List.Forall₂ (b.Settled o stopped) paths found) :
    ((found.filterMap id).map (·.path)).Sublist paths := by
  induction h with
  | nil => exact .slnil
  | cons hsettled _ ih =>
    cases hsettled with
    | linted same =>
      subst same
      exact ih.cons_cons _
    | missing => exact ih.cons _

/-- If there are as many results as files, no file failed. -/
theorem not_fails_of_settled {stopped : Prop} {paths : List String}
    {found : List (Option FileResult)} (h : List.Forall₂ (b.Settled o stopped) paths found)
    (hall : paths.length ≤ (found.filterMap id).length) {path : String} (hpath : path ∈ paths)
    {e : BatchError} : ¬b.Fails o path e := by
  induction h with
  | nil => cases hpath
  | @cons first settled paths found hsettled hrest ih =>
    have hfewer := (sublist_of_settled hrest).length_le
    rw [List.length_map] at hfewer
    cases hsettled with
    | linted same lints records agreed agreedAfter =>
      rcases List.mem_cons.mp hpath with rfl | hpath
      · exact lints.not_fails agreed agreedAfter
      · exact ih (Nat.le_of_succ_le_succ hall) hpath
    | missing =>
      have hlength : (found.filterMap id).length < (first :: paths).length := Nat.lt_succ_of_le hfewer
      exact absurd hall (Nat.not_le_of_lt hlength)

/-- A crew that came to its end with no reason to stop has a result for every
    file, and no file failed. -/
theorem complete_of_sound (hw : Crew.Sound b o paths cancelled c genuine w) (hended : w.Ended)
    (hcalm : w.error = none) :
    List.Forall₂ (b.Settled o False) paths (w.stages.map Stage.result?) ∧
      w.results.map (·.path) = paths ∧ ∀ path ∈ paths, ∀ e, ¬b.Fails o path e := by
  have hsettled : List.Forall₂ (b.Settled o False) paths (w.stages.map Stage.result?) :=
    (settled_of_sound hw hended).imp fun _ _ hsettled => hsettled.imp fun hstop => hstop hcalm
  have hpaths : w.results.map (·.path) = paths := by
    rw [results_eq]
    exact paths_of_settled hsettled
  refine ⟨hsettled, hpaths, fun path hpath e => not_fails_of_settled hsettled ?_ hpath⟩
  have hlength := congrArg List.length hpaths
  rw [List.length_map] at hlength
  rw [← results_eq, hlength]

/-- Files of one batch whose keys have the same parts are linted alike. -/
theorem keeps_round (hkeys : KeysApart [⟨b, o, paths⟩]) :
    Crew.Keeps b o paths (Genuine [⟨b, o, paths⟩]) := by
  refine keeps_genuine hkeys ?_ (r := ⟨b, o, paths⟩) (List.mem_singleton_self _)
  intro r hr r' hr' path content path' content' made hparts hmade _
  obtain rfl := List.mem_singleton.mp hr
  obtain rfl := List.mem_singleton.mp hr'
  obtain ⟨rfl, rfl⟩ := BatchOptions.keyParts_injective hparts
  exact hmade

/-- **A batch gives what linting its files one by one gives, in their order.**
    Let the cache be empty at the start.  Whatever the order in which the
    workers move, the results are just those that workers added once their
    file was linted and the hooks had agreed to it, in the order of the files,
    each with the records that linting this file alone gives.  If the batch
    stopped there is a reason for it.  If nothing stands in the way, there is a
    result for every file, the hits are counted, and each hook is told once of
    the end; if a hook objects to the beginning, a file fails or has no result,
    the batch stops with a reason, and no hook is told of the end. -/
theorem performs_in_order {s : BatchState κ} {results : List FileResult}
    {error : Option BatchError} (hfaithful : ResultCache.Faithful c)
    (hkeys : KeysApart [⟨b, o, paths⟩])
    (h : b.Performs o cancelled c paths s results error) :
    (∃ found, results = found.filterMap id ∧
      List.Forall₂ (b.Settled o (error ≠ none)) paths found) ∧
    s.results.Perm results ∧
    (results.map (·.path)).Sublist paths ∧
    (∀ e, error = some e → b.Blamed o cancelled paths e) ∧
    (b.Untroubled o paths → cancelled = false →
      error = none ∧ results.map (·.path) = paths ∧ s.hits = results.countP (·.cached) ∧
        s.endings = b.hooks.map fun hook => ⟨hook.name, .afterLint⟩) ∧
    (¬b.Agreed (.beforeLint paths) ∨ (∃ path ∈ paths, ∃ e, b.Fails o path e) ∨
        results.length < paths.length →
      error ≠ none ∧ s.endings = []) := by
  have hsound : ∀ {s : BatchState κ} {w : Crew κ} {u : Unit},
      b.opening o paths { cache := c } = .ok u s →
      Crew.Works b o paths cancelled (.start s paths) w →
      Crew.Sound b o paths cancelled c (Genuine [⟨b, o, paths⟩]) w := fun begun worked =>
    sound_of_works [] hfaithful nofun (keeps_round hkeys) begun worked
  -- A crew that did not stop leaves nothing to complain of.
  have hfine : ∀ {s : BatchState κ} {w : Crew κ} {u : Unit},
      b.opening o paths { cache := c } = .ok u s → w.results.map (·.path) = paths →
      (∀ path ∈ paths, ∀ e, ¬b.Fails o path e) →
      ¬(¬b.Agreed (.beforeLint paths) ∨ (∃ path ∈ paths, ∃ e, b.Fails o path e) ∨
        w.results.length < paths.length) := by
    rintro s w u begun hpaths hfails (hobjected | ⟨path, hpath, e, hfailed⟩ | hfewer)
    · exact hobjected (opening_eq_ok begun).1
    · exact hfails path hpath e hfailed
    · rw [← hpaths, List.length_map] at hfewer
      exact Nat.lt_irrefl _ hfewer
  have hclosing : ∀ {w : Crew κ} {t : BatchState κ}, w.state.results.Perm w.results →
      stateAfter b.closing w.state = t → t.results.Perm w.results := by
    rintro w _ hadded rfl
    exact (List.Perm.of_eq (keeps_results_closing b w.state)).trans hadded
  cases h with
  | objected begun =>
    obtain ⟨⟨reason, hobjected, rfl⟩, hsame⟩ := opening_eq_error begun
    refine ⟨⟨paths.map fun _ => none, by simp, ?_⟩, .of_eq hsame.results, List.nil_sublist _, ?_,
      fun hclear _ => ?_, fun _ => ⟨nofun, hsame.endings⟩⟩
    · rw [List.forall₂_map_right_iff, List.forall₂_same]
      exact fun _ _ => .missing nofun
    · rintro _ ⟨⟩
      exact .objected (.inl rfl) hobjected
    · cases hclear.opening.symm.trans hobjected
  | @stopped s w e u begun worked ended reason =>
    have hw := hsound begun worked
    have hsettled := settled_of_sound hw ended
    have hblamed : b.Blamed o cancelled paths e := by
      rcases hw.blamed e reason with ⟨path, hpath, hfails⟩ | ⟨rfl, hlate⟩
      · exact .failed hpath hfails
      · exact .cancelled hlate
    rw [reason] at hsettled
    refine ⟨⟨_, results_eq w, hsettled⟩, hw.added, results_eq w ▸ sublist_of_settled hsettled, ?_,
      fun hclear hcalm => ?_, fun _ => ⟨nofun, hw.endings⟩⟩
    · rintro _ ⟨⟩
      exact hblamed
    · subst hcalm
      exact absurd hblamed hclear.not_blamed
  | @interrupted s w u begun worked ended calm late =>
    have hw := hsound begun worked
    obtain ⟨hsettled, hpaths, -⟩ := complete_of_sound hw ended calm
    refine ⟨⟨_, results_eq w, hsettled.imp fun _ _ hsettled => hsettled.imp False.elim⟩, hw.added,
      results_eq w ▸ sublist_of_settled hsettled, ?_, fun _ hcalm => ?_, fun _ => ⟨nofun, hw.endings⟩⟩
    · rintro _ ⟨⟩
      exact .cancelled late
    · exact absurd late (by simp [hcalm])
  | @closed s t w u begun worked ended calm closed =>
    have hw := hsound begun worked
    obtain ⟨hsettled, hpaths, hfails⟩ := complete_of_sound hw ended calm
    obtain ⟨hhits, -, hendings⟩ := closing_eq_ok closed hw.endings
    refine ⟨⟨_, results_eq w, hsettled.imp fun _ _ hsettled => hsettled.imp False.elim⟩,
      hclosing hw.added (stateAfter_of_ok closed), results_eq w ▸ sublist_of_settled hsettled, nofun,
      fun _ _ => ⟨rfl, hpaths, ?_, hendings⟩, fun htrouble => ?_⟩
    · rw [hhits, hw.hits calm, Crew.tally_eq_countP]
      rfl
    · exact absurd htrouble (hfine begun hpaths hfails)
  | @unclosed s t w e u begun worked ended calm closed =>
    have hw := hsound begun worked
    obtain ⟨hsettled, hpaths, hfails⟩ := complete_of_sound hw ended calm
    obtain ⟨reason, hobjected, rfl⟩ := closing_eq_error closed
    refine ⟨⟨_, results_eq w, hsettled.imp fun _ _ hsettled => hsettled.imp False.elim⟩,
      hclosing hw.added (stateAfter_of_error closed), results_eq w ▸ sublist_of_settled hsettled, ?_,
      fun hclear _ => ?_,
      fun htrouble => ?_⟩
    · rintro _ ⟨⟩
      exact .objected (.inr rfl) hobjected
    · cases hclear.closing.symm.trans hobjected
    · exact absurd htrouble (hfine begun hpaths hfails)

/-- A file that is asked for twice, with a hook that agrees to everything; and
    that file before one that there is not. -/
theorem performs_in_order_repeated :
    let b : Batch :=
      { env := { constructs := .standard, files := {}, clock := 0, nesting := 3 }
        source := .table [("a", [42, 98])], hooks := [{ name := "log" }] }
    let o : BatchOptions := { encoding := "utf-8" }
    let c : Data.Table (List Record) := []
    (∃ s, s = (b.run o c ["a", "a"]).1 ∧ (b.run o c ["a", "a"]).2 = none ∧
      s.results.map (·.path) = ["a", "a"] ∧ s.hits = s.results.countP (·.cached) ∧
      s.endings = [⟨"log", .afterLint⟩]) ∧
    ∃ s e, b.run o c ["a", "b"] = (s, some e) ∧ s.results.map (·.path) = ["a"] ∧
      b.Blamed o false ["a", "b"] e ∧ s.endings = [] := by
  intro b o c
  have hread : ∀ path content, b.source.read path = .ok content →
      path = "a" ∧ content = [42, 98] := by
    intro path content hcontent
    simp only [BatchSource.read, Data.Table.get?, b] at hcontent
    split at hcontent
    · rename_i found heq
      split at heq
      · rename_i hpath
        cases heq
        cases hcontent
        exact ⟨hpath.symm, rfl⟩
      · cases heq
    · cases hcontent
  have hkeys : ∀ paths, KeysApart [⟨b, o, paths⟩] := by
    intro paths r hr r' hr' path content path' content' h h' _
    cases List.mem_singleton.mp hr
    cases List.mem_singleton.mp hr'
    obtain ⟨rfl, rfl⟩ := hread path content h.2
    obtain ⟨rfl, rfl⟩ := hread path' content' h'.2
    rfl
  constructor
  · have hmade : ((b.lintContent o "a" [42, 98]).toOption.any fun r => r.error.isNone) = true := by
      decide +kernel
    have hclear : b.Untroubled o ["a", "a"] := by
      refine ⟨rfl, fun _ _ => rfl, fun _ _ => rfl, rfl, fun path hpath => ?_⟩
      obtain rfl : path = "a" := by simpa using hpath
      obtain ⟨r, hr, hclean⟩ := (Option.any_eq_true ..).mp hmade
      refine ⟨r, [42, 98], rfl, ?_, Option.isNone_iff_eq_none.mp hclean⟩
      cases hlinted : b.lintContent o "a" [42, 98] with
      | ok made =>
        rw [hlinted] at hr
        exact congrArg _ (Option.some.inj hr)
      | error e =>
        rw [hlinted] at hr
        cases hr
    have hrun := b.run_performs o c ["a", "a"] false
    obtain ⟨s, hs⟩ : ∃ s, s = (b.run o c ["a", "a"]).1 := ⟨_, rfl⟩
    rw [← hs] at hrun
    obtain ⟨herror, hpaths, hhits, hendings⟩ :=
      (performs_in_order ResultCache.faithful_table (hkeys _) hrun).2.2.2.2.1 hclear rfl
    exact ⟨s, hs, herror, hpaths, hhits, hendings⟩
  · have hfails : b.Fails o "b" (.unreadable "b" .absent) := .unreadable rfl
    have hresults : (b.run o c ["a", "b"]).1.results.map (·.path) = ["a"] := by decide +kernel
    have hrun := b.run_performs o c ["a", "b"] false
    obtain ⟨s, error, hs⟩ : ∃ s error, b.run o c ["a", "b"] = (s, error) := ⟨_, _, rfl⟩
    rw [hs] at hrun hresults
    obtain ⟨-, -, -, hblamed, -, hstopped⟩ :=
      performs_in_order ResultCache.faithful_table (hkeys _) hrun
    obtain ⟨herror, hendings⟩ := hstopped (.inr (.inl ⟨"b", by simp, _, hfails⟩))
    obtain ⟨e, rfl⟩ := Option.ne_none_iff_exists'.mp herror
    exact ⟨s, e, hs, hresults, hblamed e rfl, hendings⟩

end Batch

end MarkupLint
