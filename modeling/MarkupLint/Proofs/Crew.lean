import Mathlib.Logic.Relation
import MarkupLint.Proofs.Workers

/-! # Workers together

    A crew has one worker for each file of a batch.  Its workers move in any
    order, and any of them may fail; after that, or when the batch is
    cancelled, the others may give up.  `Crew.Sound` is what every move
    preserves: the cache only holds what it may, each worker has what linting
    its file gives, and the hits and the results that were added are those of
    the workers that are done. -/

namespace MarkupLint

/-- The workers of a batch. -/
structure Crew (κ : Type) where
  state : BatchState κ
  stages : List Stage
  /-- The first reason for which a worker failed. -/
  error : Option BatchError := none

namespace Crew

/-- Nothing was done yet. -/
def start {κ : Type} (s : BatchState κ) (paths : List String) : Crew κ :=
  { state := s, stages := paths.map fun _ => .waiting }

/-- The results of the workers that are done, in the order of their files. -/
def results {κ : Type} (w : Crew κ) : List FileResult := w.stages.filterMap Stage.result?

/-- No worker has anything more to do. -/
def Ended {κ : Type} (w : Crew κ) : Prop := ∀ st ∈ w.stages, st.ended = true

variable {κ : Type} [ResultCache κ]

/-- One worker moves, fails, or gives up because another failed or the batch
    is cancelled. -/
inductive Step (b : Batch) (o : BatchOptions) (paths : List String) (cancelled : Bool)
    (w : Crew κ) : Crew κ → Prop
  | move {i : Nat} {path : String} {st st' : Stage} {t : BatchState κ}
      (file : paths[i]? = some path) (stage : w.stages[i]? = some st)
      (run : st.next b o path w.state = .ok st' t) :
    Step b o paths cancelled w { w with state := t, stages := w.stages.set i st' }
  | fail {i : Nat} {path : String} {st : Stage} {t : BatchState κ} {e : BatchError}
      (file : paths[i]? = some path) (stage : w.stages[i]? = some st)
      (run : st.next b o path w.state = .error e t) :
    Step b o paths cancelled w
      { state := t, stages := w.stages.set i (.failed e), error := w.error <|> some e }
  | giveUp {i : Nat} {st : Stage} (stopped : w.error.isSome = true ∨ cancelled = true)
      (stage : w.stages[i]? = some st) (active : st.ended = false) :
    Step b o paths cancelled w
      { w with
        stages := w.stages.set i (.failed .cancelled)
        error := w.error <|> some .cancelled }

/-- From a crew one comes to another by moves of the workers. -/
abbrev Works (b : Batch) (o : BatchOptions) (paths : List String) (cancelled : Bool) :
    Crew κ → Crew κ → Prop :=
  Relation.ReflTransGen (Step b o paths cancelled)

/-! ## What moves preserve -/

/-- The hits of the workers that are done. -/
def tally : List Stage → Nat
  | [] => 0
  | st :: stages => st.tally + tally stages

/-- Counting after a move of one worker. -/
theorem tally_set {stages : List Stage} {i : Nat} {st st' : Stage} (h : stages[i]? = some st) :
    tally (stages.set i st') + st.tally = tally stages + st'.tally := by
  induction stages generalizing i with
  | nil => cases h
  | cons first stages ih =>
    cases i with
    | zero =>
      cases h
      simp only [List.set_cons_zero, tally]
      omega
    | succ i =>
      have hrest := ih (i := i) (by simpa using h)
      simp only [List.set_cons_succ, tally]
      omega

/-- The results after a move of one worker. -/
theorem results_set {stages : List Stage} {i : Nat} {st st' : Stage} (h : stages[i]? = some st) :
    ((stages.set i st').filterMap Stage.result? ++ st.result?.toList).Perm
      (stages.filterMap Stage.result? ++ st'.result?.toList) := by
  have hswap : ∀ (a c : Option FileResult) (l : List FileResult),
      (a.toList ++ l ++ c.toList).Perm (c.toList ++ l ++ a.toList) := fun a c l =>
    List.perm_append_comm.trans ((List.perm_append_comm.append_left _).trans
      (.of_eq (List.append_assoc ..).symm))
  have hcons : ∀ (st : Stage) (l : List Stage),
      (st :: l).filterMap Stage.result? = st.result?.toList ++ l.filterMap Stage.result? := by
    intro st l
    rw [List.filterMap_cons]
    cases st.result? <;> rfl
  induction stages generalizing i with
  | nil => cases h
  | cons first stages ih =>
    cases i with
    | zero =>
      cases h
      rw [List.set_cons_zero, hcons, hcons]
      exact hswap _ _ _
    | succ i =>
      rw [List.set_cons_succ, hcons, hcons, List.append_assoc, List.append_assoc]
      exact (ih (by simpa using h)).append_left _

/-- Workers that wait have no hits. -/
theorem tally_start {κ : Type} (s : BatchState κ) (paths : List String) :
    tally (start s paths).stages = 0 := by
  induction paths with
  | nil => rfl
  | cons _ _ ih => exact (Nat.zero_add _).trans ih

/-- What may be kept for the files of a batch: what is kept is what linting a
    file gave that depends on nothing, and what may be kept under the key of a
    file is what linting it gives. -/
structure Keeps (b : Batch) (o : BatchOptions) (paths : List String)
    (genuine : String → List Record → Prop) : Prop where
  made : ∀ path ∈ paths, ∀ content r, b.source.read path = .ok content →
    b.lintContent o path content = .ok r → r.error = none → r.dependencies = [] →
    genuine (o.key path content) r.records
  used : ∀ path ∈ paths, ∀ content records, b.source.read path = .ok content →
    genuine (o.key path content) records → ∃ r, b.Lints o path r ∧ records = r.records

/-- What was done to a cache kept nothing but what may be kept. -/
def Honest (genuine : String → List Record → Prop) (ops : List CacheOp) : Prop :=
  ∀ now key records lifetime, .set now key records lifetime ∈ ops → genuine key records

/-- A worker is as its stage says; if it failed, it had a reason, and the crew
    knows of one. -/
structure Stands (b : Batch) (o : BatchOptions) (error : Option BatchError) (path : String)
    (st : Stage) : Prop where
  fits : st.Fits b o path
  reason : ∀ e, st = .failed e → error ≠ none ∧ (b.Fails o path e ∨ e = .cancelled)

/-- Each worker stands so with its file. -/
def Aligned (paths : List String) (stages : List Stage) (R : String → Stage → Prop) : Prop :=
  stages.length = paths.length ∧
    ∀ (i : Nat) (path : String) (st : Stage), paths[i]? = some path → stages[i]? = some st → R path st

/-- What is known of a crew: the cache only holds what it may, each worker
    stands as it should, the first failure had a reason, and the hits and the
    results that were added are those of the workers that are done. -/
structure Sound (b : Batch) (o : BatchOptions) (paths : List String) (cancelled : Bool) (c : κ)
    (genuine : String → List Record → Prop) (w : Crew κ) : Prop where
  cache : ∃ ops, w.state.cache = ResultCache.after c ops ∧ Honest genuine ops
  workers : Aligned paths w.stages (Stands b o w.error)
  blamed : ∀ e, w.error = some e →
    (∃ path ∈ paths, b.Fails o path e) ∨ e = .cancelled ∧ cancelled = true
  hits : w.error = none → w.state.hits = tally w.stages
  added : w.state.results.Perm w.results
  endings : w.state.endings = []

/-- One worker goes on, and the others stand as they did. -/
theorem Aligned.set {paths : List String} {stages : List Stage} {R R' : String → Stage → Prop}
    {i : Nat} {path : String} {st : Stage} (h : Aligned paths stages R)
    (hmono : ∀ path st, R path st → R' path st) (file : paths[i]? = some path) (hst : R' path st) :
    Aligned paths (stages.set i st) R' := by
  refine ⟨(List.length_set ..).trans h.1, fun j path' st' hpath hstage => ?_⟩
  rw [List.getElem?_set] at hstage
  split at hstage
  · rename_i hij
    subst hij
    split at hstage
    · cases hstage
      cases file.symm.trans hpath
      exact hst
    · cases hstage
  · exact hmono _ _ (h.2 j path' st' hpath hstage)

variable {b : Batch} {o : BatchOptions} {paths : List String} {cancelled : Bool} {c : κ}
  {genuine : String → List Record → Prop} {w w' : Crew κ}

/-- A crew starts well with a cache that holds what it may. -/
theorem Sound.start {s : BatchState κ} {ops : List CacheOp}
    (hcache : s.cache = ResultCache.after c ops) (hops : Honest genuine ops) (hhits : s.hits = 0)
    (hresults : s.results = []) (hendings : s.endings = []) :
    Sound b o paths cancelled c genuine (Crew.start s paths) where
  cache := ⟨ops, hcache, hops⟩
  workers := by
    refine ⟨List.length_map _, fun i path st _ hstage => ?_⟩
    simp only [Crew.start, List.getElem?_map, Option.map_eq_some_iff] at hstage
    obtain ⟨_, -, rfl⟩ := hstage
    exact ⟨trivial, nofun⟩
  blamed e h := by cases h
  hits _ := hhits.trans (tally_start s paths).symm
  added := by
    have hnone : (Crew.start s paths).results = [] := by
      simp [Crew.results, Crew.start, Stage.result?]
    rw [hnone]
    exact .of_eq hresults
  endings := hendings

/-- The cache answers for a file with what linting it gives. -/
theorem Sound.answers (hw : Sound b o paths cancelled c genuine w)
    (hfaithful : ResultCache.Faithful c) (hkeeps : Keeps b o paths genuine) {path : String}
    (hpath : path ∈ paths) (content : Bytes) (records : List Record)
    (hread : b.source.read path = .ok content)
    (h : (ResultCache.get w.state.cache b.now (o.key path content)).1 = some records) :
    ∃ r, b.Lints o path r ∧ records = r.records := by
  obtain ⟨ops, hcache, hops⟩ := hw.cache
  rw [hcache] at h
  obtain ⟨now, lifetime, hset⟩ := CacheOp.mem_of_kept (hfaithful ops b.now _ records h)
  exact hkeeps.used path hpath content records hread (hops _ _ _ _ hset)

/-- A move keeps the cache honest. -/
theorem honest_move {path : String} {st st' : Stage} {ops : List CacheOp} {c : κ}
    (hkeeps : Keeps b o paths genuine) (hpath : path ∈ paths) (hfits : st.Fits b o path)
    (h : Stage.Move b o path c st st' ops) : Honest genuine ops := by
  intro now key records lifetime hset
  cases h with
  | keep free =>
    obtain ⟨-, hread, hmade, hclean⟩ := hfits
    cases List.mem_singleton.mp hset
    exact hkeeps.made path hpath _ _ hread hmade hclean free
  | hit | miss => cases List.mem_singleton.mp hset
  | _ => cases hset

/-- A worker goes on to its next stage. -/
theorem Sound.move {i : Nat} {path : String} {st st' : Stage} {t : BatchState κ}
    (hw : Sound b o paths cancelled c genuine w) (hfaithful : ResultCache.Faithful c)
    (hkeeps : Keeps b o paths genuine) (file : paths[i]? = some path)
    (stage : w.stages[i]? = some st) (run : st.next b o path w.state = .ok st' t) :
    Sound b o paths cancelled c genuine { w with state := t, stages := w.stages.set i st' } := by
  have hpath := List.mem_of_getElem? file
  have hstands := hw.workers.2 i path st file stage
  obtain ⟨ops, hmove, hcache, hhits, hadded, hendings⟩ := Stage.next_moves run
  obtain ⟨before, hbefore, hhonest⟩ := hw.cache
  have hst' := hmove.fits (hw.answers hfaithful hkeeps hpath) hstands.fits
  exact {
    cache := by
      refine ⟨before ++ ops, ?_, fun now key records lifetime hset => ?_⟩
      · rw [ResultCache.after_append, ← hbefore, hcache]
      · rcases List.mem_append.mp hset with hset | hset
        · exact hhonest _ _ _ _ hset
        · exact honest_move hkeeps hpath hstands.fits hmove _ _ _ _ hset
    workers := by
      refine hw.workers.set (fun _ _ => id) file ⟨hst', fun e he => ?_⟩
      subst he
      -- Only what failed before is at that stage after a move.
      cases hmove with
      | rest ended => exact hstands.reason e rfl
    blamed := hw.blamed
    hits := fun hnone => by
      have hsum : tally (w.stages.set i st') + st.tally = tally w.stages + st'.tally :=
        tally_set stage
      have hbefore := hw.hits hnone
      dsimp only at hsum ⊢
      omega
    added := by
      -- Both gain the result of the worker, if it is done with one now.
      refine (List.perm_append_right_iff st.result?.toList).mp (hadded.trans ?_)
      exact (hw.added.append_right _).trans (results_set stage).symm
    endings := hendings.trans hw.endings }

/-- A worker fails for a reason and leaves the cache as it was.  If it is the
    first one, the crew fails for the same reason. -/
theorem Sound.stop {i : Nat} {path : String} {st : Stage} {t : BatchState κ} {e : BatchError}
    (hw : Sound b o paths cancelled c genuine w) (hcache : t.cache = w.state.cache)
    (hresults : t.results = w.state.results) (hendings : t.endings = w.state.endings)
    (file : paths[i]? = some path) (stage : w.stages[i]? = some st) (hnone : st.result? = none)
    (hreason : b.Fails o path e ∨ e = .cancelled)
    (hfirst : w.error = none →
      (∃ path ∈ paths, b.Fails o path e) ∨ e = .cancelled ∧ cancelled = true) :
    Sound b o paths cancelled c genuine
      { state := t, stages := w.stages.set i (.failed e), error := w.error <|> some e } := by
  obtain ⟨ops, hops, hhonest⟩ := hw.cache
  have hsome : (w.error <|> some e) ≠ none := by cases w.error <;> nofun
  exact {
    cache := ⟨ops, hcache.trans hops, hhonest⟩
    workers := by
      refine hw.workers.set (fun _ _ hstands => ⟨hstands.fits, fun e' he' => ⟨hsome, ?_⟩⟩) file
        ⟨trivial, ?_⟩
      · exact (hstands.reason e' he').2
      · rintro _ ⟨⟩
        exact ⟨hsome, hreason⟩
    blamed := fun e' he' => by
      cases herror : w.error with
      | some first =>
        rw [herror] at he'
        exact hw.blamed e' (herror.trans he')
      | none =>
        rw [herror] at he'
        cases he'
        exact hfirst herror
    hits := fun hnone => absurd hnone hsome
    added := by
      have hset : ((w.stages.set i (.failed e)).filterMap Stage.result? ++ st.result?.toList).Perm
          (w.stages.filterMap Stage.result? ++ []) := results_set stage
      rw [hnone, Option.toList_none, List.append_nil, List.append_nil] at hset
      rw [hresults]
      exact hw.added.trans hset.symm
    endings := hendings.trans hw.endings }

/-- One move of a worker preserves what is known. -/
theorem Sound.step (hw : Sound b o paths cancelled c genuine w)
    (hfaithful : ResultCache.Faithful c) (hkeeps : Keeps b o paths genuine)
    (h : Step b o paths cancelled w w') : Sound b o paths cancelled c genuine w' := by
  cases h with
  | move file stage run => exact hw.move hfaithful hkeeps file stage run
  | @fail i path st t e file stage run =>
    obtain ⟨hfails, hnone, hcache, hresults, hendings⟩ :=
      Stage.next_fails (hw.workers.2 i path st file stage).fits run
    exact hw.stop hcache hresults hendings file stage hnone (.inl hfails) fun _ =>
      .inl ⟨path, List.mem_of_getElem? file, hfails⟩
  | @giveUp i st stopped stage active =>
    have hi : i < paths.length := by
      rw [← hw.workers.1]
      exact (List.getElem?_eq_some_iff.mp stage).1
    have hnone : st.result? = none := by cases st <;> first | rfl | cases active
    refine hw.stop rfl rfl rfl (List.getElem?_eq_getElem hi) stage hnone (.inr rfl)
      fun hcalm => .inr ⟨rfl, ?_⟩
    rw [hcalm] at stopped
    exact stopped.resolve_left nofun

/-- **Whatever the order in which the workers move**, what is known is
    preserved. -/
theorem Sound.works (hw : Sound b o paths cancelled c genuine w)
    (hfaithful : ResultCache.Faithful c) (hkeeps : Keeps b o paths genuine)
    (h : Works b o paths cancelled w w') : Sound b o paths cancelled c genuine w' := by
  induction h with
  | refl => exact hw
  | tail _ hstep ih => exact ih.step hfaithful hkeeps hstep

end Crew

end MarkupLint
