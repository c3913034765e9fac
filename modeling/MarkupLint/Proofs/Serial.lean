import MarkupLint.Proofs.Performing

/-! # Linting one file after the other

    A worker that moves to its end at once does what linting its file does
    (`Batch.step_goes`, `Batch.step_stops`).  So `Batch.run` is what a crew
    does of which each worker moves to its end before the next. -/

namespace MarkupLint

variable {κ : Type} [ResultCache κ] {b : Batch} {o : BatchOptions} {path : String}
  {s t : BatchState κ} {u : Unit} {e : BatchError}

/-! ## One worker -/

namespace Stage

/-- A worker moves on while the others rest. -/
inductive Goes (b : Batch) (o : BatchOptions) (path : String) (st : Stage) (s : BatchState κ) :
    Stage → BatchState κ → Prop
  | refl : Goes b o path st s st s
  | tail {st' st'' : Stage} {t v : BatchState κ} (before : Goes b o path st s st' t)
      (run : st'.next b o path t = .ok st'' v) : Goes b o path st s st'' v

end Stage

namespace Batch

open Stage

/-- Finding or making a result adds none. -/
theorem keeps_results_lintOne (b : Batch) (o : BatchOptions) (path : String) :
    Keeps (fun s : BatchState κ => s.results) (b.lintOne o path) := by
  have hnote : ∀ message fields, Keeps (fun s : BatchState κ => s.results) (note message fields) :=
    fun _ _ => .modify _ fun _ => rfl
  refine .bind (keeps_results_announce b _) fun _ => .bind ?_ fun content => .bind ?_ fun found => ?_
  · unfold read
    split
    · exact .bind (.modify _ fun _ => rfl) fun _ => .pure _
    · exact .throw _
  · exact .modifyGet _ fun _ => rfl
  · cases found with
    | some records => exact .bind (hnote _ _) fun _ => .pure _
    | none =>
      refine .bind ?_ fun r => .bind ?_ fun _ => .pure _
      · unfold lintAfresh
        split
        · exact .throw _
        · refine .bind (.modify _ fun _ => rfl) fun _ => ?_
          split
          · exact .throw _
          · exact .pure _
      · unfold keep
        split
        · exact .modify _ fun _ => rfl
        · exact hnote _ _

/-- A worker finds or makes the result of its file. -/
theorem lintOne_goes {f : FileResult} (h : b.lintOne o path s = .ok f t) :
    Goes b o path .waiting s (.found f) t := by
  obtain ⟨_, s₁, hannounce, h⟩ := bind_eq_ok.mp h
  obtain ⟨content, s₂, hread, h⟩ := bind_eq_ok.mp h
  obtain ⟨found, s₃, hlookUp, h⟩ := bind_eq_ok.mp h
  have hopened : Goes b o path .waiting s (.opened content) s₂ :=
    .tail (.tail .refl (bind_eq_ok.mpr ⟨_, _, hannounce, rfl⟩)) (bind_eq_ok.mpr ⟨_, _, hread, rfl⟩)
  cases found with
  | some records =>
    obtain ⟨_, s₄, hnote, h⟩ := bind_eq_ok.mp h
    cases h
    exact .tail hopened (bind_eq_ok.mpr ⟨_, _, hlookUp, bind_eq_ok.mpr ⟨_, _, hnote, rfl⟩⟩)
  | none =>
    obtain ⟨r, s₄, hlint, h⟩ := bind_eq_ok.mp h
    obtain ⟨_, s₅, hkeep, h⟩ := bind_eq_ok.mp h
    cases h
    have hmissed := hopened.tail (bind_eq_ok.mpr ⟨_, _, hlookUp, rfl⟩)
    exact .tail (.tail hmissed (bind_eq_ok.mpr ⟨_, _, hlint, rfl⟩))
      (bind_eq_ok.mpr ⟨_, _, hkeep, rfl⟩)

/-- If it does not, one of its moves fails. -/
theorem lintOne_stops (h : b.lintOne o path s = .error e t) :
    ∃ st v, Goes b o path .waiting s st v ∧ st.next b o path v = .error e t := by
  rcases bind_eq_error.mp h with hannounce | ⟨_, s₁, hannounce, h⟩
  · exact ⟨.waiting, s, .refl, bind_eq_error.mpr (.inl hannounce)⟩
  have hannounced : Goes b o path .waiting s .announced s₁ :=
    .tail .refl (bind_eq_ok.mpr ⟨_, _, hannounce, rfl⟩)
  rcases bind_eq_error.mp h with hread | ⟨content, s₂, hread, h⟩
  · exact ⟨.announced, s₁, hannounced, bind_eq_error.mpr (.inl hread)⟩
  have hopened := hannounced.tail (bind_eq_ok.mpr ⟨_, _, hread, rfl⟩)
  rcases bind_eq_error.mp h with hlookUp | ⟨found, s₃, hlookUp, h⟩
  · cases hlookUp
  cases found with
  | some records =>
    rcases bind_eq_error.mp h with hnote | ⟨_, _, -, h⟩
    · cases hnote
    · cases h
  | none =>
    have hmissed := hopened.tail (bind_eq_ok.mpr ⟨_, _, hlookUp, rfl⟩)
    rcases bind_eq_error.mp h with hlint | ⟨r, s₄, hlint, h⟩
    · exact ⟨.missed content, s₃, hmissed, bind_eq_error.mpr (.inl hlint)⟩
    have hlinted := hmissed.tail (bind_eq_ok.mpr ⟨_, _, hlint, rfl⟩)
    rcases bind_eq_error.mp h with hkeep | ⟨_, _, -, h⟩
    · exact ⟨.linted content r, s₄, hlinted, bind_eq_error.mpr (.inl hkeep)⟩
    · cases h

theorem results_of_lintOne_ok {f : FileResult} (h : b.lintOne o path s = .ok f t) :
    t.results = s.results :=
  (congrArg _ (stateAfter_of_ok h)).symm.trans (keeps_results_lintOne b o path s)

/-- A worker moves to its end, and adds its result. -/
theorem step_goes (h : b.step o path s = .ok u t) :
    ∃ f, Goes b o path .waiting s (.done f) t ∧ t.results = s.results ++ [f] := by
  obtain ⟨f, v, hlint, hconclude⟩ := bind_eq_ok.mp h
  refine ⟨f, (lintOne_goes hlint).tail (bind_eq_ok.mpr ⟨_, _, hconclude, rfl⟩), ?_⟩
  rw [(conclude_eq_ok hconclude).2.2.2.1, results_of_lintOne_ok hlint]

/-- A worker moves on until it fails, and adds nothing. -/
theorem step_stops (h : b.step o path s = .error e t) :
    ∃ st v, Goes b o path .waiting s st v ∧ st.next b o path v = .error e t ∧
      t.results = s.results := by
  rcases bind_eq_error.mp h with hlint | ⟨f, v, hlint, hconclude⟩
  · obtain ⟨st, v, hgoes, hnext⟩ := lintOne_stops hlint
    exact ⟨st, v, hgoes, hnext,
      (congrArg _ (stateAfter_of_error hlint)).symm.trans (keeps_results_lintOne b o path s)⟩
  · refine ⟨.found f, v, lintOne_goes hlint, bind_eq_error.mpr (.inl hconclude), ?_⟩
    rw [(conclude_eq_error hconclude).2.2.1, results_of_lintOne_ok hlint]

end Batch

/-! ## All workers -/

namespace Crew

variable {paths : List String} {cancelled : Bool} {w : Crew κ}

/-- A worker of a crew moves on while the others rest. -/
theorem works_of_goes {i : Nat} {st st' : Stage} (file : paths[i]? = some path)
    (stage : w.stages[i]? = some st) (h : st.Goes b o path w.state st' t) :
    Works b o paths cancelled w { w with state := t, stages := w.stages.set i st' } := by
  have hi : i < w.stages.length := (List.getElem?_eq_some_iff.mp stage).1
  induction h with
  | refl =>
    have hset : w.stages.set i st = w.stages := by
      obtain ⟨hi, rfl⟩ := List.getElem?_eq_some_iff.mp stage
      exact List.set_getElem_self hi
    rw [hset]
  | @tail st' st'' t v before run ih =>
    have hstep : Step b o paths cancelled { w with state := t, stages := w.stages.set i st' }
        { w with state := v, stages := (w.stages.set i st').set i st'' } :=
      .move file (List.getElem?_set_self hi) run
    rw [List.set_set] at hstep
    exact ih.tail hstep

/-- The workers that wait give up. -/
theorem works_giveUp (ended : List Stage) (rest : List String)
    (stopped : w.error.isSome = true ∨ cancelled = true)
    (hstages : w.stages = ended ++ rest.map fun _ => .waiting) :
    ∃ error, (error = w.error ∨ error = (w.error <|> some .cancelled)) ∧
      Works b o paths cancelled w
        { w with error, stages := ended ++ rest.map fun _ => .failed .cancelled } := by
  induction rest generalizing w ended with
  | nil =>
    have hended : ended ++ List.map (fun _ => .failed .cancelled) ([] : List String) = w.stages :=
      hstages.symm
    exact ⟨w.error, .inl rfl, by rw [hended]⟩
  | cons path rest ih =>
    have hstage : w.stages[ended.length]? = some .waiting := by simp [hstages]
    have hstep : Step b o paths cancelled w
        { w with
          stages := w.stages.set ended.length (.failed .cancelled)
          error := w.error <|> some .cancelled } :=
      .giveUp stopped hstage rfl
    obtain ⟨error, herror, hworks⟩ := ih
      (w := { w with
        stages := w.stages.set ended.length (.failed .cancelled)
        error := w.error <|> some .cancelled })
      (ended ++ [.failed .cancelled]) (.inl (by cases w.error <;> rfl)) (by simp [hstages])
    refine ⟨error, .inr ?_, ?_⟩
    · rcases herror with rfl | rfl
      · rfl
      · cases w.error <;> rfl
    · simp only [List.append_assoc, List.singleton_append] at hworks
      exact hworks.head hstep

/-- Workers that move to their ends one after the other do what linting their
    files in order does: they are all done, or one failed and those after it
    gave up. -/
theorem works_steps (before rest : List String) (fs : List FileResult) {result}
    (hpaths : paths = before ++ rest) (hlength : fs.length = before.length)
    (hstages : w.stages = fs.map Stage.done ++ rest.map fun _ => .waiting)
    (hresults : w.state.results = fs) (hcalm : w.error = none)
    (h : b.steps o rest w.state = result) :
    ∃ w', Works b o paths cancelled w w' ∧ w'.Ended ∧ w'.results = w'.state.results ∧
      ((∃ u, result = .ok u w'.state ∧ w'.error = none) ∨
        ∃ e, result = .error e w'.state ∧ w'.error = some e) := by
  subst h
  have hdone : ∀ fs : List FileResult, (fs.map Stage.done).filterMap Stage.result? = fs := by
    intro fs
    rw [List.filterMap_map]
    exact List.filterMap_some
  induction rest generalizing w before fs with
  | nil =>
    rw [List.map_nil, List.append_nil] at hstages
    refine ⟨w, .refl, ?_, ?_, .inl ⟨(), rfl, hcalm⟩⟩
    · intro st hst
      rw [hstages] at hst
      obtain ⟨f, -, rfl⟩ := List.mem_map.mp hst
      rfl
    · rw [results, hstages, hdone, hresults]
  | cons path rest ih =>
    have hfile : paths[fs.length]? = some path := by
      rw [hpaths, hlength]
      simp
    have hstage : w.stages[fs.length]? = some .waiting := by
      rw [hstages]
      simp
    cases hstep : b.step o path w.state with
    | ok u t =>
      -- The worker moves to its end, and the others do from there what linting their files does.
      obtain ⟨f, hgoes, hadded⟩ := Batch.step_goes hstep
      have hworks : Works b o paths cancelled w _ := works_of_goes hfile hstage hgoes
      have hset : w.stages.set fs.length (.done f)
          = (fs ++ [f]).map Stage.done ++ rest.map fun _ => .waiting := by
        rw [hstages]
        simp
      have hsteps : b.steps o (path :: rest) w.state = b.steps o rest t := bind_of_ok hstep _
      obtain ⟨w', hrest, hend⟩ := ih
        (w := { w with state := t, stages := w.stages.set fs.length (.done f) }) (before ++ [path])
        (fs ++ [f]) (by simp [hpaths]) (by simp [hlength]) hset (by rw [← hresults]; exact hadded)
        hcalm
      rw [hsteps]
      exact ⟨w', hworks.trans hrest, hend⟩
    | error e t =>
      -- The worker moves up to where it fails, and those behind it give up.
      obtain ⟨st, v, hgoes, hnext, hadded⟩ := Batch.step_stops hstep
      have hworks : Works b o paths cancelled w _ := works_of_goes hfile hstage hgoes
      have hinside : fs.length < w.stages.length := (List.getElem?_eq_some_iff.mp hstage).1
      have hfail : Step b o paths cancelled
          { w with state := v, stages := w.stages.set fs.length st }
          { state := t
            stages := (w.stages.set fs.length st).set fs.length (.failed e)
            error := w.error <|> some e } :=
        .fail hfile (List.getElem?_set_self hinside) hnext
      have hset : (w.stages.set fs.length st).set fs.length (.failed e)
          = (fs.map Stage.done ++ [.failed e]) ++ rest.map fun _ => .waiting := by
        rw [hstages]
        simp
      have hnew : (w.error <|> some e) = some e := by
        rw [hcalm]
        rfl
      rw [hset, hnew] at hfail
      obtain ⟨error, herror, hgiveUp⟩ : ∃ error, _ ∧ Works b o paths cancelled ⟨t, _, some e⟩ _ :=
        works_giveUp (fs.map Stage.done ++ [.failed e]) rest (.inl rfl) rfl
      have hfirst : error = some e := herror.elim id id
      have hsteps : b.steps o (path :: rest) w.state = .error e t :=
        bind_eq_error.mpr (.inl hstep)
      refine ⟨_, (hworks.tail hfail).trans hgiveUp, ?_, ?_, .inr ⟨e, hsteps, hfirst⟩⟩
      · intro st hst
        simp only [List.mem_append, List.mem_map, List.mem_singleton] at hst
        rcases hst with (⟨f, -, rfl⟩ | rfl) | ⟨_, -, rfl⟩ <;> rfl
      · have hgone : (rest.map fun _ => Stage.failed .cancelled).filterMap Stage.result? = [] := by
          simp [Stage.result?]
        simp only [results, List.filterMap_append, hdone, hgone]
        rw [hadded, hresults]
        simp [Stage.result?]

end Crew

namespace Batch

/-- A batch begins, lints the files in order and ends. -/
theorem process_eq (b : Batch) (o : BatchOptions) (cancelled : Bool) (paths : List String) :
    (b.process o cancelled paths : BatchM κ Unit) = b.opening o paths >>= fun _ =>
      if cancelled then throw .cancelled else b.steps o paths >>= fun _ => b.closing := by
  unfold process opening
  simp only [bind_assoc]
  cases cancelled <;> rfl

theorem run_eq (b : Batch) (o : BatchOptions) (c : κ) (paths : List String) (cancelled : Bool) :
    (∃ u, b.process o cancelled paths { cache := c } = .ok u (b.run o c paths cancelled).1 ∧
      (b.run o c paths cancelled).2 = none) ∨
    ∃ e, b.process o cancelled paths { cache := c } = .error e (b.run o c paths cancelled).1 ∧
      (b.run o c paths cancelled).2 = some e := by
  unfold run EStateM.run
  cases b.process o cancelled paths { cache := c } with
  | ok u t => exact .inl ⟨u, rfl, rfl⟩
  | error e t => exact .inr ⟨e, rfl, rfl⟩

/-- **Linting the files one after the other** is one of the ways in which a
    batch can go. -/
theorem run_performs (b : Batch) (o : BatchOptions) (c : κ) (paths : List String)
    (cancelled : Bool) :
    b.Performs o cancelled c paths (b.run o c paths cancelled).1 (b.run o c paths cancelled).1.results
      (b.run o c paths cancelled).2 := by
  have hrun := b.run_eq o c paths cancelled
  generalize b.run o c paths cancelled = ended at hrun
  obtain ⟨t, error⟩ := ended
  rw [process_eq] at hrun
  have hbegun := keeps_results_opening b o paths { cache := c }
  cases hopening : b.opening o paths { cache := c } with
  | error e s =>
    -- A hook objected to the start, so no worker moves.
    rw [stateAfter_of_error hopening] at hbegun
    rw [bind_eq_error.mpr (.inl hopening)] at hrun
    rcases hrun with ⟨_, hrun, -⟩ | ⟨_, hrun, rfl⟩
    · cases hrun
    · cases hrun
      dsimp only at hbegun ⊢
      rw [hbegun]
      exact .objected hopening
  | ok u s =>
    rw [stateAfter_of_ok hopening] at hbegun
    rw [bind_of_ok hopening] at hrun
    cases cancelled with
    | true =>
      -- All workers give up.  Without any, nothing says that the batch was cancelled.
      obtain ⟨given, herror, hworks⟩ :
          ∃ given, _ ∧ Crew.Works b o paths true (.start s paths) _ :=
        Crew.works_giveUp [] paths (.inr rfl) rfl
      have hended : ∀ st ∈ [] ++ paths.map fun _ => Stage.failed .cancelled, st.ended = true := by
        intro st hst
        obtain ⟨_, -, rfl⟩ := List.mem_map.mp hst
        rfl
      have hnone : ([] ++ paths.map fun _ => Stage.failed .cancelled).filterMap Stage.result? = [] := by
        simp [Stage.result?]
      rcases hrun with ⟨_, hrun, -⟩ | ⟨_, hrun, rfl⟩
      · cases hrun
      cases hrun
      dsimp only at hbegun ⊢
      rw [hbegun, ← hnone]
      rcases herror with rfl | rfl
      · exact .interrupted hopening hworks hended rfl rfl
      · exact .stopped hopening hworks hended rfl
    | false =>
      obtain ⟨w, hworks, hended, hresults, hresult⟩ :
          ∃ w, Crew.Works b o paths false (.start s paths) w ∧ _ :=
        Crew.works_steps [] paths [] rfl rfl rfl hbegun rfl rfl
      rcases hresult with ⟨v, hsteps, hcalm⟩ | ⟨e, hsteps, hfailed⟩
      · -- All are done, so the batch ends as its closing does.
        have hclosing : ∀ f : Unit → BatchM κ Unit, (b.steps o paths >>= f) s = f v w.state :=
          bind_of_ok hsteps
        have hkept := keeps_results_closing b w.state
        rcases hrun with ⟨_, hrun, rfl⟩ | ⟨e, hrun, rfl⟩
        · have hclosed : b.closing w.state = .ok _ t := (hclosing _).symm.trans hrun
          rw [stateAfter_of_ok hclosed] at hkept
          dsimp only at hkept ⊢
          rw [hkept, ← hresults]
          exact .closed hopening hworks hended hcalm hclosed
        · have hclosed : b.closing w.state = .error e t := (hclosing _).symm.trans hrun
          rw [stateAfter_of_error hclosed] at hkept
          dsimp only at hkept ⊢
          rw [hkept, ← hresults]
          exact .unclosed hopening hworks hended hcalm hclosed
      · -- A worker failed, and the batch is not closed.
        have hstopped : ∀ f : Unit → BatchM κ Unit, (b.steps o paths >>= f) s = .error e w.state :=
          fun f => bind_eq_error.mpr (.inl hsteps)
        rcases hrun with ⟨_, hrun, -⟩ | ⟨e', hrun, rfl⟩
        · cases (hstopped _).symm.trans hrun
        · cases (hstopped _).symm.trans hrun
          dsimp only
          rw [← hresults]
          exact .stopped hopening hworks hended hfailed

end Batch

end MarkupLint
