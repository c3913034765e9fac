import MarkupLint.Proofs.Crew
import MarkupLint.Proofs.Fingerprint

/-! # Batches whose files are linted at the same time

    A batch tells its hooks that it begins, lets a crew work, and tells them
    that it ends.  `Batch.Performs` lists all ways in which this can go.
    Whatever the order in which the workers move, the cache is left with what
    may be kept, and each result is what linting its file gives. -/

namespace MarkupLint

namespace Batch

variable {κ : Type}

/-- The hooks are told that the batch begins. -/
def opening (b : Batch) (o : BatchOptions) (paths : List String) : BatchM κ Unit := do
  b.announce (.beforeLint paths)
  note "lint started" [("files", .int paths.length),
    ("jobs", .int (if 0 < o.jobs then o.jobs else b.processors))]

/-- The hooks are told that the batch ends. -/
def closing (b : Batch) : BatchM κ Unit := do
  let s ← get
  note "lint finished" [("files", .int s.results.length), ("cache_hits", .int s.hits)]
  b.announce .afterLint

theorem keeps_results_opening (b : Batch) (o : BatchOptions) (paths : List String) :
    Keeps (fun s : BatchState κ => s.results) (b.opening o paths) :=
  .bind (keeps_results_announce b _) fun _ => .modify _ fun _ => rfl

theorem keeps_cache_closing (b : Batch) :
    Keeps (fun s : BatchState κ => s.cache) b.closing := by
  refine .bind .get fun _ => .bind (.modify _ fun _ => rfl) fun _ => .bind (.modify _ fun _ => rfl)
    fun _ => ?_
  split
  · exact .throw _
  · exact .pure _

theorem keeps_results_closing (b : Batch) :
    Keeps (fun s : BatchState κ => s.results) b.closing :=
  .bind .get fun _ => .bind (.modify _ fun _ => rfl) fun _ => keeps_results_announce b _

section Effects

variable {b : Batch} {o : BatchOptions} {paths : List String} {s t : BatchState κ} {u : Unit}
  {e : BatchError}

theorem opening_eq_ok (h : b.opening o paths s = .ok u t) :
    b.Agreed (.beforeLint paths) ∧ s.Same t := by
  obtain ⟨_, _, hannounce, hnote⟩ := bind_eq_ok.mp h
  obtain ⟨hagreed, rfl⟩ := announce_eq_ok hannounce
  cases hnote
  obtain ⟨hcache, hhits, hresults, hendings⟩ := b.same_told s (p := .beforeLint paths) nofun
  exact ⟨hagreed, hcache, hhits, hresults, hendings⟩

theorem opening_eq_error (h : b.opening o paths s = .error e t) :
    (∃ reason, ((HookPoint.beforeLint paths).announce b.hooks).2 = some reason ∧
      e = .objection reason) ∧ s.Same t := by
  rcases bind_eq_error.mp h with hannounce | ⟨_, _, -, hnote⟩
  · obtain ⟨hobjects, rfl⟩ := announce_eq_error hannounce
    exact ⟨hobjects, b.same_told s (p := .beforeLint paths) nofun⟩
  · cases hnote

/-- At the end each hook is told once. -/
theorem closing_eq_ok (h : b.closing s = .ok u t) (hendings : s.endings = []) :
    t.hits = s.hits ∧ t.cache = s.cache ∧
      t.endings = b.hooks.map fun hook => ⟨hook.name, .afterLint⟩ := by
  obtain ⟨_, _, hget, hrest⟩ := bind_eq_ok.mp h
  cases hget
  obtain ⟨_, _, hnote, hannounce⟩ := bind_eq_ok.mp hrest
  cases hnote
  obtain ⟨hagreed, rfl⟩ := announce_eq_ok hannounce
  refine ⟨rfl, rfl, ?_⟩
  have hall : (HookPoint.afterLint.announce b.hooks).1.filter (·.point = .afterLint)
      = (HookPoint.afterLint.announce b.hooks).1 := by
    refine List.filter_eq_self.mpr fun e he => ?_
    simp [HookPoint.point_of_mem_announce he]
  simp only [BatchState.endings, told, List.filter_append] at hendings ⊢
  rw [hendings, hall, List.nil_append]
  exact HookPoint.announce_of_agreed hagreed

theorem closing_eq_error (h : b.closing s = .error e t) :
    ∃ reason, (HookPoint.afterLint.announce b.hooks).2 = some reason ∧ e = .objection reason := by
  rcases bind_eq_error.mp h with hget | ⟨_, _, -, hrest⟩
  · cases hget
  rcases bind_eq_error.mp hrest with hnote | ⟨_, _, -, hannounce⟩
  · cases hnote
  exact (announce_eq_error hannounce).1

end Effects

variable [ResultCache κ]

/-- The ways in which a batch can go, with the state it ends in, its results
    and the reason for which it stopped, if it did: a hook objects to the
    beginning; the crew stops, with the first failure of a worker or because
    the batch is cancelled; or the workers all come to their end. -/
inductive Performs (b : Batch) (o : BatchOptions) (cancelled : Bool) (c : κ) (paths : List String) :
    BatchState κ → List FileResult → Option BatchError → Prop
  | objected {s : BatchState κ} {e : BatchError}
      (begun : b.opening o paths { cache := c } = .error e s) :
    Performs b o cancelled c paths s [] (some e)
  | stopped {s : BatchState κ} {w : Crew κ} {e : BatchError} {u : Unit}
      (begun : b.opening o paths { cache := c } = .ok u s)
      (worked : Crew.Works b o paths cancelled (.start s paths) w) (ended : w.Ended)
      (reason : w.error = some e) : Performs b o cancelled c paths w.state w.results (some e)
  | interrupted {s : BatchState κ} {w : Crew κ} {u : Unit}
      (begun : b.opening o paths { cache := c } = .ok u s)
      (worked : Crew.Works b o paths cancelled (.start s paths) w) (ended : w.Ended)
      (calm : w.error = none) (late : cancelled = true) :
    Performs b o cancelled c paths w.state w.results (some .cancelled)
  | closed {s t : BatchState κ} {w : Crew κ} {u : Unit}
      (begun : b.opening o paths { cache := c } = .ok u s)
      (worked : Crew.Works b o paths cancelled (.start s paths) w) (ended : w.Ended)
      (calm : w.error = none) (closed : b.closing w.state = .ok u t) :
    Performs b o cancelled c paths t w.results none
  | unclosed {s t : BatchState κ} {w : Crew κ} {e : BatchError} {u : Unit}
      (begun : b.opening o paths { cache := c } = .ok u s)
      (worked : Crew.Works b o paths cancelled (.start s paths) w) (ended : w.Ended)
      (calm : w.error = none) (closed : b.closing w.state = .error e t) :
    Performs b o cancelled c paths t w.results (some e)

end Batch

/-! ## What may be kept -/

/-- A batch that is asked for. -/
structure Round where
  batch : Batch
  options : BatchOptions
  paths : List String

/-- A file of the batch has a content. -/
def Round.Reads (r : Round) (path : String) (content : Bytes) : Prop :=
  path ∈ r.paths ∧ r.batch.source.read path = .ok content

/-- The keys of the files that are read tell their parts apart. -/
def KeysApart (rounds : List Round) : Prop :=
  ∀ r ∈ rounds, ∀ r' ∈ rounds, ∀ path content path' content',
    r.Reads path content → r'.Reads path' content' →
    r.options.key path content = r'.options.key path' content' →
    r.options.keyParts path content = r'.options.keyParts path' content'

/-- What linting a file gave that depends on nothing, with its key. -/
def Genuine (rounds : List Round) (key : String) (records : List Record) : Prop :=
  ∃ r ∈ rounds, ∃ path content made, r.Reads path content ∧
    r.batch.lintContent r.options path content = .ok made ∧ made.error = none ∧
    made.dependencies = [] ∧ r.options.key path content = key ∧ made.records = records

/-- Such results may be kept, if files whose keys have the same parts are
    linted alike. -/
theorem keeps_genuine {rounds : List Round} (hkeys : KeysApart rounds)
    (hsame : ∀ r ∈ rounds, ∀ r' ∈ rounds, ∀ path content path' content' made,
      r.options.keyParts path content = r'.options.keyParts path' content' →
      r.batch.lintContent r.options path content = .ok made → made.dependencies = [] →
      r'.batch.lintContent r'.options path' content' = .ok made)
    {r : Round} (hr : r ∈ rounds) : Crew.Keeps r.batch r.options r.paths (Genuine rounds) where
  made path hpath content made hread hmade hclean hfree :=
    ⟨r, hr, path, content, made, ⟨hpath, hread⟩, hmade, hclean, hfree, rfl, rfl⟩
  used path hpath content records hread := by
    rintro ⟨r', hr', path', content', made, hreads', hmade, hclean, hfree, hkey, rfl⟩
    have hparts := hkeys r' hr' r hr _ _ _ _ hreads' ⟨hpath, hread⟩ hkey
    exact ⟨made, ⟨content, hread, hsame r' hr' r hr _ _ _ _ _ hparts hmade hfree, hclean⟩, rfl⟩

namespace BatchOptions

/-- The parts of a key hold the path and the content. -/
theorem keyParts_injective {o : BatchOptions} {path path' : String} {content content' : Bytes}
    (h : o.keyParts path content = o.keyParts path' content') :
    path = path' ∧ content = content' := by
  simp only [keyParts, List.cons.injEq, and_true, true_and] at h
  exact ⟨packText_injective h.1, h.2⟩

end BatchOptions

namespace Batch

variable {κ : Type} [ResultCache κ] {b : Batch} {o : BatchOptions} {paths : List String}
  {cancelled : Bool} {c : κ} {genuine : String → List Record → Prop}

/-- What is known when a crew starts is known at its end. -/
theorem sound_of_works (ops : List CacheOp) {s : BatchState κ} {w : Crew κ} {u : Unit}
    (hfaithful : ResultCache.Faithful c) (hops : Crew.Honest genuine ops)
    (hkeeps : Crew.Keeps b o paths genuine)
    (begun : b.opening o paths { cache := ResultCache.after c ops } = .ok u s)
    (worked : Crew.Works b o paths cancelled (.start s paths) w) :
    Crew.Sound b o paths cancelled c genuine w := by
  obtain ⟨-, hsame⟩ := opening_eq_ok begun
  exact (Crew.Sound.start hsame.cache hops hsame.hits hsame.results hsame.endings).works hfaithful
    hkeeps worked

/-- **However a batch goes**, what it keeps may be kept, and each of its
    results is what linting the file gives. -/
theorem performs_sound {ops : List CacheOp} {s : BatchState κ} {results : List FileResult}
    {error : Option BatchError} (hfaithful : ResultCache.Faithful c)
    (hops : Crew.Honest genuine ops) (hkeeps : Crew.Keeps b o paths genuine)
    (h : b.Performs o cancelled (ResultCache.after c ops) paths s results error) :
    (∃ more, s.cache = ResultCache.after c more ∧ Crew.Honest genuine more) ∧
      ∀ f ∈ results, f.path ∈ paths ∧ ∃ r, b.Lints o f.path r ∧ f.records = r.records := by
  have hmade : ∀ {w : Crew κ}, Crew.Sound b o paths cancelled c genuine w →
      ∀ f ∈ w.results, f.path ∈ paths ∧ ∃ r, b.Lints o f.path r ∧ f.records = r.records := by
    intro w hw f hf
    obtain ⟨st, hst, hresult⟩ := List.mem_filterMap.mp hf
    obtain ⟨i, hi, hstage⟩ := List.mem_iff_getElem.mp hst
    have hlt : i < paths.length := hw.workers.1 ▸ hi
    have hstands := hw.workers.2 i paths[i] st (List.getElem?_eq_getElem hlt)
      ((List.getElem?_eq_getElem hi).trans (congrArg some hstage))
    cases st with
    | done f' =>
      cases hresult
      obtain ⟨-, hpath, r, hlints, hrecords⟩ := hstands.fits
      rw [hpath]
      exact ⟨List.getElem_mem hlt, r, hlints, hrecords⟩
    | _ => cases hresult
  have hclosing : ∀ {w : Crew κ} {t : BatchState κ}, stateAfter b.closing w.state = t →
      t.cache = w.state.cache := by
    rintro w _ rfl
    exact keeps_cache_closing b w.state
  cases h with
  | objected begun => exact ⟨⟨ops, (opening_eq_error begun).2.cache, hops⟩, nofun⟩
  | stopped begun worked | interrupted begun worked =>
    have hw := sound_of_works ops hfaithful hops hkeeps begun worked
    exact ⟨hw.cache, hmade hw⟩
  | closed begun worked ended calm closed =>
    have hw := sound_of_works ops hfaithful hops hkeeps begun worked
    rw [hclosing (stateAfter_of_ok closed)]
    exact ⟨hw.cache, hmade hw⟩
  | unclosed begun worked ended calm closed =>
    have hw := sound_of_works ops hfaithful hops hkeeps begun worked
    rw [hclosing (stateAfter_of_error closed)]
    exact ⟨hw.cache, hmade hw⟩

end Batch

end MarkupLint
