import MarkupLint.Proofs.Contract
import MarkupLint.Proofs.Remembering

/-! # Workers

    The files of a batch can be linted by workers, one for each file, that
    take turns in any order.  A worker goes from stage to stage, and what it
    does at each is a step of the batch; between two stages the others may
    move.  `Stage.next_moves` says all that a move can do, and
    `Stage.next_fails` for what reasons it can fail. -/

namespace MarkupLint

/-- No hook objects at a moment. -/
def Batch.Agreed (b : Batch) (p : HookPoint) : Prop := (p.announce b.hooks).2 = none

/-- What linting a file gives, without a cache. -/
def Batch.Lints (b : Batch) (o : BatchOptions) (path : String) (r : LintResult) : Prop :=
  ∃ content, b.source.read path = .ok content ∧ b.lintContent o path content = .ok r ∧
    r.error = none

/-- Why a file cannot be linted. -/
inductive Batch.Fails (b : Batch) (o : BatchOptions) (path : String) : BatchError → Prop
  | objected {p : HookPoint} {reason : String} (told : p = .beforeFile path ∨ p = .afterFile path)
      (objects : (p.announce b.hooks).2 = some reason) : Fails b o path (.objection reason)
  | unreadable {e : ReadFailure} (unread : b.source.read path = .error e) :
    Fails b o path (.unreadable path e)
  | undecodable {content : Bytes} {e : BatchError} (readable : b.source.read path = .ok content)
      (unmade : b.lintContent o path content = .error e) : Fails b o path e
  | stopped {content : Bytes} {r : LintResult} {e : LintError}
      (readable : b.source.read path = .ok content)
      (made : b.lintContent o path content = .ok r) (unclean : r.error = some e) :
    Fails b o path (.lint e)

/-- How far a worker has come with its file. -/
inductive Stage where
  /-- Nothing was done yet. -/
  | waiting
  /-- The hooks agreed to the file. -/
  | announced
  | opened (content : Bytes)
  /-- The cache has no result for the content. -/
  | missed (content : Bytes)
  /-- The content was linted, and the result is not kept yet. -/
  | linted (content : Bytes) (r : LintResult)
  /-- The hooks were not told of the result yet. -/
  | found (f : FileResult)
  | done (f : FileResult)
  | failed (e : BatchError)

namespace Stage

variable {κ : Type} [ResultCache κ]

/-- The step from a stage to the next. -/
def next (b : Batch) (o : BatchOptions) (path : String) : Stage → BatchM κ Stage
  | .waiting => do
    b.announce (.beforeFile path)
    return .announced
  | .announced => return .opened (← b.read path)
  | .opened content => do
    match ← b.lookUp o path content with
    | some records => do
      Batch.note "cache hit" [("path", .text path)]
      return .found { path := path, records := records, cached := true }
    | none => return .missed content
  | .missed content => return .linted content (← b.lintAfresh o path content)
  | .linted content r => do
    b.keep o path content r
    return .found { path := path, records := r.records, cached := false }
  | .found f => do
    b.conclude f
    return .done f
  | .done f => return .done f
  | .failed e => return .failed e

/-- The result, at the end. -/
def result? : Stage → Option FileResult
  | .done f => some f
  | _ => none

/-- What counts in the end: whether the result was found in the cache. -/
def tally : Stage → Nat
  | .done f => if f.cached then 1 else 0
  | _ => 0

/-- Nothing more is to be done. -/
def ended : Stage → Bool
  | .done _ | .failed _ => true
  | _ => false

/-- What one move can do: from a stage to a stage, with what is done to the
    cache. -/
inductive Move (b : Batch) (o : BatchOptions) (path : String) (c : κ) :
    Stage → Stage → List CacheOp → Prop
  | announce (agreed : b.Agreed (.beforeFile path)) : Move b o path c .waiting .announced []
  | read {content : Bytes} (readable : b.source.read path = .ok content) :
    Move b o path c .announced (.opened content) []
  | hit {content : Bytes} {records : List Record}
      (hit : (ResultCache.get c b.now (o.key path content)).1 = some records) :
    Move b o path c (.opened content) (.found { path, records, cached := true })
      [.get b.now (o.key path content)]
  | miss {content : Bytes} :
    Move b o path c (.opened content) (.missed content) [.get b.now (o.key path content)]
  | lint {content : Bytes} {r : LintResult} (made : b.lintContent o path content = .ok r)
      (clean : r.error = none) : Move b o path c (.missed content) (.linted content r) []
  | keep {content : Bytes} {r : LintResult} (free : r.dependencies = []) (lifetime : Int) :
    Move b o path c (.linted content r) (.found { path, records := r.records, cached := false })
      [.set b.now (o.key path content) r.records lifetime]
  | pass {content : Bytes} {r : LintResult} :
    Move b o path c (.linted content r) (.found { path, records := r.records, cached := false }) []
  | conclude {f : FileResult} (agreed : b.Agreed (.afterFile f.path)) :
    Move b o path c (.found f) (.done f) []
  | rest {st : Stage} (ended : st.ended = true) : Move b o path c st st []

end Stage

/-! ## What the steps do -/

namespace BatchState

variable {κ : Type}

/-- What hooks were told of the end of the batch. -/
def endings (s : BatchState κ) : List HookEvent := s.events.filter (·.point = .afterLint)

/-- The cache, the hits and the results are the same, and the hooks were told
    of no end. -/
structure Same (s t : BatchState κ) : Prop where
  cache : t.cache = s.cache
  hits : t.hits = s.hits
  results : t.results = s.results
  endings : t.endings = s.endings

theorem Same.refl (s : BatchState κ) : s.Same s := ⟨rfl, rfl, rfl, rfl⟩

end BatchState

namespace HookPoint

/-- Every event tells of the moment. -/
theorem point_of_mem_announce {p : HookPoint} {hooks : List Hook} {e : HookEvent}
    (h : e ∈ (p.announce hooks).1) : e.point = p := by
  induction hooks with
  | nil => cases h
  | cons hook hooks ih =>
    simp only [announce] at h
    split at h
    · rw [List.mem_singleton.mp h]
    · rcases List.mem_cons.mp h with rfl | h
      · rfl
      · exact ih h

/-- If no hook objects, each is told. -/
theorem announce_of_agreed {p : HookPoint} {hooks : List Hook} (h : (p.announce hooks).2 = none) :
    (p.announce hooks).1 = hooks.map fun hook => ⟨hook.name, p⟩ := by
  induction hooks with
  | nil => rfl
  | cons hook hooks ih =>
    simp only [announce] at h ⊢
    split at h
    · cases h
    · rename_i hagrees
      rw [List.map_cons, ← ih h]

end HookPoint

namespace Batch

variable {κ : Type} {b : Batch} {o : BatchOptions} {p : HookPoint} {path : String} {content : Bytes}
  {s t : BatchState κ} {e : BatchError}

/-- The state after hooks were told of a moment. -/
def told (b : Batch) (p : HookPoint) (s : BatchState κ) : BatchState κ :=
  { s with events := s.events ++ (p.announce b.hooks).1 }

theorem same_told (b : Batch) (s : BatchState κ) (hp : p ≠ .afterLint) : s.Same (b.told p s) := by
  refine ⟨rfl, rfl, rfl, ?_⟩
  have hnone : (p.announce b.hooks).1.filter (·.point = .afterLint) = [] := by
    refine List.filter_eq_nil_iff.mpr fun e he => ?_
    simpa [HookPoint.point_of_mem_announce he] using hp
  rw [BatchState.endings, told, List.filter_append, hnone, List.append_nil]
  rfl

theorem announce_eq_ok {u : Unit} (h : b.announce p s = .ok u t) : b.Agreed p ∧ t = b.told p s := by
  obtain ⟨_, _, hmodify, hrest⟩ := bind_eq_ok.mp h
  cases hmodify
  unfold Agreed
  cases hobjection : (p.announce b.hooks).2 with
  | none =>
    simp only [hobjection] at hrest
    cases hrest
    exact ⟨rfl, rfl⟩
  | some reason =>
    simp only [hobjection] at hrest
    cases hrest

theorem announce_eq_error (h : b.announce p s = .error e t) :
    (∃ reason, (p.announce b.hooks).2 = some reason ∧ e = .objection reason) ∧ t = b.told p s := by
  rcases bind_eq_error.mp h with hmodify | ⟨_, _, hmodify, hrest⟩
  · cases hmodify
  cases hmodify
  cases hobjection : (p.announce b.hooks).2 with
  | none =>
    simp only [hobjection] at hrest
    cases hrest
  | some reason =>
    simp only [hobjection] at hrest
    cases hrest
    exact ⟨⟨reason, rfl, rfl⟩, rfl⟩

/-- Telling hooks adds no result. -/
theorem keeps_results_announce (b : Batch) (p : HookPoint) :
    Keeps (fun s : BatchState κ => s.results) (b.announce p) := by
  refine .bind (.modify _ fun _ => rfl) fun _ => ?_
  split
  · exact .throw _
  · exact .pure _

theorem read_eq_ok (h : b.read path s = .ok content t) :
    b.source.read path = .ok content ∧ s.Same t := by
  unfold read at h
  cases hread : b.source.read path with
  | ok content' =>
    rw [hread] at h
    cases h
    exact ⟨rfl, rfl, rfl, rfl, rfl⟩
  | error e =>
    rw [hread] at h
    cases h

theorem read_eq_error (h : b.read path s = .error e t) :
    (∃ reason, b.source.read path = .error reason ∧ e = .unreadable path reason) ∧ s.Same t := by
  unfold read at h
  cases hread : b.source.read path with
  | ok content =>
    rw [hread] at h
    cases h
  | error reason =>
    rw [hread] at h
    cases h
    exact ⟨⟨reason, rfl, rfl⟩, .refl s⟩

theorem lintAfresh_eq_ok {r : LintResult} (h : b.lintAfresh o path content s = .ok r t) :
    b.lintContent o path content = .ok r ∧ r.error = none ∧ s.Same t := by
  unfold lintAfresh at h
  cases hmade : b.lintContent o path content with
  | error e =>
    rw [hmade] at h
    cases h
  | ok made =>
    rw [hmade] at h
    obtain ⟨_, _, hmodify, hrest⟩ := bind_eq_ok.mp h
    cases hmodify
    cases herror : made.error with
    | some e =>
      simp only [herror] at hrest
      cases hrest
    | none =>
      simp only [herror] at hrest
      cases hrest
      exact ⟨rfl, herror, rfl, rfl, rfl, rfl⟩

theorem lintAfresh_eq_error (hread : b.source.read path = .ok content)
    (h : b.lintAfresh o path content s = .error e t) : b.Fails o path e ∧ s.Same t := by
  unfold lintAfresh at h
  cases hmade : b.lintContent o path content with
  | error e =>
    rw [hmade] at h
    cases h
    exact ⟨.undecodable hread hmade, .refl s⟩
  | ok made =>
    rw [hmade] at h
    rcases bind_eq_error.mp h with hmodify | ⟨_, _, hmodify, hrest⟩
    · cases hmodify
    cases hmodify
    cases herror : made.error with
    | some e =>
      simp only [herror] at hrest
      cases hrest
      exact ⟨.stopped hread hmade herror, rfl, rfl, rfl, rfl⟩
    | none =>
      simp only [herror] at hrest
      cases hrest

/-- A key is looked up as the cache answers for it. -/
theorem lookUp_run [ResultCache κ] (b : Batch) (o : BatchOptions) (path : String) (content : Bytes)
    (s : BatchState κ) :
    let answer := ResultCache.get s.cache b.now (o.key path content)
    b.lookUp o path content s = .ok answer.1 { s with cache := answer.2 } := rfl

/-- The state after the result of a file was counted. -/
def counted (f : FileResult) (s : BatchState κ) : BatchState κ :=
  if f.cached then { s with hits := s.hits + 1 } else s

/-- The result of a file is counted, told and added. -/
theorem conclude_run (b : Batch) (f : FileResult) (s : BatchState κ) :
    b.conclude f s = (b.announce (.afterFile f.path) >>= fun _ =>
      modify fun s => { s with results := s.results ++ [f] }) (counted f s) := by
  unfold conclude counted
  cases f.cached <;> rfl

theorem hits_counted (f : FileResult) (s : BatchState κ) :
    (counted f s).hits = s.hits + (if f.cached then 1 else 0) := by
  unfold counted
  split <;> rfl

theorem same_counted (f : FileResult) (s : BatchState κ) :
    (counted f s).cache = s.cache ∧ (counted f s).results = s.results ∧
      (counted f s).endings = s.endings := by
  unfold counted
  split <;> exact ⟨rfl, rfl, rfl⟩

/-- A result is added once the hooks agree to it. -/
theorem conclude_eq_ok {f : FileResult} {u : Unit} (h : b.conclude f s = .ok u t) :
    b.Agreed (.afterFile f.path) ∧ t.cache = s.cache ∧
      t.hits = s.hits + (if f.cached then 1 else 0) ∧ t.results = s.results ++ [f] ∧
      t.endings = s.endings := by
  rw [conclude_run] at h
  obtain ⟨_, _, hannounce, hadd⟩ := bind_eq_ok.mp h
  obtain ⟨hagreed, rfl⟩ := announce_eq_ok hannounce
  cases hadd
  obtain ⟨hcache, hresults, hendings⟩ := same_counted f s
  have htold := b.same_told (counted f s) (p := .afterFile f.path) nofun
  exact ⟨hagreed, hcache, hits_counted f s, congrArg (· ++ [f]) hresults,
    htold.endings.trans hendings⟩

/-- A hook may object to the result of a file, which is not added then. -/
theorem conclude_eq_error {f : FileResult} (h : b.conclude f s = .error e t) :
    (∃ reason, ((HookPoint.afterFile f.path).announce b.hooks).2 = some reason ∧
      e = .objection reason) ∧ t.cache = s.cache ∧ t.results = s.results ∧
      t.endings = s.endings := by
  rw [conclude_run] at h
  rcases bind_eq_error.mp h with hannounce | ⟨_, _, -, hadd⟩
  · obtain ⟨hobjects, rfl⟩ := announce_eq_error hannounce
    obtain ⟨hcache, hresults, hendings⟩ := same_counted f s
    have htold := b.same_told (counted f s) (p := .afterFile f.path) nofun
    exact ⟨hobjects, hcache, hresults, htold.endings.trans hendings⟩
  · cases hadd

end Batch

/-! ## What a move does -/

namespace Stage

variable {κ : Type} [ResultCache κ] {b : Batch} {o : BatchOptions} {path : String}
  {st st' : Stage} {s t : BatchState κ} {e : BatchError}

/-- **All that a move can do.**  It leads to the next stage, does to the cache
    what is listed, counts a hit if the worker is done with one, adds the
    result that it is done with, and tells the hooks of no end of the batch. -/
theorem next_moves (h : st.next b o path s = .ok st' t) :
    ∃ ops, Move b o path s.cache st st' ops ∧ t.cache = ResultCache.after s.cache ops ∧
      t.hits + st.tally = s.hits + st'.tally ∧
      (t.results ++ st.result?.toList).Perm (s.results ++ st'.result?.toList) ∧
      t.endings = s.endings := by
  cases st with
  | waiting =>
    obtain ⟨_, _, hannounce, hrest⟩ := bind_eq_ok.mp h
    obtain ⟨hagreed, rfl⟩ := Batch.announce_eq_ok hannounce
    cases hrest
    exact ⟨[], .announce hagreed, rfl, rfl, .refl _,
      (b.same_told s (p := .beforeFile path) nofun).endings⟩
  | announced =>
    obtain ⟨content, _, hread, hrest⟩ := bind_eq_ok.mp h
    obtain ⟨hreadable, hsame⟩ := Batch.read_eq_ok hread
    cases hrest
    exact ⟨[], .read hreadable, hsame.cache, congrArg (· + 0) hsame.hits,
      .of_eq (congrArg (· ++ []) hsame.results), hsame.endings⟩
  | opened content =>
    obtain ⟨found, u, hlookUp, hrest⟩ := bind_eq_ok.mp h
    rw [Batch.lookUp_run] at hlookUp
    cases hlookUp
    cases hfound : (ResultCache.get s.cache b.now (o.key path content)).1 with
    | none =>
      simp only [hfound] at hrest
      cases hrest
      exact ⟨_, .miss, rfl, rfl, .refl _, rfl⟩
    | some records =>
      simp only [hfound] at hrest
      cases hrest
      exact ⟨_, .hit hfound, rfl, rfl, .refl _, rfl⟩
  | missed content =>
    obtain ⟨r, _, hlint, hrest⟩ := bind_eq_ok.mp h
    obtain ⟨hmade, hclean, hsame⟩ := Batch.lintAfresh_eq_ok hlint
    cases hrest
    exact ⟨[], .lint hmade hclean, hsame.cache, congrArg (· + 0) hsame.hits,
      .of_eq (congrArg (· ++ []) hsame.results), hsame.endings⟩
  | linted content r =>
    obtain ⟨_, u, hkeep, hrest⟩ := bind_eq_ok.mp h
    cases hrest
    unfold Batch.keep at hkeep
    split at hkeep
    · -- Only what depends on no other file is kept.
      rename_i hfree
      cases hkeep
      exact ⟨_, .keep (List.isEmpty_iff.mp hfree) _, rfl, rfl, .refl _, rfl⟩
    · cases hkeep
      exact ⟨[], .pass, rfl, rfl, .refl _, rfl⟩
  | found f =>
    obtain ⟨_, u, hconclude, hrest⟩ := bind_eq_ok.mp h
    cases hrest
    obtain ⟨hagreed, hcache, hhits, hadded, hendings⟩ := Batch.conclude_eq_ok hconclude
    exact ⟨[], .conclude hagreed, hcache, hhits, .of_eq (by rw [hadded]; exact List.append_nil _),
      hendings⟩
  | done f =>
    cases h
    exact ⟨[], .rest rfl, rfl, rfl, .refl _, rfl⟩
  | failed e =>
    cases h
    exact ⟨[], .rest rfl, rfl, rfl, .refl _, rfl⟩

/-- What is known of a worker at a stage: its result, if it has one, is that
    of linting the file. -/
def Fits (b : Batch) (o : BatchOptions) (path : String) : Stage → Prop
  | .waiting | .failed _ => True
  | .announced => b.Agreed (.beforeFile path)
  | .opened content | .missed content =>
    b.Agreed (.beforeFile path) ∧ b.source.read path = .ok content
  | .linted content r =>
    b.Agreed (.beforeFile path) ∧ b.source.read path = .ok content ∧
      b.lintContent o path content = .ok r ∧ r.error = none
  | .found f =>
    b.Agreed (.beforeFile path) ∧ f.path = path ∧ ∃ r, b.Lints o path r ∧ f.records = r.records
  | .done f =>
    (b.Agreed (.beforeFile path) ∧ b.Agreed (.afterFile path)) ∧ f.path = path ∧
      ∃ r, b.Lints o path r ∧ f.records = r.records

/-- A move goes on with what is known, if the cache answers with what linting
    gives. -/
theorem Move.fits {c : κ} {ops : List CacheOp} (h : Move b o path c st st' ops)
    (hcache : ∀ content records, b.source.read path = .ok content →
      (ResultCache.get c b.now (o.key path content)).1 = some records →
      ∃ r, b.Lints o path r ∧ records = r.records)
    (hst : st.Fits b o path) : st'.Fits b o path := by
  cases h with
  | announce agreed => exact agreed
  | read readable => exact ⟨hst, readable⟩
  | hit hit => exact ⟨hst.1, rfl, hcache _ _ hst.2 hit⟩
  | miss => exact hst
  | lint made clean => exact ⟨hst.1, hst.2, made, clean⟩
  | keep | pass => exact ⟨hst.1, rfl, _, ⟨_, hst.2⟩, rfl⟩
  | conclude agreed =>
    obtain ⟨hbefore, rfl, hmade⟩ := hst
    exact ⟨⟨hbefore, agreed⟩, rfl, hmade⟩
  | rest => exact hst

/-- **Why a move can fail.**  A hook objects, or the file cannot be linted;
    the cache is as it was, no result is added, and the hooks were told of no
    end of the batch. -/
theorem next_fails (hst : st.Fits b o path) (h : st.next b o path s = .error e t) :
    b.Fails o path e ∧ st.result? = none ∧ t.cache = s.cache ∧ t.results = s.results ∧
      t.endings = s.endings := by
  cases st with
  | waiting =>
    rcases bind_eq_error.mp h with hannounce | ⟨_, _, -, hrest⟩
    · obtain ⟨⟨reason, hobjects, rfl⟩, rfl⟩ := Batch.announce_eq_error hannounce
      have hsame := b.same_told s (p := .beforeFile path) nofun
      exact ⟨.objected (.inl rfl) hobjects, rfl, hsame.cache, hsame.results, hsame.endings⟩
    · cases hrest
  | announced =>
    rcases bind_eq_error.mp h with hread | ⟨_, _, -, hrest⟩
    · obtain ⟨⟨reason, hunread, rfl⟩, hsame⟩ := Batch.read_eq_error hread
      exact ⟨.unreadable hunread, rfl, hsame.cache, hsame.results, hsame.endings⟩
    · cases hrest
  | opened content =>
    -- Neither looking up nor keeping can fail.
    rcases bind_eq_error.mp h with hlookUp | ⟨found, _, -, hrest⟩
    · cases hlookUp
    · cases found <;> cases hrest
  | missed content =>
    rcases bind_eq_error.mp h with hlint | ⟨_, _, -, hrest⟩
    · obtain ⟨hfails, hsame⟩ := Batch.lintAfresh_eq_error hst.2 hlint
      exact ⟨hfails, rfl, hsame.cache, hsame.results, hsame.endings⟩
    · cases hrest
  | linted content r =>
    rcases bind_eq_error.mp h with hkeep | ⟨_, _, -, hrest⟩
    · unfold Batch.keep at hkeep
      split at hkeep <;> cases hkeep
    · cases hrest
  | found f =>
    rcases bind_eq_error.mp h with hconclude | ⟨_, _, -, hrest⟩
    · obtain ⟨⟨reason, hobjects, rfl⟩, hcache, hresults, hendings⟩ :=
        Batch.conclude_eq_error hconclude
      exact ⟨.objected (.inr (congrArg _ hst.2.1)) hobjects, rfl, hcache, hresults, hendings⟩
    · cases hrest
  | done f => cases h
  | failed e => cases h

end Stage

end MarkupLint
