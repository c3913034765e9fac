import MarkupLint.Proofs.Dependency
import MarkupLint.Proofs.Fingerprint
import MarkupLint.Proofs.Serial

/-! # Nobody notices the cache

    A result is only kept if it depends on no file, and it is found again only
    for a file whose key has the same parts.  So in a history of batches,
    between which files may change, what is found in the cache is what linting
    the file gives now.  The parts are the same just for files that are read
    and checked alike, as far as names to ignore hold no NUL. -/

namespace MarkupLint

/-- Batches that go on with one cache, each with its results: whatever the
    files, the options and the clock of a batch are, and however it goes. -/
inductive History {κ : Type} [ResultCache κ] : κ → List (Round × List FileResult) → Prop
  | nil {c : κ} : History c []
  | cons {c : κ} {r : Round} {results : List FileResult} {cancelled : Bool} {s : BatchState κ}
      {error : Option BatchError} {later : List (Round × List FileResult)}
      (performed : r.batch.Performs r.options cancelled c r.paths s results error)
      (continued : History s.cache later) : History c ((r, results) :: later)

/-- What depends on no file is linted alike, whatever the files and the clock
    are. -/
theorem Batch.lintContent_elsewhere {b b' : Batch} {o : BatchOptions} {path : String}
    {content : Bytes} {made : LintResult} (hconstructs : b.env.constructs = b'.env.constructs)
    (hnesting : b.env.nesting = b'.env.nesting)
    (hconventions : b.env.conventions = b'.env.conventions)
    (hmade : b.lintContent o path content = .ok made) (hfree : made.dependencies = []) :
    b'.lintContent o path content = .ok made := by
  have henv : ({ env := b'.env } : Linter)
      = ({ env := b.env } : Linter).within ⟨b'.env.files, b'.env.clock⟩ := by
    simp only [Linter.within, hconstructs, hnesting, hconventions]
  unfold lintContent at hmade ⊢
  rw [← hconventions]
  cases htext : b.env.conventions.decoders.decode content o.encoding with
  | error e =>
    rw [htext] at hmade
    cases hmade
  | ok text =>
    rw [htext] at hmade
    cases hmade
    have hsame := (Linter.dependencies_complete { env := b.env } text
      { source := path, ignoreDirectives := o.directives, ignoreRoles := o.roles }
      ⟨b.env.files, b.env.clock⟩).2 hfree ⟨b'.env.files, b'.env.clock⟩
    dsimp only
    rw [henv, hsame]
    rfl

/-- **Nobody notices the cache.**  Let a cache that is empty answer for a key
    with nothing but what was last kept under it.  In a history of batches over
    one namespace, between which the files change in any way, each result
    holds the records that linting the file as it is now gives without a
    cache, however the workers of its batch moved. -/
theorem History.transparent {κ : Type} [ResultCache κ] {c : κ}
    {played : List (Round × List FileResult)} (h : History c played)
    (hfaithful : ResultCache.Faithful c)
    (hnamespace : ∀ p ∈ played, ∀ q ∈ played,
      p.1.batch.env.constructs = q.1.batch.env.constructs ∧
        p.1.batch.env.nesting = q.1.batch.env.nesting ∧
        p.1.batch.env.conventions = q.1.batch.env.conventions)
    (hclean : ∀ p ∈ played, p.1.options.Clean) (hkeys : KeysApart (played.map Prod.fst)) :
    ∀ p ∈ played, ∀ f ∈ p.2, f.path ∈ p.1.paths ∧
      ∃ r, p.1.batch.Lints p.1.options f.path r ∧ f.records = r.records := by
  have hkeeps : ∀ p ∈ played, Crew.Keeps p.1.batch p.1.options p.1.paths
      (Genuine (played.map Prod.fst)) := by
    intro p hp
    refine keeps_genuine hkeys ?_ (List.mem_map_of_mem hp)
    intro r hr r' hr' path content path' content' made hparts hmade hfree
    obtain ⟨q, hq, rfl⟩ := List.mem_map.mp hr
    obtain ⟨q', hq', rfl⟩ := List.mem_map.mp hr'
    obtain ⟨rfl, rfl, hsame⟩ :=
      BatchOptions.lintContent_of_keyParts (hclean q hq) (hclean q' hq') hparts hmade
    obtain ⟨hconstructs, hnesting, hconventions⟩ := hnamespace q hq q' hq'
    exact Batch.lintContent_elsewhere hconstructs hnesting hconventions hsame hfree
  -- The history from some batch on, with what was done to the cache before.
  have hall : ∀ (ops : List CacheOp) (suffix : List (Round × List FileResult)),
      Crew.Honest (Genuine (played.map Prod.fst)) ops → suffix ⊆ played →
      History (ResultCache.after c ops) suffix → ∀ p ∈ suffix, ∀ f ∈ p.2, f.path ∈ p.1.paths ∧
        ∃ r, p.1.batch.Lints p.1.options f.path r ∧ f.records = r.records := by
    intro ops suffix hops hsuffix hhistory
    generalize hc' : ResultCache.after c ops = c' at hhistory
    induction hhistory generalizing ops with
    | nil => exact nofun
    | @cons c' r results cancelled s error later performed continued ih =>
      subst hc'
      obtain ⟨hfirst, hlater⟩ := List.cons_subset.mp hsuffix
      obtain ⟨⟨more, hcache, hmore⟩, hresults⟩ :=
        Batch.performs_sound hfaithful hops (hkeeps _ hfirst) performed
      intro p hp
      rcases List.mem_cons.mp hp with rfl | hp
      · exact hresults
      · exact ih more hmore hlater hcache.symm p hp
  exact hall [] played nofun (fun _ => id) h

/-- A file that is linted twice, while another file changes and time goes
    by. -/
theorem History.transparent_twice :
    let batch (files : FileTree) (clock : Int) : Batch :=
      { env := { constructs := .standard, files := files, clock := clock, nesting := 3 }
        source := .table [("a", [42, 98])] }
    let first : Round := ⟨batch {} 0, { encoding := "utf-8" }, ["a"]⟩
    let second : Round := ⟨batch { entries := [("b", .file [])] } 86400, { encoding := "UTF-8" }, ["a"]⟩
    let c : Data.Table (List Record) := []
    ∃ before after : BatchState (Data.Table (List Record)),
      before = (first.batch.run first.options c ["a"]).1 ∧
      after = (second.batch.run second.options before.cache ["a"]).1 ∧
      KeysApart [first, second] ∧
      ∀ f ∈ after.results, f.path ∈ ["a"] ∧
        ∃ r, second.batch.Lints second.options f.path r ∧ f.records = r.records := by
  intro batch first second c
  have hread : ∀ r ∈ [first, second], ∀ path content, r.Reads path content →
      r.options.keyParts path content = first.options.keyParts "a" [42, 98] := by
    rintro r hr path content ⟨hpath, hcontent⟩
    rcases List.mem_pair.mp hr with rfl | rfl
    · obtain rfl := List.mem_singleton.mp hpath
      cases hcontent
      rfl
    · obtain rfl := List.mem_singleton.mp hpath
      cases hcontent
      decide +kernel
  have hkeys : KeysApart [first, second] := fun r hr r' hr' path content path' content' h h' _ =>
    (hread r hr path content h).trans (hread r' hr' path' content' h').symm
  have hbefore := first.batch.run_performs first.options c ["a"] false
  obtain ⟨before, hb⟩ : ∃ s, s = (first.batch.run first.options c ["a"]).1 := ⟨_, rfl⟩
  have hafter := second.batch.run_performs second.options before.cache ["a"] false
  obtain ⟨after, ha⟩ : ∃ s, s = (second.batch.run second.options before.cache ["a"]).1 := ⟨_, rfl⟩
  rw [← hb] at hbefore
  rw [← ha] at hafter
  refine ⟨before, after, hb, ha, hkeys, ?_⟩
  have hhistory : History c [(first, before.results), (second, after.results)] :=
    .cons hbefore (.cons hafter .nil)
  have hboth : ∀ p ∈ [(first, before.results), (second, after.results)],
      p.1.batch.env.constructs = .standard ∧ p.1.batch.env.nesting = 3 ∧
        p.1.batch.env.conventions = .standard ∧ p.1.options.Clean := by
    intro p hp
    rcases List.mem_pair.mp hp with rfl | rfl <;> exact ⟨rfl, rfl, rfl, nofun⟩
  refine hhistory.transparent ResultCache.faithful_table (fun p hp q hq => ?_)
    (fun p hp => (hboth p hp).2.2.2) hkeys (second, after.results) (by simp)
  obtain ⟨hp, hp', hp'', -⟩ := hboth p hp
  obtain ⟨hq, hq', hq'', -⟩ := hboth q hq
  exact ⟨hp.trans hq.symm, hp'.trans hq'.symm, hp''.trans hq''.symm⟩

/-! ## What keys tell apart

    The names to ignore are one part of a key, joined by NUL, so lists of
    names give the same part just if they are the same when every name is
    cut at its NULs (`BatchOptions.joinNames_eq_iff`).  Names without NUL are
    cut nowhere.  Then all that the parts do not show is harmless: the letter
    case of the encoding and empty names.  With a NUL in a name it is not
    (`keyParts_run_together`). -/

namespace BatchOptions

variable {as bs : List String} {o o' : BatchOptions} {path path' : String} {content content' : Bytes}

/-- Names, each cut at its NULs; no names are like an empty one. -/
def cutNames (names : List String) : List (List Char) :=
  if names = [] then [[]] else names.flatMap fun name => name.toList.splitOn '\x00'

theorem splitOn_intercalate_names (names : List String) :
    ("\x00".intercalate names).toList.splitOn '\x00' = cutNames names := by
  induction names with
  | nil => rfl
  | cons name names ih =>
    cases names with
    | nil => simp [cutNames, String.intercalate_singleton]
    | cons next names =>
      have hjoin : ("\x00".intercalate (name :: next :: names)).toList
          = name.toList ++ '\x00' :: ("\x00".intercalate (next :: names)).toList := by
        simp [String.toList_intercalate, List.intercalate]
      rw [hjoin, List.splitOn_append_cons_self, ih]
      simp [cutNames]

/-- Names give the same part of a key just if they are the same when they are
    cut at their NULs. -/
theorem joinNames_eq_iff : joinNames as = joinNames bs ↔ cutNames as = cutNames bs := by
  rw [← splitOn_intercalate_names as, ← splitOn_intercalate_names bs]
  constructor
  · intro h
    rw [packText_injective h]
  · intro h
    -- What was cut is put together again.
    have hjoined := congrArg ['\x00'].intercalate h
    rw [List.intercalate_splitOn, List.intercalate_splitOn] at hjoined
    rw [joinNames, joinNames, String.toList_inj.mp hjoined]

/-- The parts of a key show the path, the bytes, the encoding but for its
    letter case, and the names that are ignored when they are cut at their
    NULs. -/
theorem keyParts_eq_iff :
    o.keyParts path content = o'.keyParts path' content' ↔
      path = path' ∧ content = content' ∧
      Text.lowerString o.encoding = Text.lowerString o'.encoding ∧
      cutNames o.directives = cutNames o'.directives ∧ cutNames o.roles = cutNames o'.roles := by
  have hpack : ∀ {s t : String}, packText s = packText t ↔ s = t :=
    ⟨packText_injective, congrArg packText⟩
  simp only [keyParts, List.cons.injEq, and_true, true_and, hpack, joinNames_eq_iff]

end BatchOptions

namespace Batch

variable {b b' : Batch} {o o' : BatchOptions} {path path' : String} {content content' : Bytes}

/-- The records that linting the content of a file gives, if it can be
    linted. -/
def recordsOf? (b : Batch) (o : BatchOptions) (path : String) (content : Bytes) :
    Option (List Record) :=
  match b.lintContent o path content with
  | .ok r => if r.error.isNone then some r.records else none
  | .error _ => none

/-- What the clock says does not show in a result. -/
theorem lintContent_within (hconstructs : b.env.constructs = b'.env.constructs)
    (hfiles : b.env.files = b'.env.files) (hnesting : b.env.nesting = b'.env.nesting)
    (hconventions : b.env.conventions = b'.env.conventions) (o : BatchOptions) (path : String)
    (content : Bytes) :
    b.lintContent o path content = b'.lintContent o path content := by
  have hlint : ∀ (text : List Char) (options : LintOptions),
      (Linter.lint { env := b.env } text options).1 = (Linter.lint { env := b'.env } text options).1 := by
    intro text options
    have henv : ({ env := b'.env } : Linter)
        = ({ env := b.env } : Linter).within ⟨b'.env.files, b'.env.clock⟩ := by
      simp only [Linter.within, hconstructs, hnesting, hconventions]
    rw [henv]
    exact Linter.lint_likewise (v := ⟨b.env.files, b.env.clock⟩) { env := b.env } text options
      fun path _ => congrArg (FileTree.read · path) hfiles
  simp only [lintContent, hlint, hconventions]

/-- Parts that are the same have the same records. -/
theorem recordsOf?_of_keyParts (ho : o.Clean) (ho' : o'.Clean)
    (hparts : o.keyParts path content = o'.keyParts path' content') :
    b.recordsOf? o path content = b.recordsOf? o' path' content' := by
  unfold recordsOf?
  cases hmade : b.lintContent o path content with
  | ok r =>
    rw [(BatchOptions.lintContent_of_keyParts ho ho' hparts hmade).2.2]
  | error e =>
    cases hmade' : b.lintContent o' path' content' with
    | ok r =>
      have hback := (BatchOptions.lintContent_of_keyParts ho' ho hparts.symm hmade').2.2
      rw [hmade] at hback
      cases hback
    | error e' => rfl

/-- **A key separates everything that matters.**  Its parts are the same just
    if the paths, the bytes, the encodings in any letter case, and the names
    to ignore, each cut at its NULs, are.  So requests over the same names and
    files whose records differ have different parts, if no name to ignore
    holds a NUL. -/
theorem keyParts_separate (hconstructs : b.env.constructs = b'.env.constructs)
    (hfiles : b.env.files = b'.env.files) (hnesting : b.env.nesting = b'.env.nesting)
    (hconventions : b.env.conventions = b'.env.conventions) :
    (o.keyParts path content = o'.keyParts path' content' ↔
      path = path' ∧ content = content' ∧
      Text.lowerString o.encoding = Text.lowerString o'.encoding ∧
      BatchOptions.cutNames o.directives = BatchOptions.cutNames o'.directives ∧
      BatchOptions.cutNames o.roles = BatchOptions.cutNames o'.roles) ∧
    (o.Clean → o'.Clean → b.recordsOf? o path content ≠ b'.recordsOf? o' path' content' →
      o.keyParts path content ≠ o'.keyParts path' content') := by
  refine ⟨BatchOptions.keyParts_eq_iff, fun ho ho' hrecords hparts => hrecords ?_⟩
  rw [recordsOf?_of_keyParts ho ho' hparts]
  simp only [recordsOf?, lintContent_within hconstructs hfiles hnesting hconventions]

/-- A directive that is unknown, and the same one on another day when it is
    ignored. -/
theorem keyParts_separate_ignored :
    let b (clock : Int) : Batch := { env := ⟨{}, {}, clock, 3, .standard⟩, source := .table [] }
    let content := packText ".. a::\n"
    let o : BatchOptions := {}
    let o' : BatchOptions := { ignoreDirectives := ["a"] }
    (b 0).recordsOf? o "d" content ≠ (b 86400).recordsOf? o' "d" content ∧
      o.keyParts "d" content ≠ o'.keyParts "d" content := by
  intro b content o o'
  have hrecords : (b 0).recordsOf? o "d" content ≠ (b 86400).recordsOf? o' "d" content := by
    decide +kernel
  have hclean : o'.Clean := by
    intro name hname
    obtain rfl := List.mem_singleton.mp hname
    decide
  exact ⟨hrecords, (keyParts_separate (by rfl) (by rfl) (by rfl) (by rfl)).2 nofun hclean hrecords⟩

/-- Two names to ignore run together in one name with a NUL: the parts are the
    same and the records are not. -/
theorem keyParts_run_together :
    let b : Batch := { env := ⟨{}, {}, 0, 3, .standard⟩, source := .table [] }
    let content := packText ".. a::\n"
    let o : BatchOptions := { ignoreDirectives := ["a", "b"] }
    let o' : BatchOptions := { ignoreDirectives := ["a\x00b"] }
    b.recordsOf? o "d" content ≠ b.recordsOf? o' "d" content ∧
      o.keyParts "d" content = o'.keyParts "d" content := by
  decide +kernel

end Batch

end MarkupLint
