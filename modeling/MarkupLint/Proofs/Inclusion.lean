import Mathlib.Data.List.Perm.Subperm
import MarkupLint.Proofs.Nesting
import MarkupLint.Proofs.Paths

/-! # Files inside one another

    An include refuses the files that are being included, so no path of an
    included file occurs twice among the files that are being read.  Inside a
    file a path is clean unless it starts at the root, and a clean path that
    leads to a file of the tree is the path of that file; only the document
    itself and a file called `<string>` take paths as they are written.  So
    there are hardly more files inside one another than there are files in
    the tree and paths of files out of it, as long as no table takes its
    cells from a file that is being read: against that there is no guard. -/

namespace MarkupLint

namespace FileTree

/-- The path of the file that a path leads to; a path that leads out of the
    tree stands for itself. -/
def place (t : FileTree) (path : String) : String :=
  match t.resolve path with
  | .ok q => q
  | .error _ => path

/-- The path is that of the file it leads to. -/
def Tidy (t : FileTree) (path : String) : Prop := t.place path = path

instance (t : FileTree) : DecidablePred t.Tidy :=
  fun path => inferInstanceAs (Decidable (t.place path = path))

/-- The path leads to a file that can be read. -/
def Readable (t : FileTree) (path : String) : Prop := ∃ content, t.read path = .ok content

variable {t : FileTree} {path q : String}

theorem place_of_ok (h : t.resolve path = .ok q) : t.place path = q := by
  rw [place, h]

theorem place_of_outside (h : t.resolve path = .error .outside) : t.place path = path := by
  rw [place, h]

theorem readable_of_readText {decoders : Text.Decoders} {encoding : String} {text : List Char}
    (h : t.readText decoders path encoding = .ok text) : t.Readable path := by
  simp only [readText] at h
  split at h
  · cases h
  · exact ⟨_, ‹_›⟩

theorem Readable.ne_empty (h : t.Readable path) : path ≠ "" := by
  rintro rfl
  obtain ⟨content, hread⟩ := h
  rcases read_eq_ok hread with ⟨q, hresolve, -⟩ | ⟨hresolve, -⟩
  · cases hresolve
  · cases hresolve

/-- What can be read is one of the files of the tree, or lies out of it. -/
theorem Readable.mem_filesAt (h : t.Readable path) :
    (∃ q ∈ t.filesAt ".", t.resolve path = .ok q) ∨ t.resolve path = .error .outside := by
  obtain ⟨content, hread⟩ := h
  rcases read_eq_ok hread with ⟨q, hresolve, hentry⟩ | ⟨hresolve, -⟩
  · refine .inl ⟨q, ?_, hresolve⟩
    rw [filesAt, List.mem_mergeSort, List.mem_filterMap]
    exact ⟨_, Data.Table.mem_of_get? hentry, by simp [isBelow, show Path.clean "." = "." by decide]⟩
  · exact .inr hresolve

end FileTree

/-- Whether a file takes the paths that stand in it as they are written. -/
def takesAsWritten (source : String) : Prop := source = "" ∨ source = "<string>"

/-- A path that can be read is tidy, unless it is taken as it is written. -/
theorem Call.tidy_resolvePath (c : Call) {argument : String} {t : FileTree}
    (hreadable : t.Readable (c.resolvePath argument)) (hsource : ¬takesAsWritten c.site.source) :
    t.Tidy (c.resolvePath argument) := by
  obtain ⟨q, -, hresolve⟩ | houtside := hreadable.mem_filesAt
  swap
  · exact FileTree.place_of_outside houtside
  have hrelative := FileTree.not_isAbs_of_resolve hresolve
  have hjoin : c.resolvePath argument
      = Path.clean (Path.dir c.site.source ++ "/" ++ squeezed argument) := by
    have hdir : Path.dir c.site.source ≠ "" := Path.clean_ne_empty _
    by_cases habs : Path.isAbs (squeezed argument) = true
    · simp only [resolvePath, habs, Bool.true_or, if_true] at hrelative
      cases hrelative
    · simp only [takesAsWritten, not_or] at hsource
      simp [resolvePath, habs, hsource, Path.join, hdir]
  rw [hjoin] at hresolve ⊢
  rw [FileTree.Tidy, FileTree.place_of_ok hresolve, FileTree.resolve_clean hresolve]

namespace Call

variable {c : Call} {path : String}

/-- The path of the file that is to be included; the name of a standard file,
    in angle brackets, means none. -/
def includeTarget? (c : Call) : Option String :=
  let argument := c.argument.toList
  if argument.head? = some '<' && argument.getLast? = some '>' then none
  else some (c.resolvePath c.argument)

theorem resolvePath_of_includeTarget? (h : c.includeTarget? = some path) :
    path = c.resolvePath c.argument := by
  simp only [includeTarget?] at h
  split at h
  · cases h
  · exact (Option.some.inj h).symm

theorem includePath_of_none (h : c.includeTarget? = none) (source : String) :
    ∃ reason, c.includePath source = .error (c.pathProblem reason) := by
  simp only [includeTarget?] at h
  split at h
  · rename_i hstandard
    refine ⟨SourceError.missing (String.ofList (c.argument.toList.drop 1).dropLast), ?_⟩
    simp only [includePath, hstandard, if_true]
  · cases h

theorem includePath_of_some (h : c.includeTarget? = some path) (source : String) :
    c.includePath source
      = if path = source ∨ path ∈ c.site.includes then .error (c.cycleProblem path source)
        else .ok path := by
  simp only [includeTarget?] at h
  split at h
  · cases h
  · rename_i hpath
    obtain rfl := Option.some.inj h
    simp only [includePath, hpath, Bool.false_eq_true, if_false, Bool.or_eq_true, decide_eq_true_eq,
      List.contains_iff_mem]

/-- A path that is admitted is that of no file that is being included. -/
theorem includePath_eq_ok {source : String} (h : c.includePath source = .ok path) :
    path = c.resolvePath c.argument ∧ ¬(path = source ∨ path ∈ c.site.includes) := by
  cases htarget : c.includeTarget? with
  | none =>
    obtain ⟨reason, hproblem⟩ := includePath_of_none htarget source
    cases hproblem.symm.trans h
  | some target =>
    rw [includePath_of_some htarget] at h
    split at h
    · cases h
    · rename_i hnew
      obtain rfl := Except.ok.inj h
      exact ⟨resolvePath_of_includeTarget? htarget, hnew⟩

end Call

/-- What is known of the files that are being read where a site is. -/
structure Chain (t : FileTree) (o : Origin) (files : List OpenFile) (site : Site) : Prop where
  includes : (files.filter (·.use = .included)).map (·.path) = site.includes
  distinct : (site.includes ++ [o.source]).Nodup
  source : site.source = site.includes.headD o.source
  readable : ∀ f ∈ files, t.Readable f.path
  /-- A file is included by a path that is not tidy only in the document or
      in a file called `<string>`. -/
  untidy : site.includes.countP (¬t.Tidy ·) ≤ 1 + site.includes.tail.count "<string>"

namespace Chain

variable {t : FileTree} {o : Origin} {files : List OpenFile} {site : Site}

theorem start (hincludes : site.includes = []) (hsource : site.source = o.source) :
    Chain t o [] site where
  includes := by rw [hincludes]; rfl
  distinct := by simp [hincludes]
  source := by rw [hincludes, hsource]; rfl
  readable := nofun
  untidy := by simp [hincludes]

theorem cells (h : Chain t o files site) {path : String} (hreadable : t.Readable path)
    (parent : NodeId) : Chain t o (⟨.cells, path⟩ :: files) (site.within parent) where
  includes := h.includes
  distinct := h.distinct
  source := h.source
  readable := List.forall_mem_cons.mpr ⟨hreadable, h.readable⟩
  untidy := h.untidy

/-- A file that is included is not being included already, and its path is
    tidy unless it is taken as it is written. -/
theorem included (h : Chain t o files site) {c : Call} (hsite : c.site = site) {path : String}
    (hadmitted : c.includePath o.source = .ok path) (hreadable : t.Readable path)
    (parent : NodeId) :
    Chain t o (⟨.included, path⟩ :: files) (c.includedSite path parent) := by
  subst hsite
  obtain ⟨rfl, hnew⟩ := Call.includePath_eq_ok hadmitted
  generalize hpath : c.resolvePath c.argument = path at *
  refine ⟨?_, ?_, rfl, List.forall_mem_cons.mpr ⟨hreadable, h.readable⟩, ?_⟩
  · show path :: _ = path :: _
    rw [← h.includes]
  · refine List.nodup_cons.mpr ⟨?_, h.distinct⟩
    simpa [or_comm] using hnew
  · have hbefore := h.untidy
    show List.countP _ (path :: c.site.includes) ≤ 1 + c.site.includes.count "<string>"
    rw [List.countP_cons]
    by_cases htidy : t.Tidy path
    · have : c.site.includes.tail.count "<string>" ≤ c.site.includes.count "<string>" :=
        (List.tail_sublist _).count_le _
      simp only [htidy, not_true_eq_false, decide_false, Bool.false_eq_true, if_false]
      omega
    · simp only [htidy, not_false_eq_true, decide_true, if_true]
      cases hincludes : c.site.includes with
      | nil => simp
      | cons outer rest =>
        -- The file that includes it can be read, so it is the one called `<string>`.
        have houter : outer = "<string>" := by
          have hsource := h.source
          rw [hincludes] at hsource
          obtain hnone | hstring : takesAsWritten c.site.source := by
            by_contra hresolved
            subst hpath
            exact htidy (c.tidy_resolvePath hreadable hresolved)
          · obtain ⟨f, hf, hfpath⟩ : ∃ f ∈ files, f.path = outer := by
              have hmem : outer ∈ (files.filter (·.use = .included)).map (·.path) := by
                rw [h.includes, hincludes]
                exact List.mem_cons_self
              obtain ⟨f, hf, rfl⟩ := List.mem_map.mp hmem
              exact ⟨f, (List.mem_filter.mp hf).1, rfl⟩
            have hne := (h.readable f hf).ne_empty
            rw [hfpath] at hne
            exact absurd (hsource.symm.trans hnone) hne
          · exact hsource.symm.trans hstring
        rw [hincludes] at hbefore
        subst houter
        simp only [List.tail_cons, List.count_cons_self] at hbefore ⊢
        omega

/-- At most two files are included by paths that are not tidy. -/
theorem untidy_le (h : Chain t o files site) : site.includes.countP (¬t.Tidy ·) ≤ 2 := by
  have hnodup : site.includes.Nodup := (List.nodup_append.mp h.distinct).1
  have honce : site.includes.tail.count "<string>" ≤ 1 :=
    List.nodup_iff_count_le_one.mp (hnodup.sublist (List.tail_sublist _)) _
  have := h.untidy
  omega

end Chain

/-- No table takes its cells from a file that is being read, nor is a file
    included whose cells are being read. -/
def TablesApart (t : FileTree) (files : List OpenFile) : Prop :=
  files.Pairwise fun f g => f.use = .cells ∨ g.use = .cells → t.place f.path ≠ t.place g.path

namespace Chain

variable {t : FileTree} {o : Origin} {files : List OpenFile} {site : Site}

theorem pairwise_included (h : Chain t o files site) :
    files.Pairwise fun f g => f.use = .included → g.use = .included → f.path ≠ g.path := by
  have hnodup : ((files.filter (·.use = .included)).map (·.path)).Nodup := by
    rw [h.includes]
    exact (List.nodup_append.mp h.distinct).1
  rw [List.nodup_iff_pairwise_ne, List.pairwise_map, List.pairwise_filter] at hnodup
  exact hnodup.imp fun hne hf hg => hne (decide_eq_true hf) (decide_eq_true hg)

theorem nodup_paths (h : Chain t o files site) (hapart : TablesApart t files) :
    (files.map (·.path)).Nodup := by
  rw [List.nodup_iff_pairwise_ne, List.pairwise_map]
  refine (h.pairwise_included.and hapart).imp ?_
  rintro ⟨_ | _, p⟩ ⟨_ | _, q⟩ ⟨hincluded, hcells⟩ (rfl : p = q)
  · exact hincluded rfl rfl rfl
  · exact hcells (.inr rfl) rfl
  · exact hcells (.inl rfl) rfl
  · exact hcells (.inl rfl) rfl

/-- **There are at most two more files inside one another than there are
    files** in the tree and paths of files out of it, where tables keep
    apart. -/
theorem length_le (h : Chain t o files site) (hapart : TablesApart t files) {abroad : List String}
    (habroad : ∀ f ∈ files, t.resolve f.path = .error .outside → f.path ∈ abroad) :
    files.length ≤ (t.filesAt ".").length + abroad.length + 2 := by
  let settled (f : OpenFile) : Bool := f.use = .cells ∨ t.Tidy f.path
  have hrest : files.countP (fun f => ¬settled f) ≤ 2 := by
    refine Nat.le_trans (Nat.le_of_eq ?_) h.untidy_le
    rw [← h.includes, List.countP_map, List.countP_filter]
    refine List.countP_congr fun f _ => ?_
    cases hf : f.use <;> simp [settled, hf]
  -- The other files have paths that lead to different files.
  have hdistinct : ((files.filter settled).map fun f => t.place f.path).Nodup := by
    rw [List.nodup_iff_pairwise_ne, List.pairwise_map, List.pairwise_filter]
    refine (h.pairwise_included.and hapart).imp ?_
    rintro ⟨_ | _, p⟩ ⟨_ | _, q⟩ ⟨hincluded, hcells⟩ hp hq
    · have htidy : t.Tidy p ∧ t.Tidy q := by simpa [settled] using And.intro hp hq
      rw [htidy.1, htidy.2]
      exact hincluded rfl rfl
    · exact hcells (.inr rfl)
    · exact hcells (.inl rfl)
    · exact hcells (.inl rfl)
  have hfound : (files.filter settled).map (fun f => t.place f.path)
      ⊆ t.filesAt "." ++ abroad := by
    intro r hr
    obtain ⟨f, hf, rfl⟩ := List.mem_map.mp hr
    have hmem := (List.mem_filter.mp hf).1
    obtain ⟨q, hq, hresolve⟩ | houtside := (h.readable f hmem).mem_filesAt
    · rw [FileTree.place_of_ok hresolve]
      exact List.mem_append_left _ hq
    · rw [FileTree.place_of_outside houtside]
      exact List.mem_append_right _ (habroad f hmem houtside)
  have hcount := (hdistinct.subperm hfound).length_le
  have hsplit := List.length_eq_countP_add_countP settled (l := files)
  rw [List.length_map, List.length_append, ← List.countP_eq_length_filter] at hcount
  omega

end Chain

/-- The files that are being read where a body is reached. -/
theorem Reached.chain {o : Origin} {site site' : Site} {b b' : Body} {files : List OpenFile}
    (h : Reached o site b files site' b') (hincludes : site.includes = [])
    (hsource : site.source = o.source) : Chain site.env.files o files site' := by
  induction h with
  | start => exact .start hincludes hsource
  | @step files site' site'' b' b'' block file outer found handed ih =>
    have henv := outer.env
    cases handed with
    | nested => exact ⟨ih.includes, ih.distinct, ih.source, ih.readable, ih.untidy⟩
    | @called line lines markup d c file site'' b'' use handed =>
      have hsite : c.site = site' := by
        obtain ⟨name, -, -, block, -, rfl⟩ := Site.call?_eq_some use
        rfl
      cases handed with
      | content | cell =>
        rw [hsite]
        exact ⟨ih.includes, ih.distinct, ih.source, ih.readable, ih.untidy⟩
      | filed empty named alone readable =>
        rw [hsite, henv] at readable
        rw [hsite]
        exact ih.cells (FileTree.readable_of_readText readable) _
      | @included path text lines admitted chosen =>
        refine ih.included hsite admitted ?_ _
        cases hread : c.site.env.readText path (c.option "encoding") with
        | ok text =>
          rw [hsite, henv] at hread
          exact FileTree.readable_of_readText hread
        | error e =>
          rw [hread, Call.includedText] at chosen
          split at chosen <;> cases chosen

/-! ## Parsing a text -/

theorem Environment.mem_directives {env : Environment} {name : String} {directive : Directive}
    (h : env.surroundings.directive? name = some directive) :
    (bindingName name, directive) ∈ env.constructs.directives :=
  Data.Table.mem_of_get? h

namespace Document

/-- The site of the text of a document. -/
def site (d : Document) (env : Surroundings) : Site := ⟨env, d.source, true, d.root, []⟩

/-- The files that are being read inside one another at some time while a
    text is parsed, the innermost first. -/
def Opens (d : Document) (env : Surroundings) (text : List Char) (files : List OpenFile) : Prop :=
  ∃ lines site b, splitLines? d.tabWidth text = some lines ∧
    Reached d.origin (d.site env) ⟨0, lines⟩ files site b

/-- Reading gets stuck in no body that is read while a text is parsed: no
    list in it has a number that does not fit 64 bits. -/
def Unstuck (d : Document) (env : Surroundings) (text : List Char) : Prop :=
  ∀ lines, splitLines? d.tabWidth text = some lines →
    Reached.Unstuck d.origin (d.site env) ⟨0, lines⟩

variable {d : Document} {env : Surroundings} {text : List Char}

theorem Opens.chain {files : List OpenFile} (h : d.Opens env text files) :
    ∃ site, Chain env.files d.origin files site := by
  obtain ⟨lines, site, b, -, hreached⟩ := h
  exact ⟨site, hreached.chain rfl rfl⟩

/-- With room for all files that are inside one another, parsing changes a
    document and stops as it is allowed. -/
theorem parseText_of_none {d : Document} {text : List Char} (env : Surroundings)
    (h : splitLines? d.tabWidth text = none) :
    parseText env text { doc := d } = .error .fault { doc := d } := by
  simp only [parseText, bind, EStateM.bind,
    show Parse.document { doc := d } = .ok d { doc := d } from rfl, h]
  rfl

theorem parseText_of_some {d : Document} {text : List Char} (env : Surroundings)
    {lines : List Line} (h : splitLines? d.tabWidth text = some lines) :
    parseText env text { doc := d } =
      Site.read (env.nesting + 1) (d.site env) ⟨0, lines⟩ { doc := d } := by
  simp only [parseText, bind, EStateM.bind,
    show Parse.document { doc := d } = .ok d { doc := d } from rfl, h]
  rfl

theorem parse_ends {L : License} (habout : ∀ o, L.about o ↔ o = d.origin)
    (hallowed : ∀ lines, splitLines? d.tabWidth text = some lines →
      Reached.Allowed L d.origin (d.site env) ⟨0, lines⟩)
    (hsplit : splitLines? d.tabWidth text = none → L.stops .fault)
    (hbound : ∀ files, d.Opens env text files → files.length ≤ env.nesting) :
    d.Steady L (d.parse env text).2 ∧
      ∀ e, (d.parse env text).1 = .error e → L.Stops (d.parse env text).2 e := by
  let v : World := ⟨env.files, env.clock⟩
  -- Reading is compared with itself, which says how it ends and what it adds.
  have hholds : ParseState.Grown L d.forest.size False { doc := d }
      (stateAfter (parseText env text) { doc := d }) ∧
      Ends (Discipline.growing v v L d.forest.size False) Anything
        (parseText env text { doc := d }) := by
    cases hlines : splitLines? d.tabWidth text with
    | none =>
      have hrun := parseText_of_none env hlines
      rw [stateAfter_of_error hrun, hrun]
      exact ⟨(Discipline.growing v v L _ False).refl _, .inl (hsplit hlines)⟩
    | some lines =>
      have hcontract : Contract (Discipline.growing v v L d.forest.size False) Anything
          (Site.read (env.nesting + 1) (d.site env) ⟨0, lines⟩)
          (Site.read (env.nesting + 1) ((d.site env).under v) ⟨0, lines⟩) := by
        refine Reached.grow_read rfl (fun o => (habout o).mp) (hallowed lines hlines)
          (fun files site b hreached => hbound files ⟨lines, site, b, hlines, hreached⟩) .start
          ?_ ?_ False.elim <;> simp
      obtain ⟨hgrown, hends, -⟩ := hcontract { doc := d } { doc := d } ⟨d, .refl d, rfl⟩
        ⟨Nat.le_refl _, Forest.closed_of_size_le (Nat.le_refl _), (habout _).mpr rfl⟩
      rw [stateAfter, parseText_of_some env hlines]
      exact ⟨hgrown, hends⟩
  obtain ⟨hgrown, hends⟩ := hholds
  simp only [parse, EStateM.run]
  cases hrun : parseText env text { doc := d } with
  | ok _ s =>
    rw [stateAfter_of_ok hrun] at hgrown
    refine ⟨hgrown.steady, fun e he => ?_⟩
    cases he
  | error e s =>
    rw [stateAfter_of_error hrun] at hgrown
    rw [hrun] at hends
    refine ⟨hgrown.steady, ?_⟩
    rintro _ ⟨rfl⟩
    exact hends

/-- Nothing out of the tree is open where nothing there can be read. -/
theorem Opens.inland {files : List OpenFile} (h : d.Opens env text files)
    (hnone : ∀ path content, env.files.beyond path ≠ .ok content) :
    ∀ f ∈ files, env.files.resolve f.path ≠ .error .outside := by
  intro f hf houtside
  obtain ⟨site, hlinked⟩ := h.chain
  obtain ⟨content, hread⟩ := hlinked.readable f hf
  rcases FileTree.read_eq_ok hread with ⟨q, hresolve, -⟩ | ⟨-, hbeyond⟩
  · cases houtside.symm.trans hresolve
  · exact hnone _ _ hbeyond

/-- **Parsing comes to an end whatever files refer to each other**, as long
    as tables keep apart.  No path is that of two files inside one another,
    all of them can be read, and there are at most two more of them than
    there are files in the tree and paths `abroad` that lead out of it to a
    file that is read.  With room for so many, parsing does not end for want
    of depth; and it does not go on for ever unless it gets stuck at a
    list. -/
theorem parse_terminates (d : Document) (env : Surroundings) (text : List Char)
    (hapart : ∀ files, d.Opens env text files → TablesApart env.files files) (abroad : List String)
    (habroad : ∀ files, d.Opens env text files →
      ∀ f ∈ files, env.files.resolve f.path = .error .outside → f.path ∈ abroad) :
    (∀ files, d.Opens env text files →
      (files.map (·.path)).Nodup ∧ (∀ f ∈ files, env.files.Readable f.path) ∧
        files.length ≤ (env.files.filesAt ".").length + abroad.length + 2) ∧
    ((env.files.filesAt ".").length + abroad.length + 2 ≤ env.nesting →
      (d.parse env text).1 ≠ .error .exhausted ∧
        (d.Unstuck env text → (d.parse env text).1 ≠ .error .endless)) := by
  have hchain : ∀ files, d.Opens env text files →
      files.length ≤ (env.files.filesAt ".").length + abroad.length + 2 := by
    intro files hopens
    obtain ⟨site, hlinked⟩ := hopens.chain
    exact hlinked.length_le (hapart files hopens) (habroad files hopens)
  refine ⟨fun files hopens => ?_, fun hroom => ?_⟩
  · obtain ⟨site, hlinked⟩ := hopens.chain
    exact ⟨hlinked.nodup_paths (hapart files hopens), hlinked.readable, hchain files hopens⟩
  have hdeep : ∀ files, d.Opens env text files → files.length ≤ env.nesting :=
    fun files hopens => Nat.le_trans (hchain files hopens) hroom
  refine ⟨fun hexhausted => ?_, fun hunstuck hendless => ?_⟩
  · have hends : d.Steady _ _ ∧ ∀ e, (d.parse env text).1 = .error e → _ :=
      parse_ends (L := .deepEnough d.origin) (fun _ => .rfl) (fun _ _ => .deepEnough _ _ _)
        (fun _ => by exact nofun) hdeep
    exact License.deepEnough_ne (hends.2 _ hexhausted) rfl
  · have hends : d.Steady _ _ ∧ ∀ e, (d.parse env text).1 = .error e → _ :=
      parse_ends (L := .finishing d.origin) (fun _ => .rfl)
        (fun lines hlines => (hunstuck lines hlines).allowed) (fun _ => by exact ⟨nofun, nofun⟩) hdeep
    exact (License.finishing_ne (hends.2 _ hendless)).2 rfl

/-- Where no name means a table with values, every file that is being read
    is included. -/
theorem Opens.included {files : List OpenFile} (h : d.Opens env text files)
    (hnone : ∀ name, env.directive? name ≠ some (.standard .csvTable)) :
    ∀ f ∈ files, f.use = .included := by
  obtain ⟨lines, site, b, -, hreached⟩ := h
  induction hreached with
  | start => exact nofun
  | @step files site' site'' b' b'' block file outer found handed ih =>
    refine List.forall_mem_append.mpr ⟨?_, ih⟩
    cases handed with
    | nested => exact nofun
    | called use handed =>
      obtain ⟨name, -, hdirective, -⟩ := Site.call?_eq_some use
      rw [outer.env] at hdirective
      cases handed with
      | content => exact nofun
      | cell | filed => exact absurd hdirective (hnone name)
      | included => simp

theorem tablesApart_of_included {t : FileTree} {files : List OpenFile}
    (h : ∀ f ∈ files, f.use = .included) : TablesApart t files := by
  refine List.Pairwise.imp_of_mem ?_ (List.pairwise_of_forall fun _ _ => trivial)
  intro f g hf hg _ hcells
  rw [h f hf, h g hg] at hcells
  simp at hcells

/-- A file that includes itself, where tables with values are ignored. -/
theorem parse_terminates_circular :
    let bytes (s : String) : Bytes := s.toList.map fun c => UInt8.ofNat c.toNat
    let constructs := (Constructs.standard.openScope [("csv-table", .ignored)] []).2
    let files : FileTree := { entries := [("a", .file (bytes ".. include:: ./a"))] }
    let env := (Environment.mk constructs files 0 3 .standard).surroundings
    let d := Document.new "d" {}
    let text := ".. include:: a".toList
    (∀ opened, d.Opens env text opened → TablesApart env.files opened) ∧
      (∀ opened, d.Opens env text opened →
        ∀ f ∈ opened, env.files.resolve f.path = .error .outside → f.path ∈ ([] : List String)) ∧
      (d.parse env text).1 ≠ .error .exhausted := by
  intro bytes constructs files env d text
  have hnone : ∀ name, env.directive? name ≠ some (.standard .csvTable) := by
    intro name hname
    have hbound : ∀ p ∈ constructs.directives, (p.2 == .standard .csvTable) = false := by
      decide +kernel
    exact Bool.true_eq_false.mp (hbound _ (Environment.mem_directives hname))
  have hapart : ∀ opened, d.Opens env text opened → TablesApart env.files opened :=
    fun _ h => tablesApart_of_included (h.included hnone)
  have habroad : ∀ opened, d.Opens env text opened →
      ∀ f ∈ opened, env.files.resolve f.path = .error .outside → f.path ∈ ([] : List String) :=
    fun _ h f hf houtside => absurd houtside (h.inland (fun _ _ => nofun) f hf)
  refine ⟨hapart, habroad, ((parse_terminates d env text hapart [] habroad).2 ?_).1⟩
  rw [FileTree.filesAt, List.length_mergeSort]
  decide +kernel

/-- A table whose cells include a file that holds the table again: two files
    do not fit into room for two, because the cells of the table are read
    inside themselves. -/
theorem table_read_inside_itself :
    let bytes (s : String) : Bytes := s.toList.map fun c => UInt8.ofNat c.toNat
    let files : FileTree := { entries := [("a.csv", .file (bytes "\".. include:: b.rst\"\n")),
      ("b.rst", .file (bytes ".. csv-table::\n   :file: a.csv\n"))] }
    let parsed (room : Nat) := ((Document.new "d.rst" {}).parse
      (Environment.mk .standard files 0 room .standard).surroundings
      ".. csv-table::\n   :file: a.csv\n".toList).1
    (files.filesAt ".").length = 2 ∧ parsed 2 = .error .exhausted ∧ parsed 3 = .ok () := by
  intro bytes files parsed
  refine ⟨?_, by decide +kernel, by decide +kernel⟩
  rw [FileTree.filesAt, List.length_mergeSort]
  decide +kernel

end Document

end MarkupLint
