import MarkupLint.Proofs.Inclusion
import MarkupLint.Proofs.Keeping

/-! # Which file a message names

    While the lines of an included file are read, a message names that file,
    or, if it is raised in a file that is included in turn, that one.  This
    is by hand wherever a message is raised: it is given the source of its
    site, or a node that was made there.

    The one exception is a role.  It is told the line it stands in but not
    the source, so what it complains about is put down to the document, at a
    line of another file. -/

namespace MarkupLint

variable {usual : String} {o : Origin} {N N' : Notice → Prop} {s : ParseState} {site site' : Site}
  {b b' : Body} {path : String}

/-- What is watched where messages alone count: they satisfy `N`, or are
    complaints of roles. -/
def Watch.naming (usual : String) (o : Origin) (N : Notice → Prop) : Watch where
  usual := usual
  origin := o
  heard x := N x ∨ x.OfRole usual
  strict := False
  roles _ := .inr

namespace Watch

theorem Keeps.imp {x : Parse Unit} (h : (naming usual o N).Keeps s x) (himp : ∀ n, N n → N' n) :
    (naming usual o N').Keeps s x := by
  have hheard : ∀ {r r' : Reporter}, Reporter.Heard (naming usual o N).heard r r' →
      Reporter.Heard (naming usual o N').heard r r' := by
    rintro r r' ⟨xs, htold, hxs⟩
    exact ⟨xs, htold, fun x hx => (hxs x hx).imp_left (himp x)⟩
  intro hs
  have hends := h ⟨hs.usual, hs.origin, False.elim, False.elim⟩
  generalize x s = result at hends
  cases hends with
  | ok leads gives =>
    obtain ⟨hholds, hchanges, hxs, -⟩ := leads
    exact .ok ⟨⟨hholds.usual, hholds.origin, False.elim, False.elim⟩, hchanges, hheard hxs,
      False.elim⟩ gives
  | stop stops =>
    refine .stop ⟨hheard stops.1, fun halt hhalt => ?_⟩
    obtain ⟨x, hx, rfl⟩ := stops.2 halt hhalt
    exact ⟨x, hx.imp_left (himp x), rfl⟩

/-- A site of a file may be read where messages that name the file count. -/
theorem naming_tends (hsource : site.source ≠ "") (h : ∀ x : Notice, x.source = site.source → N x) :
    (naming usual o N).Tends site :=
  ⟨fun x hx => .inl (h x (hx hsource)), False.elim⟩

end Watch

/-! ## The files that are named -/

/-- A site in a file has a source, whichever file it is. -/
theorem Site.Hands.source_ne_empty {block : Block} {file : Option OpenFile}
    (h : site.Hands o block file site' b') (hsource : site.source ≠ "") : site'.source ≠ "" := by
  cases h with
  | nested => exact hsource
  | @called line lines markup d c file site' b' use handed =>
    have hsite : c.site = site := by
      obtain ⟨name, -, -, block, -, rfl⟩ := call?_eq_some use
      rfl
    subst hsite
    cases handed with
    | content | cell | filed => exact hsource
    | @included path text lines admitted chosen =>
      cases hread : c.site.env.readText path (c.option "encoding") with
      | ok text => exact (FileTree.readable_of_readText hread).ne_empty
      | error e =>
        rw [hread, Call.includedText] at chosen
        split at chosen <;> cases chosen

theorem Reached.source_ne_empty {files : List OpenFile} (h : Reached o site b files site' b')
    (hsource : site.source ≠ "") : site'.source ≠ "" := by
  induction h with
  | start => exact hsource
  | step _ _ handed ih => exact handed.source_ne_empty ih

/-- A file is included in a body, directly or in a file that is opened there. -/
def Includes (o : Origin) (site : Site) (b : Body) (path : String) : Prop :=
  ∃ files site' b', Reached o site b (⟨.included, path⟩ :: files) site' b'

/-- Where a body is read, the source is the one outside or that of a file
    included there. -/
theorem Reached.source {files : List OpenFile} (h : Reached o site b files site' b') :
    site'.source = site.source ∨ Includes o site b site'.source := by
  induction h with
  | start => exact .inl rfl
  | @step files site' site'' b' b'' block file outer found handed ih =>
    by_cases hsame : site''.source = site'.source
    · rw [hsame]
      exact ih
    · refine .inr ⟨files, site'', b'', ?_⟩
      have hreached := outer.step found handed
      cases handed with
      | nested => exact absurd rfl hsame
      | called use handed =>
        obtain ⟨name, -, -, invocation, -, rfl⟩ := Site.call?_eq_some use
        cases handed with
        | content | cell | filed => exact absurd rfl hsame
        | included => exact hreached

/-- The message names the source of the site, or a file that is included in
    the body. -/
def Names (o : Origin) (site : Site) (b : Body) (x : Notice) : Prop :=
  x.source = site.source ∨ Includes o site b x.source

theorem Names.outer {files : List OpenFile} {x : Notice} (h : Names o site' b' x)
    (hreached : Reached o site b files site' b') : Names o site b x := by
  rcases h with h | ⟨inner, site'', b'', h⟩
  · rw [Names, h]
    exact hreached.source
  · exact .inr ⟨inner ++ files, site'', b'', hreached.trans h⟩

namespace Site

/-- What is raised in the files that are opened in a body is up to what reads
    them, and what else is raised names the source of the site. -/
theorem keeps_readWithin (hsource : site.source ≠ "") {file : Site → Body → Parse Unit}
    (hfile : ∀ f site' b', Reached o site b [f] site' b' →
      ∀ s, (Watch.naming usual o N).Keeps s (file site' b')) (depth : Nat) :
    (Watch.naming usual o fun x => x.source = site.source ∨ N x).Keeps s
      (site.readWithin file depth b) :=
  meets_readWithin (fun f site' b' hreached s _ => (hfile f site' b' hreached s).imp fun _ => .inr)
    (Watch.naming_tends hsource fun _ => .inl) False.elim

/-- By induction on how many files may still be opened inside one another. -/
theorem keeps_read (hsource : site.source ≠ "") (count : Nat) :
    (Watch.naming usual o (Names o site b)).Keeps s (site.read count b) := by
  induction count generalizing site b s with
  | zero => exact .throw fun _ => ⟨.refl _, nofun⟩
  | succ count ih =>
    refine (keeps_readWithin (N := Names o site b) hsource (fun f site' b' hreached s => ?_) _).imp
      fun x hx => hx.elim .inl id
    exact (ih (hreached.source_ne_empty hsource)).imp fun x hx => hx.outer hreached

end Site

/-! ## What is raised -/

/-- The messages that are raised in a run satisfy `N`, also one that stops
    it. -/
structure Raises (N : Notice → Prop) (x : Parse Unit) (s : ParseState) : Prop where
  told : Reporter.Heard N s.doc.reporter (stateAfter x s).doc.reporter
  stops : ∀ e t, x s = .error e t → e.HeardFrom N

theorem Watch.Keeps.raises {x : Parse Unit} (h : (naming usual o N).Keeps s x)
    (husual : s.doc.reporter.source = usual) (horigin : s.doc.origin = o) :
    Raises (fun x => N x ∨ x.OfRole usual) x s := by
  have hends := h ⟨husual, horigin, False.elim, False.elim⟩
  cases hx : x s with
  | ok a t =>
    rw [hx] at hends
    obtain ⟨leads, -⟩ | _ := hends
    refine ⟨?_, fun e t he => by rw [hx] at he; cases he⟩
    rw [stateAfter_of_ok hx]
    exact leads.heard
  | error e t =>
    rw [hx] at hends
    obtain _ | ⟨hheard, hstop⟩ := hends
    refine ⟨?_, fun e t he => ?_⟩
    · rw [stateAfter_of_error hx]
      exact hheard
    · rw [hx] at he
      cases he
      exact hstop

/-- What a collector holds after notices were told is what it held before,
    and records of theirs. -/
theorem Reporter.mem_collected_told {r : Reporter} {xs : List Notice} {name : String} {y : Record}
    (h : y ∈ (r.told xs).collected name) : y ∈ r.collected name ∨ ∃ x ∈ xs, x.record = y := by
  induction xs generalizing r with
  | nil => exact .inl h
  | cons x xs ih =>
    rcases ih (r := r.tell x) h with h | ⟨x', hx', rfl⟩
    · simp only [tell] at h
      split at h
      · rw [collected_notify] at h
        rcases List.mem_append.mp h with h | h
        · exact .inl h
        · split at h
          · exact .inr ⟨x, List.mem_cons_self, (List.mem_singleton.mp h).symm⟩
          · cases h
      · exact .inl h
    · exact .inr ⟨x', List.mem_cons_of_mem _ hx', rfl⟩

namespace Document

/-- **Messages about an included file name it**, unless they are raised by a
    role: those name the document.  Where a body is read with a file included
    innermost, the site has the path of that file for its source.  Whatever
    reads the files that are opened there in turn, all other messages name
    that path; and with the reader of the program, messages name that path or
    one that is included in turn. -/
theorem messages_name_included_file (d : Document) (env : Surroundings) {lines : List Line}
    {files : List OpenFile} {site : Site} {b : Body} {path : String} {outer : List String}
    (hreached : Reached d.origin (d.site env) ⟨0, lines⟩ files site b)
    (hincluded : (files.filter (·.use = .included)).map (·.path) = path :: outer)
    (s : ParseState) (husual : s.doc.reporter.source = d.reporter.source)
    (horigin : s.doc.origin = d.origin) :
    site.source = path ∧ path ≠ "" ∧
    (∀ (file : Site → Body → Parse Unit) (N : Notice → Prop),
      (∀ f site' b', Reached d.origin site b [f] site' b' →
        ∀ t, (Watch.naming d.reporter.source d.origin N).Keeps t (file site' b')) →
      ∀ depth, Raises (fun x => (x.source = path ∨ N x) ∨ x.OfRole d.reporter.source)
        (site.readWithin file depth b) s) ∧
    ∀ count, Raises
      (fun x => (x.source = path ∨ Includes d.origin site b x.source) ∨ x.OfRole d.reporter.source)
      (site.read count b) s := by
  have hchain := hreached.chain rfl rfl
  have hsource : site.source = path := by
    rw [hchain.source, ← hchain.includes, hincluded, List.headD_cons]
  have hne : path ≠ "" := by
    obtain ⟨f, hf, rfl⟩ : ∃ f ∈ files, f.path = path := by
      have hmem : path ∈ (files.filter (·.use = .included)).map (·.path) := by
        rw [hincluded]
        exact List.mem_cons_self
      obtain ⟨f, hf, rfl⟩ := List.mem_map.mp hmem
      exact ⟨f, (List.mem_filter.mp hf).1, rfl⟩
    exact (hchain.readable f hf).ne_empty
  subst hsource
  exact ⟨rfl, hne, fun file N hfile depth => (Site.keeps_readWithin hne hfile depth).raises husual horigin,
    fun count => (Site.keeps_read hne count).raises husual horigin⟩

/-- A document that includes a file in which a role is used wrongly. -/
theorem reached_included_role :
    let bytes (s : String) : Bytes := s.toList.map fun c => UInt8.ofNat c.toNat
    let files : FileTree := { entries := [("a.rst", .file (bytes ":pep:`x`"))] }
    let env := (Environment.mk .standard files 0 3 .standard).surroundings
    let d := Document.new "d.rst" {}
    let text := ":pep:`x`".toList
    Reached d.origin (d.site env) ⟨0, [".. include:: a.rst".toList]⟩ [⟨.included, "a.rst"⟩]
      { d.site env with source := "a.rst", includes := ["a.rst"] } ⟨0, [text]⟩ := by
  intro bytes files env d text
  let markup := ".. include:: a.rst".toList
  have hblock : .explicit 1 ["include:: a.rst".toList] markup ∈ (d.site env).blocks ⟨0, [markup]⟩ := by
    decide +kernel
  have hknown : ((d.site env).call? ["include:: a.rst".toList] 1 (String.ofList markup)).map (fun p =>
      (p.1 == .standard .includeFile, (p.2.includePath "d.rst").toOption, p.2.isVerbatim,
        p.2.tabWidth 8)) = some (true, some "a.rst", false, 8) := by
    decide +kernel
  have htext : ((d.site env).call? ["include:: a.rst".toList] 1 (String.ofList markup)).map (fun p =>
      (p.2.includedText "a.rst" (env.readText "a.rst" (p.2.option "encoding"))).toOption)
      = some (some text) := by
    decide +kernel
  have hsource : d.origin.source = "d.rst" := rfl
  have hwidth : d.origin.tabWidth = 8 := rfl
  have hsplit : splitLines? 8 text = some [text] := by decide +kernel
  clear_value env d text
  obtain ⟨⟨directive, c⟩, hcall, hfacts⟩ := Option.map_eq_some_iff.mp hknown
  simp only [Prod.mk.injEq] at hfacts
  obtain ⟨hdirective, hpath, hverbatim, htabs⟩ := hfacts
  rw [hcall, Option.map_some, Option.some.injEq] at htext
  rw [← hsource] at hpath
  have hok : ∀ {α : Type} {x : Except Complaint α} {a : α}, x.toOption = some a → x = .ok a := by
    intro α x a h
    cases x with
    | ok b => exact congrArg _ (Option.some.inj h)
    | error e => cases h
  obtain rfl : directive = .standard .includeFile := by
    cases directive with
    | standard std => exact congrArg _ (eq_of_beq hdirective)
    | ignored | custom => cases hdirective
  have hsite : c.site = d.site env := by
    obtain ⟨name, -, -, block, -, rfl⟩ := Site.call?_eq_some hcall
    rfl
  have hchosen : c.includedText "a.rst" (c.site.env.readText "a.rst" (c.option "encoding"))
      = .ok text := by
    rw [hsite]
    exact hok htext
  have hlines : splitLines? (c.tabWidth d.origin.tabWidth) text = some [text] := by
    rw [hwidth, htabs]
    exact hsplit
  have hhands := Call.Hands.included (hok hpath) hchosen hverbatim hlines d.root
  rw [Call.includedSite, hsite] at hhands
  exact Reached.start.step hblock (.called hcall hhands)

/-- What is raised while that file is read. -/
theorem messages_name_included_file_role :
    let bytes (s : String) : Bytes := s.toList.map fun c => UInt8.ofNat c.toNat
    let files : FileTree := { entries := [("a.rst", .file (bytes ":pep:`x`"))] }
    let env := (Environment.mk .standard files 0 3 .standard).surroundings
    let d := Document.new "d.rst" {}
    let site := { d.site env with source := "a.rst", includes := ["a.rst"] }
    Raises (fun x => (x.source = "a.rst" ∨ Includes d.origin site ⟨0, [":pep:`x`".toList]⟩ x.source)
        ∨ x.OfRole "d.rst")
      (site.read 1 ⟨0, [":pep:`x`".toList]⟩) { doc := d } := by
  intro bytes files env d site
  obtain ⟨-, -, -, hread⟩ := messages_name_included_file d env reached_included_role rfl { doc := d } rfl
    rfl
  exact hread 1

/-- The complaint of the role names the document, at a line of the file. -/
theorem role_names_document :
    let bytes (s : String) : Bytes := s.toList.map fun c => UInt8.ofNat c.toNat
    let files : FileTree := { entries := [("a.rst", .file (bytes ":pep:`x`"))] }
    let env := (Environment.mk .standard files 0 3 .standard).surroundings
    let fresh := Document.new "d.rst" {}
    let d := { fresh with reporter := fresh.reporter.attach "lint" }
    let site := { d.site env with source := "a.rst", includes := ["a.rst"] }
    Reached d.origin (d.site env) ⟨0, [".. include:: a.rst".toList]⟩ [⟨.included, "a.rst"⟩] site
        ⟨0, [":pep:`x`".toList]⟩ ∧
      ¬Raises (fun x => x.source = "a.rst") (site.read 1 ⟨0, [":pep:`x`".toList]⟩) { doc := d } ∧
      (((d.parse env ".. include:: a.rst".toList).2.reporter.collected "lint").map fun x =>
        (x.source, x.line)) = [("d.rst", some 1)] := by
  intro bytes files env fresh d site
  refine ⟨reached_included_role, fun hraises => ?_, by decide +kernel⟩
  obtain ⟨xs, ⟨stream, htold⟩, hxs⟩ := hraises.told
  have hcollected : ((stateAfter (site.read 1 ⟨0, [":pep:`x`".toList]⟩)
      { doc := d }).doc.reporter.collected "lint").map (·.source) = ["d.rst"] := by decide +kernel
  obtain ⟨y, hy, hsource⟩ := List.mem_map.mp (hcollected ▸ List.mem_singleton_self "d.rst")
  rw [htold] at hy
  rcases Reporter.mem_collected_told (r := d.reporter) hy with hold | ⟨x, hx, rfl⟩
  · cases hold
  · exact absurd ((hxs x hx).symm.trans hsource) (by decide)

end Document

end MarkupLint
