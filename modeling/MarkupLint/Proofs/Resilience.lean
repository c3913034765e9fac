import MarkupLint.Lint
import MarkupLint.Proofs.Chasing
import MarkupLint.Proofs.Dependency
import MarkupLint.Proofs.Inclusion

/-! # Markup makes no lint fail

    A document collects its messages and stops at none of them.  No standard
    directive stops for another reason but one that includes a text with
    tabs that cannot be expanded; and what directives ask for are passes
    that there are, with options that have been read as integers where they
    have to be.  Passes that follow names come to an end.  So, with room for
    the files that are being read inside one another, every lint ends
    without an error. -/

namespace MarkupLint

/-- A pass that there is, with integers where its options have to be. -/
def Request.Feasible (r : Request) : Prop :=
  ∃ p, Pass.ofKind? r.kind = some p ∧ ∀ key ∈ p.counts, Pass.Counted r.options key

theorem Request.feasible_of {p : Pass} {options : List (String × Data.Value)}
    (h : ∀ key ∈ p.counts, Pass.Counted options key) (priority : Int) (target : NodeId) :
    Request.Feasible ⟨p.kind, priority, target, options⟩ :=
  ⟨p, p.ofKind?_kind, h⟩

theorem Severity.level_le (s : Severity) : s.level ≤ .severe := by
  cases s <;> decide

/-- For documents of one origin: no stop, no level but the named ones, and
    no request but feasible ones. -/
def License.orderly (o : Origin) : License :=
  ⟨(· = o), fun _ => False, (· ≤ .severe), Request.Feasible, False, Severity.level_le⟩

/-- A document that halts at no named level does not stop. -/
theorem License.not_stops {L : License} {d : Document} {e : Stop}
    (hlevels : ∀ l, L.levels l → l ≤ .severe) (hnever : d.reporter.haltLevel = .never)
    (h : L.Stops d e) : L.stops e := by
  rcases h with hstop | ⟨h, -, hreached, hlevel⟩
  · exact hstop
  · have hle : Level.never.rank ≤ Level.severe.rank :=
      Int.le_trans (hnever ▸ hreached) (hlevels _ hlevel)
    exact absurd hle (by decide)

/-! ## Directives -/

namespace Call

theorem field?_optionValues {c : Call} {key : String} {v : Data.Value}
    (h : Data.Value.field? c.optionValues key = some v) :
    ∃ s, c.option? key = some s ∧ v = .text s := by
  have hfind : ∀ options : Data.Table String,
      Data.Value.field? (options.map fun p => (p.1, .text p.2)) key
        = (options.get? key).map .text := by
    intro options
    induction options with
    | nil => rfl
    | cons first rest ih =>
      by_cases hkey : first.1 = key
      · simp [Data.Value.field?, Data.Table.get?, hkey]
      · simpa [Data.Value.field?, Data.Table.get?, hkey] using ih
  rw [optionValues, hfind] at h
  obtain ⟨s, hs, rfl⟩ := Option.map_eq_some_iff.mp h
  exact ⟨s, hs, rfl⟩

end Call

namespace Site

variable {site : Site} {lines : List Line} {line : Nat} {markup : String} {c : Call}

/-- An option that has to be an integer is one. -/
theorem counted_optionValues {d : StandardDirective}
    (h : site.call? lines line markup = some (.standard d, c)) {key : String}
    (hknown : ∀ known, d.spec.options = some known → ∀ converter, known.get? key = some converter →
      converter = .integer ∨ converter = .nonNegativeInt) :
    Pass.Counted c.optionValues key := by
  intro v hv
  obtain ⟨s, hs, rfl⟩ := Call.field?_optionValues hv
  obtain ⟨known, hspec, converter, values, hconverter, hconvert, -⟩ := option_converted h hs
  exact .inr ⟨s, rfl, Converter.int?_of_convert (hknown known hspec converter hconverter) hconvert⟩

/-- A standard directive stops for no reason, unless it includes a text
    whose tabs cannot be expanded, and asks for feasible passes. -/
theorem licensed_standard {L : License} {d : StandardDirective}
    (h : site.call? lines line markup = some (.standard d, c))
    (hrequests : ∀ r : Request, r.Feasible → L.requests r)
    (hexpands : d = .includeFile → L.stops .fault ∨ c.Expands L.about) :
    c.Licensed L (.standard d) := by
  cases d with
  | includeFile => exact hexpands rfl
  | contents =>
    refine fun target => hrequests _ (Request.feasible_of (fun key hkey => ?_) _ target)
    obtain rfl := List.mem_singleton.mp hkey
    refine counted_optionValues h ?_
    rintro _ ⟨rfl⟩ converter ⟨rfl⟩
    exact .inr rfl
  | sectionNumbers =>
    refine fun target => hrequests _ (Request.feasible_of (fun key hkey => ?_) _ target)
    rcases List.mem_pair.mp hkey with rfl | rfl
    · refine counted_optionValues h ?_
      rintro _ ⟨rfl⟩ converter ⟨rfl⟩
      exact .inl rfl
    · refine counted_optionValues h ?_
      rintro _ ⟨rfl⟩ converter ⟨rfl⟩
      exact .inl rfl
  | classes =>
    refine fun _ target => hrequests _ (Request.feasible_of (fun key hkey => ?_) _ target)
    cases hkey
  | _ => trivial

end Site

/-! ## Parsing -/

namespace Document

/-- A directive is used in a text, or in a file that is read for it. -/
def Uses (d : Document) (env : Surroundings) (text : List Char) (directive : Directive) (c : Call) :
    Prop :=
  ∃ lines files site b, splitLines? d.tabWidth text = some lines ∧
    Reached d.origin (d.site env) ⟨0, lines⟩ files site b ∧
    ∃ line ls markup, .explicit line ls markup ∈ site.blocks b ∧
      site.call? ls line (String.ofList markup) = some (directive, c)

variable {d : Document} {env : Surroundings} {text : List Char}

/-- A text, with the files that are read for it, asks for nothing that cannot
    be done: tables keep apart from the files that are being read, the tabs of
    the text and of every text that is included can be expanded, reading gets
    stuck at no list, and there is room for the files. -/
structure Sound (d : Document) (env : Surroundings) (text : List Char) : Prop where
  apart : ∀ files, d.Opens env text files → TablesApart env.files files
  splits : (splitLines? d.tabWidth text).isSome
  expands : ∀ c, d.Uses env text (.standard .includeFile) c → c.Expands (· = d.origin)
  unstuck : d.Unstuck env text
  /-- Some paths are all those out of the tree at which files are read. -/
  room : ∃ abroad : List String,
    (∀ files, d.Opens env text files →
      ∀ f ∈ files, env.files.resolve f.path = .error .outside → f.path ∈ abroad) ∧
    (env.files.filesAt ".").length + abroad.length + 2 ≤ env.nesting

/-- There is room for the files of a sound text. -/
theorem Sound.nested (h : d.Sound env text) :
    ∀ files, d.Opens env text files → files.length ≤ env.nesting := by
  intro files hopens
  obtain ⟨abroad, habroad, hroom⟩ := h.room
  obtain ⟨site, hchain⟩ := hopens.chain
  exact Nat.le_trans (hchain.length_le (h.apart files hopens) (habroad files hopens)) hroom

/-- Parsing ends well and asks for feasible passes only. -/
theorem Sound.parse_ok (h : d.Sound env text) (hnever : d.reporter.haltLevel = .never)
    (hstandard : ∀ name custom, env.directive? name ≠ some (.custom custom)) :
    (d.parse env text).1 = .ok () ∧ d.Steady (.orderly d.origin) (d.parse env text).2 := by
  have hallowed : ∀ lines, splitLines? d.tabWidth text = some lines →
      Reached.Allowed (.orderly d.origin) d.origin (d.site env) ⟨0, lines⟩ := by
    intro lines hlines files site b hreached block hblock
    cases block with
    | explicit line ls markup =>
      intro directive c hcall
      cases directive with
      | standard directive =>
        refine Site.licensed_standard hcall (fun _ => id) ?_
        rintro rfl
        exact .inr <|
          h.expands c ⟨lines, files, site, b, hlines, hreached, line, ls, markup, hblock, hcall⟩
      | ignored => trivial
      | custom custom =>
        obtain ⟨name, -, hname, -⟩ := Site.call?_eq_some hcall
        rw [hreached.env] at hname
        exact absurd hname (hstandard name custom)
    | stuckList line first =>
      exact absurd hblock (h.unstuck lines hlines files site b hreached line first)
    | _ => trivial
  have hsplit : splitLines? d.tabWidth text = none → False := by
    intro hnone
    have hsplits := h.splits
    rw [hnone] at hsplits
    cases hsplits
  have hends : d.Steady (.orderly d.origin) (d.parse env text).2 ∧
      ∀ e, (d.parse env text).1 = .error e → License.Stops _ (d.parse env text).2 e :=
    parse_ends (fun _ => .rfl) hallowed (fun hnone => (hsplit hnone).elim) h.nested
  obtain ⟨hsteady, hends⟩ := hends
  refine ⟨?_, hsteady⟩
  cases hresult : (d.parse env text).1 with
  | ok _ => rfl
  | error e =>
    exact (License.not_stops (fun _ => id) (hsteady.haltLevel.trans hnever) (hends e hresult)).elim

end Document

/-! ## Passes -/

/-- A standard pass is applied without fail. -/
theorem Pass.apply_ok {p : Pass} {target : NodeId} {options : List (String × Data.Value)}
    (hcounts : ∀ key ∈ p.counts, Counted options key) {d : Document}
    (hnever : d.reporter.haltLevel = .never) :
    ∃ e, p.apply target options d = .ok () e ∧ e.reporter.haltLevel = .never := by
  let L : License := ⟨fun _ => True, fun e => e = .exhausted ∧ p.followsNames = true,
    (· ≤ .severe), fun _ => True, False, Severity.level_le⟩
  obtain ⟨⟨-, hsteady⟩, hends, -⟩ := p.pass_apply (v := ⟨{}, 0⟩) (w := ⟨{}, 0⟩) (L := L) target
    options (fun h => ⟨rfl, h⟩) (fun key hkey => .inr (hcounts key hkey)) d d (.refl d) trivial
  cases happly : p.apply target options d with
  | ok _ e =>
    rw [stateAfter_of_ok happly] at hsteady
    exact ⟨e, rfl, hsteady.haltLevel.trans hnever⟩
  | error stop e =>
    rw [stateAfter_of_error happly] at hsteady
    rw [happly] at hends
    obtain ⟨rfl, hfollows⟩ :=
      License.not_stops (fun _ => id) (hsteady.haltLevel.trans hnever) hends
    exact absurd happly (apply_ne_exhausted hfollows _ _ _ _)

namespace Schedule

/-- A schedule with feasible requests only, none of them for a local pass,
    of a document that halts at nothing. -/
structure Orderly (s : Schedule) : Prop where
  valid : s.Valid
  locals : s.locals = []
  never : s.document.reporter.haltLevel = .never
  feasible : ∀ r ∈ s.waiting ++ s.document.requests, r.Feasible

/-- The next schedule is as orderly. -/
theorem Orderly.drain {s : Schedule} (h : s.Orderly) : s.drain.Orderly := by
  obtain ⟨hvalid, hbacklog, -, hlocals⟩ := drain_spec h.valid
  have hwaiting : s.drain.waiting = s.waiting ++ s.document.requests :=
    congrArg Backlog.queue hbacklog
  have hrequests : s.drain.document.requests = [] := congrArg Backlog.requests hbacklog
  refine ⟨hvalid, hlocals.trans h.locals, ?_, ?_⟩
  · rw [Schedule.drain, (addAll_rest _ _).1]
    exact h.never
  · rw [hwaiting, hrequests, List.append_nil]
    exact h.feasible

/-- A feasible request is met. -/
theorem Orderly.applyRequest {s : Schedule} (h : s.Orderly) {r : Request} (hr : r.Feasible) :
    ∃ t, applyRequest r s = .ok () t ∧ (t.record r).Orderly := by
  obtain ⟨p, hkind, hcounts⟩ := hr
  obtain ⟨d, happly, hnever⟩ : ∃ d, p.apply r.target r.options s.document = .ok () d ∧
      d.reporter.haltLevel = .never := Pass.apply_ok hcounts h.never
  have hrun : Schedule.applyRequest r s = .ok () { s with document := d } := by
    show s.passFor r s = _
    simp only [passFor, h.locals, Data.Table.get?_nil, hkind, onDocument, happly]
  have hrequests : d.requests = s.document.requests := by
    have := (p.keeps_frame_apply r.target r.options).of_part Document.requests s.document
    rwa [stateAfter_of_ok happly] at this
  obtain ⟨hvalid, hwaiting⟩ := h.valid.of_queue
    (t := Schedule.record { s with document := d } r) rfl rfl
  refine ⟨_, hrun, hvalid, h.locals, hnever, ?_⟩
  rw [hwaiting]
  show ∀ r ∈ s.waiting ++ d.requests, r.Feasible
  rw [hrequests]
  exact h.feasible

/-- Taking a request leaves an orderly schedule. -/
theorem Orderly.take? {s t : Schedule} {r : Request} (h : s.Orderly)
    (htake : s.take? = some (r, t)) : r.Feasible ∧ t.Orderly := by
  obtain ⟨hvalid, hnext, hdocument, -, hlocals⟩ := take?_next h.valid htake
  have hmem : ∀ q, q ∈ s.waiting ↔ q ∈ r :: t.waiting := fun q => hnext.perm.mem_iff
  refine ⟨h.feasible r (List.mem_append_left _ ((hmem r).mpr List.mem_cons_self)), hvalid,
    hlocals.trans h.locals, hdocument ▸ h.never, fun q hq => h.feasible q ?_⟩
  rw [hdocument] at hq
  rcases List.mem_append.mp hq with hq | hq
  · exact List.mem_append_left _ ((hmem q).mpr (List.mem_cons_of_mem _ hq))
  · exact List.mem_append_right _ hq

/-- By induction on the rounds, every request of an orderly schedule is met. -/
theorem Loop.eq_ok {s t : Schedule} {es : List Event} {out : Except Stop Unit}
    (h : Loop s es out t) (horderly : s.Orderly) : out = .ok () := by
  induction h with
  | done => rfl
  | fails htake happly =>
    obtain ⟨hfeasible, horderly⟩ := horderly.take? htake
    obtain ⟨_, hok, -⟩ := horderly.applyRequest hfeasible
    rw [hok] at happly
    cases happly
  | applies htake happly _ ih =>
    obtain ⟨hfeasible, horderly⟩ := horderly.take? htake
    obtain ⟨_, hok, hnext⟩ := horderly.applyRequest hfeasible
    rw [hok] at happly
    cases happly
    exact ih hnext.drain

theorem run_eq_ok {s : Schedule} (h : s.Orderly) : s.run.1 = .ok () :=
  (run_loop h.valid).eq_ok h.drain

/-- The standard passes of a parsed document are feasible. -/
theorem orderly_populateStandard {d : Document} (hnever : d.reporter.haltLevel = .never)
    (hfeasible : ∀ r ∈ d.requests, r.Feasible) :
    ({ document := d : Schedule }.populateStandard).Orderly := by
  have hask : ∀ p : Pass, (p.ask.of d).Feasible := by
    refine fun p => Request.feasible_of (fun key _ v hv => ?_) _ _
    cases hv
  obtain ⟨hvalid, hwaiting⟩ := waiting_populateStandard d
  refine ⟨hvalid, locals_populateStandard d, ?_, ?_⟩
  · rw [document_populateStandard]
    exact hnever
  · rw [hwaiting, document_populateStandard]
    refine List.forall_mem_append.mpr ⟨fun r hr => ?_, hfeasible⟩
    obtain ⟨p, -, rfl⟩ := List.mem_map.mp hr
    exact hask p

end Schedule

/-! ## Linting -/

/-- What holds of the old values and of the new ones holds of all of them
    after installing. -/
theorem Data.Table.forall_install {α : Type} {P : α → Prop} {t : Table α}
    {bindings : List (String × α)} (ht : ∀ key v, t.get? key = some v → P v)
    (hbindings : ∀ b ∈ bindings, P b.2) :
    ∀ key v, (t.install bindings).1.get? key = some v → P v := by
  refine List.foldlRecOn bindings installOne
    (motive := fun acc : Table α × Displaced α => ∀ key v, acc.1.get? key = some v → P v) ht ?_
  intro acc hacc b hb key v hv
  unfold installOne at hv
  dsimp only at hv
  split at hv
  · exact hacc key v hv
  · by_cases hkey : key = bindingName b.1
    · rw [hkey, get?_set_self] at hv
      exact Option.some.inj hv ▸ hbindings b hb
    · rw [get?_set_of_ne _ _ hkey] at hv
      exact hacc key v hv

namespace Linter

/-- What a lint reads its text in: the standard directives and roles, but
    for those it is to ignore. -/
def surroundings (l : Linter) (o : LintOptions) : Surroundings :=
  let scope := Constructs.ignoring (l.ignoredDirectives o) (l.ignoredRoles o)
  { l.env with constructs := (l.env.constructs.openScope scope.1 scope.2).2 : Environment }.surroundings

/-- None of the standard directives is one that an application added. -/
theorem standard_ne_custom {key : String} {directive : Directive}
    (h : Constructs.standard.directives.get? key = some directive) (custom : CustomDirective) :
    directive ≠ .custom custom := by
  rintro rfl
  obtain ⟨p, -, hp⟩ := List.mem_map.mp (Data.Table.mem_of_get? h)
  cases hp

theorem directive?_standard {env : Environment} (hstandard : env.constructs = .standard)
    (name : String) (custom : CustomDirective) :
    env.surroundings.directive? name ≠ some (.custom custom) := by
  intro hname
  have hmem := Environment.mem_directives hname
  rw [hstandard] at hmem
  obtain ⟨p, -, hp⟩ := List.mem_map.mp hmem
  cases congrArg Prod.snd hp

/-- Ignoring names brings in no directive that an application added. -/
theorem directive?_surroundings {l : Linter} (hstandard : l.env.constructs = .standard)
    (o : LintOptions) (name : String) (custom : CustomDirective) :
    (l.surroundings o).directive? name ≠ some (.custom custom) := by
  intro hname
  refine Data.Table.forall_install (P := (· ≠ .custom custom)) ?_ ?_ _ _ hname rfl
  · rw [hstandard]
    exact fun key v hv => standard_ne_custom hv custom
  · rintro b hb hcustom
    obtain ⟨n, -, rfl⟩ := List.mem_map.mp hb
    cases hcustom

theorem lint_eq_finish (l : Linter) (text : List Char) (o : LintOptions) :
    (l.lint text o).1
      = finish o.source ((l.newDocument o.source).parse (l.surroundings o) text) := rfl

/-- **Markup makes no lint fail.**  Whatever a text and the files that it
    asks for contain, linting it with the standard directives and roles, or
    without some of them, ends without an error, as long as the text is
    sound. -/
theorem lint_error_eq_none (l : Linter) (text : List Char) (o : LintOptions)
    (hstandard : l.env.constructs = .standard)
    (hsound : (l.newDocument o.source).Sound (l.surroundings o) text) :
    (l.lint text o).1.error = none := by
  obtain ⟨hparsed, hsteady⟩ := hsound.parse_ok rfl (directive?_surroundings hstandard o)
  rw [lint_eq_finish]
  generalize (l.newDocument o.source).parse (l.surroundings o) text = parsed at hparsed hsteady
  obtain ⟨_, d⟩ := parsed
  obtain rfl : _ = Except.ok () := hparsed
  have hrequests : ∀ r ∈ d.requests, r.Feasible := fun r hr =>
    (hsteady.requests r hr).elim (fun h => nomatch h) id
  have hrun := Schedule.run_eq_ok
    (Schedule.orderly_populateStandard hsteady.haltLevel hrequests)
  simp only [finish, resultOf, hrun, passError]

/-- A file with a tab that is included with a tab width. -/
theorem lint_error_eq_none_included :
    let files : FileTree := { entries := [("a", .file [120, 9, 121])] }
    let l : Linter := { env := { constructs := .standard, files := files, clock := 0, nesting := 3 } }
    let o : LintOptions := { source := "d" }
    let d := l.newDocument o.source
    let text := ".. include:: a\n   :tab-width: 4".toList
    d.Sound (l.surroundings o) text ∧ (l.lint text o).1.error = none := by
  intro files l o d text
  let top : Site := d.site (l.surroundings o)
  let call : Call := top.call ⟨["a".toList], [("tab-width", "4")], [], 3⟩ "include" 1
    ".. include:: a\n   :tab-width: 4" ""
  have hsplit : splitLines? d.tabWidth text
      = some [".. include:: a".toList, "   :tab-width: 4".toList] := by decide +kernel
  have htop : top.blocks ⟨0, [".. include:: a".toList, "   :tab-width: 4".toList]⟩
      = [.explicit 1 ["include:: a".toList, ":tab-width: 4".toList]
          ".. include:: a\n   :tab-width: 4".toList] := by decide +kernel
  have hfile : (⟨0, ["x   y".toList]⟩ : Body).blocks true Text.textWidth
      = [.paragraph 1 "x   y".toList none] := by decide +kernel
  have hcall : top.call? ["include:: a".toList, ":tab-width: 4".toList] 1
      (String.ofList ".. include:: a\n   :tab-width: 4".toList)
        = some (.standard .includeFile, call) := rfl
  -- The text is read, then the file that it includes, and nothing else.
  have hreached : ∀ opened site b, Reached d.origin top
      ⟨0, [".. include:: a".toList, "   :tab-width: 4".toList]⟩ opened site b →
      (opened = [] ∧ site = top ∧ site.blocks b
          = [.explicit 1 ["include:: a".toList, ":tab-width: 4".toList]
              ".. include:: a\n   :tab-width: 4".toList]) ∨
        (opened = [⟨.included, "a"⟩] ∧
          site.blocks b = [.paragraph 1 "x   y".toList none]) := by
    intro opened site b h
    induction h with
    | start => exact .inl ⟨rfl, rfl, htop⟩
    | @step opened site' site'' b' b'' block file outer found handed ih =>
      rcases ih with ⟨rfl, rfl, hb⟩ | ⟨rfl, hb⟩
      · rw [hb] at found
        obtain rfl := List.mem_singleton.mp found
        cases handed with
        | nested inside => cases inside
        | called hc handed =>
          cases hcall.symm.trans hc
          cases handed with
          | content reads => cases reads
          | @included path text lines admitted chosen plain split =>
            have hpath : (call.includePath "d").toOption = some "a" := by decide +kernel
            obtain rfl : "a" = path :=
              Option.some.inj (hpath.symm.trans (congrArg Except.toOption admitted))
            have htext : (call.includedText "a" (l.env.surroundings.readText "a" "")).toOption
                = some "x\ty".toList := by decide +kernel
            obtain rfl : "x\ty".toList = text :=
              Option.some.inj (htext.symm.trans (congrArg Except.toOption chosen))
            have hlines : splitLines? 4 "x\ty".toList = some ["x   y".toList] := by decide +kernel
            obtain rfl : ["x   y".toList] = lines := Option.some.inj (hlines.symm.trans split)
            exact .inr ⟨rfl, hfile⟩
      · rw [hb] at found
        obtain rfl := List.mem_singleton.mp found
        cases handed with
        | nested inside => cases inside
  have hapart : ∀ opened, d.Opens (l.surroundings o) text opened → TablesApart files opened := by
    rintro opened ⟨lines, site, b, hlines, h⟩
    obtain rfl := Option.some.inj (hsplit.symm.trans hlines)
    rcases hreached opened site b h with ⟨rfl, -⟩ | ⟨rfl, -⟩
    · exact .nil
    · exact List.pairwise_singleton _ _
  have hsplits : (splitLines? d.tabWidth text).isSome := hsplit ▸ rfl
  have hexpands : ∀ c, d.Uses (l.surroundings o) text (.standard .includeFile) c →
      c.Expands (· = d.origin) := by
    rintro c ⟨lines, opened, site, b, hlines, h, line, ls, markup, hblock, hc⟩
    obtain rfl := Option.some.inj (hsplit.symm.trans hlines)
    rcases hreached opened site b h with ⟨rfl, rfl, hb⟩ | ⟨rfl, hb⟩
    · rw [hb] at hblock
      cases List.mem_singleton.mp hblock
      cases hcall.symm.trans hc
      have hwidth : ∀ usual, call.tabWidth usual = 4 := fun _ => rfl
      refine Call.expands_of_tabWidth fun _ _ => ?_
      rw [hwidth]
      decide
    · rw [hb] at hblock
      cases List.mem_singleton.mp hblock
  have hunstuck : d.Unstuck (l.surroundings o) text := by
    intro lines hlines opened site b h line first hblock
    obtain rfl := Option.some.inj (hsplit.symm.trans hlines)
    rcases hreached opened site b h with ⟨-, -, hb⟩ | ⟨-, hb⟩ <;>
    · rw [hb] at hblock
      cases List.mem_singleton.mp hblock
  have habroad : ∀ opened, d.Opens (l.surroundings o) text opened →
      ∀ f ∈ opened, files.resolve f.path = .error .outside → f.path ∈ ([] : List String) :=
    fun _ h f hf houtside => absurd houtside (h.inland (fun _ _ => nofun) f hf)
  have hroom : (files.filesAt ".").length + 2 ≤ 3 := by
    rw [FileTree.filesAt, List.length_mergeSort]
    decide +kernel
  have hsound : d.Sound (l.surroundings o) text :=
    ⟨hapart, hsplits, hexpands, hunstuck, [], habroad, hroom⟩
  exact ⟨hsound, lint_error_eq_none l text o rfl hsound⟩

/-- A file with a tab that is included with no width for tabs makes the lint
    fail. -/
theorem lint_fails_without_width :
    let files : FileTree := { entries := [("a", .file [120, 9, 121, 10])] }
    let l : Linter := { env := { constructs := .standard, files := files, clock := 0, nesting := 3 } }
    let text := ".. include:: a\n   :tab-width: 0\n".toList
    ((l.lint text {}).1.error matches some (.stopped "" .fault)) = true := by
  decide +kernel

end Linter

end MarkupLint
