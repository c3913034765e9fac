import MarkupLint.Proofs.Keeping
import MarkupLint.Proofs.Resilience

/-! # Texts that are accounted for

    A text that is read with the standard directives and roles leaves every
    pending node waiting for one pass, however deep in lists, tables and
    included files the node came about.  The watch that says so lets anything
    be raised (`Watch.accounting`); each file is read under it by induction on
    how many files may still be opened inside one another. -/

namespace MarkupLint

/-- What is watched where pending nodes alone count. -/
def Watch.accounting (usual : String) (o : Origin) : Watch where
  usual := usual
  origin := o
  heard _ := True
  strict := True
  roles _ _ := trivial

/-! ## The standard names -/

/-- Every standard role stands in a line. -/
theorem Role.isPhrase_of_standard {key : String} {r : Role} (h : Role.standard.get? key = some r) :
    r.isPhrase = true := by
  have hall : ∀ p ∈ Role.standard, p.2.isPhrase = true := by decide
  exact hall _ (Data.Table.mem_of_get? h)

/-- An environment with the standard constructs has them wherever it is looked
    up. -/
theorem Environment.builtin {env : Environment} (h : env.constructs = .standard) :
    env.surroundings.Builtin where
  roles name r hr := by
    have hget : env.constructs.roles.get? (bindingName name) = some r := hr
    rw [h] at hget
    exact Role.isPhrase_of_standard hget
  directives := Linter.directive?_standard h

/-! ## Reading -/

variable {usual : String} {o : Origin} {s : ParseState} {site : Site} {b : Body} {d : Document}

/-- Where these are known, accounts can be kept. -/
theorem Watch.accounting_tends (henv : site.env.Builtin) : (accounting usual o).Tends site :=
  ⟨fun _ _ => trivial, fun _ => henv⟩

/-- A body is read so that the document stays accounted: by induction on how
    many files may still be opened inside one another. -/
theorem Site.accounts_read (henv : site.env.Builtin)
    (hparent : (Watch.accounting usual o).Roomy s.doc site.parent) (count : Nat) :
    (Watch.accounting usual o).Keeps s (site.read count b) := by
  induction count generalizing site b s with
  | zero =>
    refine .throw fun _ => ⟨.refl _, fun h hstop => ?_⟩
    cases hstop
  | succ count ih =>
    refine meets_readWithin (fun f site' b' hreached t hroomy => ?_) (Watch.accounting_tends henv)
      hparent
    refine ih ?_ hroomy
    rw [hreached.env]
    exact henv

/-! ## Documents -/

namespace Document

/-- There is nothing but the root. -/
structure Empty (d : Document) : Prop where
  forest : d.forest = (Forest.alloc {} { kind := .document, source := d.source }).2
  root : d.root = 0
  requests : d.requests = []
  substitutions : d.substitutions = []

/-- A new document is empty. -/
theorem empty_new (source : String) (settings : Settings) (r : Reporter) :
    Empty { Document.new source settings with reporter := r } :=
  ⟨rfl, rfl, rfl, rfl⟩

/-- And an empty one accounted for. -/
theorem Empty.accounted (h : d.Empty) : d.Accounted := by
  have hget : ∀ i, (d.forest.get i).children = [] ∧ (d.forest.get i).parent = none ∧
      (d.forest.get i).kind = .document := by
    intro i
    rw [h.forest, Forest.get_alloc]
    split
    · exact ⟨rfl, rfl, rfl⟩
    · rw [Forest.get_of_size_le (Nat.zero_le i)]
      exact ⟨rfl, rfl, rfl⟩
  have hparent : ∀ i, d.forest.parent? i = none := fun i => (hget i).2.1
  have hkids : ∀ i, d.forest.children i = [] := fun i => (hget i).1
  have hproper : d.forest.Proper d.root := {
    linked := {
      nodup := fun p => by
        rw [hkids]
        exact List.nodup_nil
      mem_iff := fun i p => by
        rw [hkids, hparent]
        exact iff_of_false List.not_mem_nil nofun }
    inside := by
      rw [h.root, h.forest, Forest.size_alloc]
      exact Nat.succ_pos _
    kind := (hget _).2.2
    top := hparent _
    fits := fun i p hp => by
      rw [hparent] at hp
      cases hp }
  exact {
    proper := hproper
    asked := fun i hi => absurd ((hget i).2.2.symm.trans hi) (by decide)
    delayed := fun r hr => by
      rw [h.requests] at hr
      cases hr
    topical := fun i t _ ht => by
      rw [hparent] at ht
      cases ht
    defined := fun name i hi => by
      rw [h.substitutions] at hi
      cases hi }

/-- **A text leaves every pending node waiting for one pass.** -/
theorem Empty.accounted_of_parse (h : d.Empty) {env : Surroundings} (henv : env.Builtin)
    {text : List Char} {d' : Document} (hparse : d.parse env text = (.ok (), d')) :
    d'.Accounted ∧ d'.root = d.root := by
  let W := Watch.accounting d.reporter.source d.origin
  have haccounted := h.accounted
  have hroomy : W.Roomy d d.root := fun _ => ⟨haccounted.proper.inside, by
    rw [Document.node, haccounted.proper.kind]
    rfl⟩
  have hholds : W.Holds ({ doc := d } : ParseState) :=
    ⟨rfl, rfl, fun _ => haccounted, fun _ => ⟨fun _ _ h => (by cases h), List.forall_mem_nil _⟩⟩
  rw [parse, EStateM.run] at hparse
  cases hlines : splitLines? d.tabWidth text with
  | none =>
    rw [parseText_of_none env hlines] at hparse
    cases hparse
  | some lines =>
    rw [parseText_of_some env hlines] at hparse
    have hread : W.Keeps ({ doc := d } : ParseState)
        (Site.read (env.nesting + 1) (d.site env) ⟨0, lines⟩) := Site.accounts_read henv hroomy _
    have hends := hread hholds
    cases hrun : Site.read (env.nesting + 1) (d.site env) ⟨0, lines⟩ { doc := d } with
    | error e s =>
      rw [hrun] at hparse
      cases hparse
    | ok a s =>
      rw [hrun] at hparse hends
      cases hparse
      obtain ⟨leads, -⟩ | _ := hends
      exact ⟨leads.holds.accounted trivial, leads.changes.root⟩

end Document

end MarkupLint
