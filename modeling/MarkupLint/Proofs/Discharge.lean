import MarkupLint.Proofs.Accounting
import MarkupLint.Proofs.Clearing

/-! # Pending nodes do not last

    When a text was read, every pending node waits for one pass
    (`Document.Empty.accounted_of_parse`).  A run takes the requests one after
    the other, and between two rounds every pending node below the root is
    the target of exactly one request that waits (`Schedule.Owing`): the
    passes move, copy and drop what they like, but none puts a pending node
    back into the tree, and what a node waits for takes it out.

    So nothing below the root is pending when nothing waits any more. -/

namespace MarkupLint

/-! ## Ledgers of a run -/

section

variable {L : Ledger} {d : Document} {i : NodeId}

/-- The ledger of a document that is accounted for. -/
def Document.Accounted.ledger (h : d.Accounted) : Ledger where
  root := d.root
  size := d.forest.size
  pending i := (d.node i).kind = .pending
  awaits := d.AwaitsContents
  outside _ := False
  root_lt := h.proper.inside
  root_inside := id
  pending_lt _ := Forest.lt_size_of_kind (by decide)
  pending_of_awaits i hi := by
    obtain ⟨r, hr, rfl, -⟩ := hi
    exact (h.delayed r hr).1
  outside_lt _ := False.elim

theorem Document.Accounted.holds_ledger (h : d.Accounted) : h.ledger.Holds d where
  root := rfl
  size := Nat.le_refl _
  linked := h.proper.linked
  kind := h.proper.kind
  top := h.proper.top
  pending _ := Iff.rfl
  fits i p hp := by
    refine ⟨False.elim, fun hi => h.topical i p hi hp, fun hk => ?_⟩
    refine Kind.isPhrase_of_mayHold ?_ (h.proper.fits i p hp)
    show (d.node p).kind.isPhrase = true ∨ (d.node p).kind = .substitutionDefinition
    simpa [Kind.confines] using hk
  defined := h.defined

namespace Ledger

/-- The ledger with what stands outside of the tree of a document. -/
def renew (L : Ledger) {d : Document} (hd : L.Holds d) : Ledger where
  root := L.root
  size := d.forest.size
  pending := L.pending
  awaits := L.awaits
  outside i := i < d.forest.size ∧ ¬d.forest.Above L.root i
  root_lt := Nat.lt_of_lt_of_le L.root_lt hd.size
  root_inside h := h.2 .here
  pending_lt i hi := Nat.lt_of_lt_of_le (L.pending_lt i hi) hd.size
  pending_of_awaits := L.pending_of_awaits
  outside_lt _ hi := hi.1

theorem Holds.renew (hd : L.Holds d) : (L.renew hd).Holds d where
  root := hd.root
  size := Nat.le_refl _
  linked := hd.linked
  kind := hd.kind
  top := hd.top
  pending := hd.pending
  fits i p hp :=
    { hd.fits i p hp with
      outside := fun hi => ⟨hd.lt_size_of_parent? hp, fun h => hi.2 (.up hp h)⟩ }
  defined := hd.defined

theorem Holds.pending_ne_root (hd : L.Holds d) (hi : L.pending i) : i ≠ L.root := by
  rintro rfl
  exact absurd (hd.kind.symm.trans ((hd.pending L.root).mpr hi)) (by decide)

/-- What is cleared away does not stand below the root. -/
theorem Holds.not_above_of_cleared (hd : L.Holds d) (hi : L.pending i) (h : Pass.Cleared d i) :
    ¬d.forest.Above L.root i := by
  intro habove
  rcases habove.eq_or with heq | ⟨p, hp, hrest⟩
  · exact hd.pending_ne_root hi heq
  rcases h with hnone | ⟨t, ht, htopic, htop⟩
  · rw [hnone] at hp
    cases hp
  obtain rfl := Option.some.inj (ht.symm.trans hp)
  rcases hrest.eq_or with rfl | ⟨q, hq, -⟩
  · exact absurd (hd.kind.symm.trans htopic) (by decide)
  · rw [htop] at hq
    cases hq

/-- A request is for a pass that a pending node waits for, or for another
    pass on the root. -/
inductive Asks (L : Ledger) (r : Request) : Prop
  | delayed {pass : Pass} (kind : r.kind = pass.kind) (mem : pass ∈ Pass.delayed)
      (pending : L.pending r.target) (awaits : pass = .contents → L.awaits r.target) : Asks L r
  | prompt {pass : Pass} (kind : r.kind = pass.kind) (notMem : pass ∉ Pass.delayed)
      (target : r.target = L.root) : Asks L r

theorem Asks.renew (hd : L.Holds d) {r : Request} (h : L.Asks r) : (L.renew hd).Asks r := by
  rcases h with ⟨kind, mem, pending, awaits⟩ | ⟨kind, notMem, target⟩
  · exact .delayed kind mem pending awaits
  · exact .prompt kind notMem target

end Ledger

end

namespace Schedule

variable {L : Ledger} {s t u v : Schedule} {r : Request}

/-- What holds between the rounds of a run. -/
structure Owing (L : Ledger) (s : Schedule) : Prop where
  valid : s.Valid
  drained : s.document.requests = []
  locals : s.locals = []
  holds : L.Holds s.document
  asks : ∀ r ∈ s.waiting, L.Asks r
  /-- Every pending node below the root is the target of one request. -/
  owed : ∀ i, L.pending i → s.document.forest.Above L.root i →
    (s.waiting.map (·.target)).count i = 1

/-! ## One round -/

/-- Without local passes, the standard pass of a request is applied. -/
theorem applyRequest_of_kind {pass : Pass} (hlocals : u.locals = []) (hkind : r.kind = pass.kind) :
    applyRequest r u = onDocument (pass.apply r.target r.options) u := by
  show u.passFor r u = _
  unfold passFor
  rw [hlocals, hkind, pass.ofKind?_kind]
  rfl

/-- A pass is admitted by a ledger and asks for nothing. -/
theorem Owing.leads (hlocals : u.locals = []) (hd : L.Holds u.document) (hr : L.Asks r)
    (hrun : applyRequest r u = .ok () v) :
    v = { u with document := v.document } ∧ v.document.requests = u.document.requests ∧
      L.Leads u.document v.document ∧ (L.pending r.target → Pass.Cleared v.document r.target) := by
  obtain ⟨pass, hkind, hends⟩ : ∃ pass : Pass, r.kind = pass.kind ∧
      L.regime.Ends u.document (fun _ e => L.pending r.target → Pass.Cleared e r.target)
        (pass.apply r.target r.options u.document) := by
    rcases hr with @⟨pass, kind, mem, pending, awaits⟩ | @⟨pass, kind, notMem, target⟩
    · exact ⟨pass, kind, ((Pass.meets_delayed mem pending awaits r.options).mono
        fun _ _ _ h _ => h) hd⟩
    · refine ⟨pass, kind, ?_⟩
      rw [target]
      exact ((Pass.meets_apply notMem r.options).mono fun _ _ _ _ hi =>
        absurd rfl (hd.pending_ne_root hi)) hd
  have hrequests := (pass.keeps_frame_apply r.target r.options).of_part Document.requests u.document
  rw [applyRequest_of_kind hlocals hkind, onDocument] at hrun
  cases happly : pass.apply r.target r.options u.document with
  | error stop e =>
    rw [happly] at hrun
    cases hrun
  | ok a e =>
    rw [happly] at hrun hends
    rw [stateAfter_of_ok happly] at hrequests
    cases hrun
    obtain ⟨hleads, hcleared⟩ | _ := hends
    exact ⟨rfl, hrequests, hleads, hcleared⟩

/-- **A round keeps what is owed**, and a pending node that it is about is out
    of the tree then. -/
theorem Owing.round (h : s.Owing L) (htake : s.take? = some (r, u))
    (hrun : applyRequest r u = .ok () v) :
    (∃ M, (v.record r).drain.Owing M) ∧
      ((s.document.node r.target).kind = .pending → Pass.Cleared v.document r.target) := by
  obtain ⟨huv, hnext, hdocument, -, hlocals⟩ := take?_next h.valid htake
  have hmem : ∀ q, q ∈ s.waiting ↔ q ∈ r :: u.waiting := fun q => hnext.perm.mem_iff
  -- The ledger of this round has all that stands outside the tree now.
  let M := L.renew h.holds
  have hM : M.Holds u.document := hdocument ▸ h.holds.renew
  have hasks : ∀ q ∈ s.waiting, M.Asks q := fun q hq => (h.asks q hq).renew h.holds
  obtain ⟨hv, hrequests, hleads, hcleared⟩ := Owing.leads (hlocals.trans h.locals) hM
    (hasks r ((hmem r).mpr List.mem_cons_self)) hrun
  rw [hdocument] at hleads hrequests
  have hvalid : v.Valid ∧ v.waiting = u.waiting := by
    rw [hv]
    exact huv.of_queue rfl rfl
  obtain ⟨hdvalid, hbacklog, -, -⟩ := next_round hvalid.1 r
  have hwaiting : (v.record r).drain.waiting = u.waiting := by
    refine (congrArg Backlog.queue hbacklog).trans ?_
    show v.waiting ++ v.document.requests = _
    rw [hvalid.2, hrequests, h.drained, List.append_nil]
  have hsame : (v.record r).drain.document = { v.document with requests := [] } :=
    (addAll_rest _ _).1
  refine ⟨⟨M, hdvalid, congrArg Backlog.requests hbacklog, ?_, ?_, fun q hq => ?_, fun i hi habove => ?_⟩,
    fun hpending => hcleared ((h.holds.pending r.target).mp hpending)⟩
  · refine (addAll_rest _ _).2.2.trans ?_
    show v.locals = []
    rw [hv]
    exact hlocals.trans h.locals
  · rw [hsame]
    exact (hleads.holds.leads_rest (e := { v.document with requests := [] }) rfl rfl rfl).holds
  · rw [hwaiting] at hq
    exact hasks q ((hmem q).mpr (List.mem_cons_of_mem _ hq))
  · have habove' : v.document.forest.Above L.root i := by
      rw [hsame] at habove
      exact habove
    -- What stands below the root stood there, and is not what was dealt with.
    have hbefore : s.document.forest.Above L.root i := by
      by_contra hout
      exact hleads.holds.not_above ⟨M.pending_lt i hi, hout⟩ habove'
    have hne : r.target ≠ i := by
      rintro rfl
      exact hleads.holds.not_above_of_cleared hi (hcleared hi) habove'
    have howed := h.owed i hi hbefore
    rw [(hnext.perm.map (·.target)).count_eq, List.map_cons, List.count_cons_of_ne hne] at howed
    rw [hwaiting]
    exact howed

/-! ## Runs -/

/-- Rounds lead from one schedule to another. -/
inductive Rounds : Schedule → Schedule → Prop
  | done {s : Schedule} : Rounds s s
  | round {s t u v : Schedule} {r : Request} (taken : s.take? = some (r, u))
      (met : applyRequest r u = .ok () v) (rest : Rounds (v.record r).drain t) : Rounds s t

/-- By induction on the rounds, what holds between them holds after them. -/
theorem Rounds.owing (hrounds : s.Rounds t) (h : s.Owing L) : ∃ M, t.Owing M := by
  induction hrounds generalizing L with
  | done => exact ⟨L, h⟩
  | round taken met _ ih =>
    obtain ⟨M, hM⟩ := (h.round taken met).1
    exact ih hM

/-- A loop that ends well goes through rounds until nothing waits. -/
theorem Loop.rounds {es : List Event} {out : Except Stop Unit} (h : Loop s es out t)
    (hout : out = .ok ()) : s.Rounds t := by
  induction h with
  | done => exact .done
  | fails => cases hout
  | applies taken met _ ih => exact .round taken met (ih hout)

/-- The standard passes of a document that is accounted for. -/
theorem owing_populateStandard {d : Document} (h : d.Accounted) :
    (({ document := d } : Schedule).populateStandard.drain).Owing h.ledger := by
  let asked : List Request := (Pass.reading ++ Pass.writing).map fun p => p.ask.of d
  have hprompt : ∀ r ∈ asked,
      r.target = d.root ∧ ∃ pass : Pass, r.kind = pass.kind ∧ pass ∉ Pass.delayed := by
    intro r hr
    have hall : ∀ pass ∈ Pass.reading ++ Pass.writing, pass ∉ Pass.delayed := by decide
    obtain ⟨pass, hpass, rfl⟩ := List.mem_map.mp hr
    exact ⟨rfl, pass, rfl, hall pass hpass⟩
  obtain ⟨hvalid, hpopulated⟩ := waiting_populateStandard d
  obtain ⟨hdvalid, hbacklog, -, hlocals⟩ := drain_spec hvalid
  have hwaiting : ({ document := d } : Schedule).populateStandard.drain.waiting = asked ++ d.requests := by
    refine (congrArg Backlog.queue hbacklog).trans ?_
    show _ ++ _ = _
    rw [hpopulated, document_populateStandard]
  have hsame : ({ document := d } : Schedule).populateStandard.drain.document
      = { d with requests := [] } := by
    refine (addAll_rest _ _).1.trans ?_
    rw [document_populateStandard]
  refine ⟨hdvalid, congrArg Backlog.requests hbacklog, hlocals.trans (locals_populateStandard d), ?_,
    fun r hr => ?_, fun i hi _ => ?_⟩
  · rw [hsame]
    exact (h.holds_ledger.leads_rest (e := { d with requests := [] }) rfl rfl rfl).holds
  · rw [hwaiting] at hr
    rcases List.mem_append.mp hr with hr | hr
    · obtain ⟨htarget, pass, hkind, hpass⟩ := hprompt r hr
      exact .prompt hkind hpass htarget
    · obtain ⟨hpending, hdelayed⟩ := h.delayed r hr
      obtain ⟨pass, hpass, hkind⟩ := List.mem_map.mp hdelayed
      refine .delayed hkind.symm hpass hpending fun hcontents => ⟨r, hr, rfl, ?_⟩
      rw [← hkind, hcontents]
  · have hroot : (asked.map (·.target)).count i = 0 := by
      refine List.count_eq_zero.mpr fun hmem => ?_
      obtain ⟨r, hr, rfl⟩ := List.mem_map.mp hmem
      exact h.holds_ledger.pending_ne_root hi (hprompt r hr).1
    rw [hwaiting, List.map_append, List.count_append, hroot, h.asked i hi]

/-- **No pending node lasts.**  A text that is read with the standard
    directives and roles, whatever files it includes, leaves every pending
    node waiting for one pass of those that pending nodes wait for.  Between
    the rounds of a run with the passes that every document goes through,
    every pending node below the root is the target of one request; applying
    the pass takes the node out of the tree, or the topic that holds it.
    After a run that ended well, no node below the root is pending. -/
theorem no_pending_lasts {env : Environment} (henv : env.constructs = .standard) (source : String)
    (settings : Settings) (reporter : Reporter) (text : List Char) {d : Document}
    (hparse : ({ Document.new source settings with reporter := reporter } : Document).parse
      env.surroundings text = (.ok (), d)) :
    let s : Schedule := ({ document := d } : Schedule).populateStandard
    (∀ i, (d.node i).kind = .pending → (d.requests.map (·.target)).count i = 1) ∧
    (∀ r ∈ d.requests, (d.node r.target).kind = .pending ∧ r.kind ∈ Pass.delayed.map Pass.kind) ∧
    (∀ t, s.drain.Rounds t →
      (∀ i, t.document.forest.Above t.document.root i → (t.document.node i).kind = .pending →
        (t.waiting.map (·.target)).count i = 1) ∧
      ∀ r u v, t.take? = some (r, u) → applyRequest r u = .ok () v →
        (t.document.node r.target).kind = .pending → Pass.Cleared v.document r.target) ∧
    (s.run.1 = .ok () → ∀ i, s.run.2.document.forest.Above s.run.2.document.root i →
      (s.run.2.document.node i).kind ≠ .pending) := by
  intro s
  have haccounted : d.Accounted :=
    ((Document.empty_new source settings reporter).accounted_of_parse (Environment.builtin henv)
      hparse).1
  have howing := owing_populateStandard haccounted
  refine ⟨haccounted.asked, haccounted.delayed, fun t hrounds => ?_, fun hok i habove hpending => ?_⟩
  · obtain ⟨M, hM⟩ := hrounds.owing howing
    refine ⟨fun i habove hpending => ?_, fun r u v htake hrun => (hM.round htake hrun).2⟩
    rw [hM.holds.root] at habove
    exact hM.owed i ((hM.holds.pending i).mp hpending) habove
  · have hvalid : s.Valid := by
      rw [show s = _ from populate_eq_addAll _ _]
      exact (valid_new d).addAll _
    have hloop := run_loop hvalid
    obtain ⟨M, hM⟩ := (hloop.rounds hok).owing howing
    have hdone := (hloop.ok howing.valid howing.drained hok).1
    rw [hM.holds.root] at habove
    have howed := hM.owed i ((hM.holds.pending i).mp hpending) habove
    rw [hdone] at howed
    cases howed

/-- A text with a table of contents, numbers for sections, classes in a list
    and classes in a file that it includes. -/
theorem no_pending_lasts_included :
    let bytes (s : String) : Bytes := s.toList.map fun c => UInt8.ofNat c.toNat
    let env := Environment.mk .standard
      { entries := [("a", .file (bytes ".. class:: x\n\nb\n"))] } 0 3 .standard
    let fresh := Document.new "d" {}
    let text := ".. contents::\n\n.. sectnum::\n\nA\n=\n\n* .. class:: y\n\n.. include:: a\n".toList
    let parsed := ({ fresh with reporter := fresh.reporter } : Document).parse env.surroundings text
    let run := (({ document := parsed.2 } : Schedule).populateStandard).run
    env.constructs = .standard ∧ parsed = (.ok (), parsed.2) ∧
      parsed.2.requests.map (·.kind)
        = ["parts.contents", "parts.sectnum", "misc.class-attribute", "misc.class-attribute"] ∧
      run.1 = .ok () ∧
      ∀ i, run.2.document.forest.Above run.2.document.root i → (run.2.document.node i).kind ≠ .pending := by
  intro bytes env fresh text parsed run
  obtain ⟨hended, hrequests, hrun⟩ : parsed.1 = .ok () ∧ parsed.2.requests.map (·.kind)
      = ["parts.contents", "parts.sectnum", "misc.class-attribute", "misc.class-attribute"] ∧
      run.1 = .ok () := by
    decide +kernel
  have hparse : parsed = (.ok (), parsed.2) := Prod.ext hended rfl
  exact ⟨rfl, hparse, hrequests, hrun,
    (no_pending_lasts rfl "d" {} fresh.reporter text hparse).2.2.2 hrun⟩

end Schedule

end MarkupLint
