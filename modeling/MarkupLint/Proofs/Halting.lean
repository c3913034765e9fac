import MarkupLint.Proofs.Collecting
import MarkupLint.Proofs.Resilience

/-! # Halting is a prefix of not halting

    Two documents that differ in their halt levels are parsed in the same
    way, and passes are applied to them in the same way, until the first
    message that reaches the level at which one of them halts.  There the run
    of that document stops.  So its observers have seen what the observers of
    the other document saw before that message, and the halt tells of the
    message itself; without such a message the runs do not differ at all. -/

namespace MarkupLint

/-! ## What an observer sees -/

namespace Reporter

/-- A collector of the name is attached. -/
def Hears (r : Reporter) (name : String) : Prop :=
  ∃ c, r.collectors.get? name = some c ∧ c.attached = true

/-- The records that an attached collector is handed of notices. -/
def handed (r : Reporter) (xs : List Notice) : List Record :=
  (xs.filter fun x => r.notifies x.level).map Notice.record

variable {r r' : Reporter} {name : String}

/-- A record that is handed on comes after the others. -/
theorem Hears.notify (h : r.Hears name) (x : Record) :
    (r.notify x).Hears name ∧ (r.notify x).collected name = r.collected name ++ [x] := by
  obtain ⟨c, hc, hattached⟩ := h
  have hget : (r.notify x).collectors.get? name
      = some { c with records := c.records ++ [x] } := by
    simp [get?_notify, hc, hattached]
  refine ⟨⟨_, hget, hattached⟩, ?_⟩
  simp [collected, hget, hc]

theorem Hears.tell (h : r.Hears name) (x : Notice) :
    (r.tell x).Hears name ∧ (r.tell x).collected name = r.collected name ++ r.handed [x] := by
  by_cases hnotifies : r.notifies x.level = true
  · have htell : r.tell x = r.notify x.record := if_pos hnotifies
    have hhanded : r.handed [x] = [x.record] := by simp [handed, hnotifies]
    rw [htell, hhanded]
    exact h.notify x.record
  · have htell : r.tell x = r := if_neg hnotifies
    have hhanded : r.handed [x] = [] := by simp [handed, hnotifies]
    rw [htell, hhanded, List.append_nil]
    exact ⟨h, rfl⟩

theorem notifies_tell (r : Reporter) (x : Notice) : (r.tell x).notifies = r.notifies := by
  unfold tell
  split <;> rfl

theorem handed_cons (r : Reporter) (x : Notice) (xs : List Notice) :
    r.handed (x :: xs) = r.handed [x] ++ r.handed xs := by
  simp only [handed, ← List.map_append, ← List.filter_append]
  rfl

theorem Hears.told (h : r.Hears name) (xs : List Notice) :
    (r.told xs).collected name = r.collected name ++ r.handed xs := by
  induction xs generalizing r with
  | nil => exact (List.append_nil _).symm
  | cons x xs ih =>
    obtain ⟨hears, hcollected⟩ := h.tell x
    have hrest : (r.tell x).handed xs = r.handed xs := by simp only [handed, notifies_tell]
    show ((r.tell x).told xs).collected name = _
    rw [ih hears, hcollected, hrest, handed_cons r x xs, List.append_assoc]

/-- An observer sees the records of the notices that a reporter is told. -/
theorem Told.collected {xs : List Notice} (h : Told xs r r') (hears : r.Hears name) :
    r'.collected name = r.collected name ++ r.handed xs := by
  obtain ⟨stream, rfl⟩ := h
  exact hears.told xs

/-- Notices above the level of tracing are all handed on. -/
theorem handed_of_loud {xs : List Notice} (h : ∀ x ∈ xs, Level.debug < x.level) :
    r.handed xs = xs.map Notice.record := by
  rw [handed, List.filter_eq_self.mpr fun x hx => ?_]
  simp [notifies, h x hx]

theorem handed_append (r : Reporter) (xs ys : List Notice) :
    r.handed (xs ++ ys) = r.handed xs ++ r.handed ys := by
  simp only [handed, List.filter_append, List.map_append]

end Reporter

/-- The halt is one at the message with a record. -/
structure Halt.At (h : Halt) (m : Record) : Prop where
  level : h.level = m.level
  text : h.text = m.fullMessage
  source : h.source = m.source
  line : (if 0 < h.line then some h.line else none) = m.line

theorem Notice.halt_at (x : Notice) : x.halt.At x.record := ⟨rfl, rfl, rfl, rfl⟩

/-! ## Runs that part -/

/-- The run breaks off: tabs cannot be expanded, there is no room for the
    files, or reading gets stuck. -/
inductive Stop.IsBreak : Stop → Prop
  | fault : IsBreak .fault
  | exhausted : IsBreak .exhausted
  | endless : IsBreak .endless

/-- The document halts at another level. -/
def Document.haltingAt (d : Document) (h : Level) : Document :=
  { d with reporter := { d.reporter with haltLevel := h } }

/-- Runs may part at any message of a named level above that of tracing, and
    ask for feasible passes only. -/
def License.parting (stops : Stop → Prop) : License where
  about _ := True
  stops := stops
  levels l := .debug < l ∧ l ≤ .severe
  requests := Request.Feasible
  parts := True
  severity s := by cases s <;> decide

namespace Document

variable {stops : Stop → Prop} {v w : World} {d e : Document} {name : String}

/-- A document that never halts against one that halts at some level. -/
theorem alike_haltingAt (hnever : d.reporter.haltLevel = .never) (h : Level) :
    d.Alike v w (.parting stops) (d.haltingAt h) := by
  refine .intro d.forest h (.refl _) (.inr ⟨trivial, fun l hl hreached => ?_⟩)
  rw [hnever] at hreached
  have hle : Level.never.rank ≤ Level.severe.rank := Int.le_trans hreached hl.2
  exact absurd hle (by decide)

/-- A run that halts at a level, against one that does not: the messages that
    an observer sees of the latter are the same, and so is everything else,
    if none of them reaches the level; and otherwise those before the first
    that does, at which the former halts. -/
def HaltsAt (d : Document) (name : String) (h : Level)
    (never halting : Except Stop Unit × Document) : Prop :=
  ∃ messages, never.2.reporter.collected name = d.reporter.collected name ++ messages ∧
    ((∀ m ∈ messages, ¬h ≤ m.level) → halting = (never.1, never.2.haltingAt h)) ∧
    ∀ before m after, messages = before ++ m :: after → (∀ x ∈ before, ¬h ≤ x.level) →
      h ≤ m.level →
      halting.2.reporter.collected name = d.reporter.collected name ++ before ∧
        ∃ halt, halting.1 = .error (.halted halt) ∧ halt.At m

/-- There is but one first message that reaches a level. -/
theorem first_unique {h : Level} {before before' after after' : List Record} {m m' : Record}
    (heq : before ++ m :: after = before' ++ m' :: after') (hbefore : ∀ x ∈ before, ¬h ≤ x.level)
    (hm : h ≤ m.level) (hbefore' : ∀ x ∈ before', ¬h ≤ x.level) (hm' : h ≤ m'.level) :
    before = before' ∧ m = m' := by
  induction before generalizing before' with
  | nil =>
    cases before' with
    | nil => exact ⟨rfl, (List.cons.inj heq).1⟩
    | cons x rest =>
      obtain ⟨rfl, -⟩ := List.cons.inj heq
      exact absurd hm (hbefore' _ List.mem_cons_self)
  | cons x rest ih =>
    cases before' with
    | nil =>
      obtain ⟨rfl, -⟩ := List.cons.inj heq
      exact absurd hm' (hbefore _ List.mem_cons_self)
    | cons x' rest' =>
      obtain ⟨rfl, htail⟩ := List.cons.inj heq
      obtain ⟨rfl, rfl⟩ := ih htail (List.forall_mem_cons.mp hbefore).2
        (List.forall_mem_cons.mp hbefore').2
      exact ⟨rfl, rfl⟩

/-- Runs that are compared halt at the first message that reaches the level. -/
theorem Compared.haltsAt {h : Level} {never halting : Except Stop Unit × Document}
    (hcompared : Compared v v (.parting stops) d (d.haltingAt h) never halting)
    (hears : d.reporter.Hears name) : d.HaltsAt name h never halting := by
  have hother : (d.haltingAt h).reporter.Hears name := hears
  have hmap : ∀ xs : List Notice, (∀ x ∈ xs, License.levels (.parting stops) x.level ∧
      ¬(d.haltingAt h).reporter.haltLevel ≤ x.level) →
      (∀ r : Reporter, r.handed xs = xs.map Notice.record) ∧
        ∀ m ∈ xs.map Notice.record, ¬h ≤ m.level := by
    intro xs hxs
    refine ⟨fun r => Reporter.handed_of_loud fun x hx => (hxs x hx).1.1, fun m hm => ?_⟩
    obtain ⟨x, hx, rfl⟩ := List.mem_map.mp hm
    exact (hxs x hx).2
  cases hcompared with
  | spoiled h => exact absurd h (not_spoiled v _)
  | agree same alike kept =>
    -- Both ran to the end, so no message reached the level.
    rename_i xs
    obtain ⟨hhanded, hbelow⟩ := hmap xs kept.below
    refine ⟨xs.map Notice.record, ?_, fun _ => ?_, ?_⟩
    · rw [kept.first.collected hears, hhanded]
    · obtain ⟨result, e⟩ := never
      obtain ⟨result', e'⟩ := halting
      obtain rfl : result = result' := same
      have hhalt : e'.reporter.haltLevel = h := kept.second.haltLevel
      cases alike with
      | intro forest halt like =>
        obtain rfl : halt = h := hhalt
        obtain rfl : forest = e.forest := like.eq rfl
        rfl
    · rintro before m after heq - hm
      exact absurd hm (hbelow m (heq ▸ List.mem_append_right _ List.mem_cons_self))
  | parted hstop hparted =>
    -- They parted at `x`, which is then the first message that reached it.
    obtain ⟨-, xs, x, ys, below, level, reached, rfl, first, second⟩ := hparted
    obtain ⟨hhanded, hbelow⟩ := hmap xs below
    have hx : d.reporter.handed [x] = [x.record] :=
      Reporter.handed_of_loud (List.forall_mem_singleton.mpr level.1)
    have hmessages : d.reporter.handed (xs ++ x :: ys)
        = xs.map Notice.record ++ x.record :: d.reporter.handed ys := by
      rw [Reporter.handed_append, hhanded, Reporter.handed_cons, hx]
      rfl
    refine ⟨_, first.collected hears, fun hnone => ?_, ?_⟩
    · rw [hmessages] at hnone
      exact absurd reached (hnone _ (List.mem_append_right _ List.mem_cons_self))
    · intro before m after heq hbefore hm
      obtain ⟨rfl, rfl⟩ := first_unique (hmessages.symm.trans heq) hbelow reached hbefore hm
      refine ⟨?_, _, hstop, x.halt_at⟩
      rw [second.collected hother, hhanded]
      rfl

/-! ## Parsing and passes -/

/-- Parses a text and applies the standard passes to what was parsed: how it
    ended, and the document after it. -/
def process (d : Document) (env : Surroundings) (text : List Char) : Except Stop Unit × Document :=
  match d.parse env text with
  | (.error stop, e) => (.error stop, e)
  | (.ok (), e) =>
    let ended := ({ document := e : Schedule }.populateStandard).run
    (ended.1, ended.2.document)

/-- Where parsing stops, nothing comes after it. -/
theorem process_of_error {env : Surroundings} {text : List Char} {stop : Stop}
    (h : (d.parse env text).1 = .error stop) : (d.process env text).1 = .error stop := by
  unfold process
  generalize d.parse env text = x at h
  obtain ⟨_, e⟩ := x
  obtain rfl : _ = Except.error stop := h
  rfl

/-- What came before a comparison is part of it. -/
theorem Compared.kept {L : License} {d' e' : Document} {x y : Except Stop Unit × Document}
    {xs : List Notice} (hkept : Kept L xs d e d' e') (h : Compared v w L d' e' x y) :
    Compared v w L d e x y := by
  cases h with
  | spoiled h => exact .spoiled h
  | parted hstop h => exact .parted hstop (h.kept hkept)
  | agree same alike kept => exact .agree same alike (hkept.trans kept)

/-- What comes of applying passes: how it ended, and the document. -/
def passed (x : EStateM.Result Stop Schedule Unit) : Except Stop Unit × Document :=
  ((outcome x).1, (outcome x).2.document)

theorem passed_document (x : EStateM.Result Stop Schedule Unit) :
    (passed x).2 = (endState x).document := by
  cases x <;> rfl

/-- Schedules that are run alike are so for their documents. -/
theorem compared_passed {L : License} {s t : Schedule} {x y : EStateM.Result Stop Schedule Unit}
    (h : Compare (Schedule.applying v w L) s t x y) :
    Compared v w L s.document t.document (passed x) (passed y) := by
  cases h with
  | spoiled h => exact .spoiled (passed_document x ▸ h)
  | parted hy h =>
    rw [hy]
    exact .parted rfl (passed_document x ▸ h)
  | agree hagree =>
    rcases hagree.cases with ⟨_, _, _, rfl, rfl, ⟨_, hst, rfl⟩, xs, hkept⟩ |
      ⟨stop, _, _, rfl, rfl, ⟨_, hst, rfl⟩, xs, hkept⟩
    · exact .agree rfl hst hkept
    · exact .agree rfl hst hkept

/-- Processing documents that are alike compares like parsing them. -/
theorem process_compared {L : License} (hstops : ∀ e, L.stops e) (hde : d.Alike v w L e)
    (env : Surroundings) (hcovers : L.Covers (env.under v)) (habout : L.about d.origin)
    (text : List Char) :
    Compared v w L d e (d.process (env.under v) text) (e.process (env.under w) text) := by
  obtain ⟨-, -, hparsed⟩ := parse_compared hde env hcovers habout text
  simp only [process]
  generalize d.parse (env.under v) text = x at hparsed
  generalize e.parse (env.under w) text = y at hparsed
  obtain ⟨result, d'⟩ := x
  obtain ⟨result', e'⟩ := y
  -- The first run goes on, be it without a partner.
  have hon : ∃ x, ({ document := d' : Schedule }.populateStandard).run = outcome x ∧
      d'.Steady L (passed x).2 := by
    obtain ⟨x, -, hx, -, hsteady, -⟩ := Schedule.run_compared (v := v) (w := w) hstops (.refl d')
    exact ⟨x, hx, passed_document x ▸ hsteady⟩
  cases hparsed with
  | spoiled h =>
    cases result with
    | error stop => exact .spoiled h
    | ok _ =>
      obtain ⟨x, hx, hsteady⟩ := hon
      dsimp only
      rw [hx]
      exact .spoiled (h.steady hsteady)
  | parted hstop h =>
    obtain rfl : result' = _ := hstop
    cases result with
    | error stop => exact .parted rfl h
    | ok _ =>
      obtain ⟨x, hx, hsteady⟩ := hon
      obtain ⟨zs, htold⟩ := hsteady.told
      dsimp only
      rw [hx]
      exact .parted rfl (h.told htold)
  | agree same alike kept =>
    obtain rfl : result = result' := same
    cases result with
    | error stop => exact .agree rfl alike kept
    | ok _ =>
      obtain ⟨x, y, hx, hy, -, hcompare⟩ := Schedule.run_compared hstops alike
      dsimp only
      rw [hx, hy]
      have hpassed := compared_passed hcompare
      rw [Schedule.document_populateStandard, Schedule.document_populateStandard] at hpassed
      exact hpassed.kept kept

section Standard

variable {env : Surroundings} (hstandard : ∀ name custom, env.directive? name ≠ some (.custom custom))

include hstandard

/-- Standard directives stop only at a text whose tabs cannot be expanded. -/
theorem covers_parting (hbroken : ∀ stop, stop.IsBreak → stops stop) :
    (License.parting stops).Covers env where
  deep := hbroken _ .exhausted
  tabs := hbroken _ .fault
  allowed site henv block := by
    cases block with
    | explicit line lines markup =>
      intro directive c hcall
      cases directive with
      | standard directive =>
        exact Site.licensed_standard hcall (fun _ => id) fun _ => .inl (hbroken _ .fault)
      | ignored => trivial
      | custom custom =>
        obtain ⟨name, -, hname, -⟩ := Site.call?_eq_some hcall
        rw [henv] at hname
        exact absurd hname (hstandard name custom)
    | stuckList line first => exact hbroken _ .endless
    | _ => trivial

/-- Parsing a text into a document that never halts ends without an error,
    unless it breaks off, and asks for feasible passes only. -/
theorem parse_never (hnever : d.reporter.haltLevel = .never) (text : List Char) :
    (∀ stop, (d.parse env text).1 = .error stop → stop.IsBreak) ∧
      d.Steady (.parting Stop.IsBreak) (d.parse env text).2 := by
  let v : World := ⟨env.files, env.clock⟩
  obtain ⟨hsteady, hends, -⟩ := parse_compared (v := v) (w := v) (L := .parting Stop.IsBreak)
    (.refl d) env (covers_parting hstandard fun _ => id) trivial text
  exact ⟨fun stop hstop => License.not_stops (L := .parting Stop.IsBreak) (fun _ hl => hl.2)
    (hsteady.haltLevel.trans hnever) (hends stop hstop), hsteady⟩

/-- The passes after it end without an error. -/
theorem process_of_parse (hnever : d.reporter.haltLevel = .never) (hrequests : d.requests = [])
    {text : List Char} (hparsed : (d.parse env text).1 = .ok ()) :
    (d.process env text).1 = .ok () := by
  obtain ⟨-, hsteady⟩ := parse_never hstandard hnever text
  simp only [process]
  generalize d.parse env text = x at hparsed hsteady
  obtain ⟨_, e⟩ := x
  obtain rfl : _ = Except.ok () := hparsed
  have hfeasible : ∀ r ∈ e.requests, r.Feasible := by
    intro r hr
    rcases hsteady.requests r hr with hold | hnew
    · rw [hrequests] at hold
      cases hold
    · exact hnew
  exact Schedule.run_eq_ok
    (Schedule.orderly_populateStandard (hsteady.haltLevel.trans hnever) hfeasible)

end Standard

/-- **Halting is a prefix of not halting.**  A text is parsed with standard
    directives and roles, and then the standard passes are applied, for a
    document that never halts and for one that halts at a level.  If no
    message of the first run reaches the level, the runs end in the same way,
    with the same messages and the same tree.  Otherwise an observer of the
    second document has seen the messages before the first that reaches the
    level, and the run has halted at that message.  A run without a halt ends
    without an error if the text is sound, and otherwise it may break off in
    parsing. -/
theorem halting_prefix (d : Document) (env : Surroundings) (text : List Char) (name : String)
    (h : Level) (hnever : d.reporter.haltLevel = .never) (hrequests : d.requests = [])
    (hears : d.reporter.Hears name)
    (hstandard : ∀ name custom, env.directive? name ≠ some (.custom custom)) :
    d.HaltsAt name h (d.parse env text) ((d.haltingAt h).parse env text) ∧
    d.HaltsAt name h (d.process env text) ((d.haltingAt h).process env text) ∧
    (d.Sound env text → (d.parse env text).1 = .ok () ∧ (d.process env text).1 = .ok ()) ∧
    ((d.parse env text).1 = .ok () ∧ (d.process env text).1 = .ok () ∨
      ∃ stop : Stop, stop.IsBreak ∧ (d.parse env text).1 = .error stop ∧
        (d.process env text).1 = .error stop) := by
  let v : World := ⟨env.files, env.clock⟩
  have hcovers : (License.parting fun _ => True).Covers env :=
    covers_parting hstandard fun _ _ => trivial
  have halike : d.Alike v v (.parting fun _ => True) (d.haltingAt h) := alike_haltingAt hnever h
  obtain ⟨-, -, hparsed⟩ := parse_compared halike env hcovers trivial text
  have hprocessed := process_compared (fun _ => trivial) halike env hcovers trivial text
  refine ⟨hparsed.haltsAt hears, hprocessed.haltsAt hears, fun hsound => ?_, ?_⟩
  · have hends := (hsound.parse_ok hnever hstandard).1
    exact ⟨hends, process_of_parse hstandard hnever hrequests hends⟩
  · cases hends : (d.parse env text).1 with
    | ok _ => exact .inl ⟨rfl, process_of_parse hstandard hnever hrequests hends⟩
    | error stop =>
      exact .inr ⟨stop, (parse_never hstandard hnever text).1 stop hends, rfl, process_of_error hends⟩

/-- A role that there is not: a note, and then the error at which the second
    document halts. -/
theorem halting_prefix_unknown_role :
    let d : Document := { Document.new "d" {} with
      reporter := (Document.new "d" {}).reporter.attach "observer" }
    let env := (Environment.mk .standard {} 0 0 .standard).surroundings
    let text := ":x:`y`".toList
    (((d.parse env text).2.reporter.collected "observer").map (·.level)) = [.info, .error] ∧
    ((((d.haltingAt .error).parse env text).2.reporter.collected "observer").map (·.level))
      = [.info] ∧
    d.HaltsAt "observer" .error (d.parse env text) ((d.haltingAt .error).parse env text) ∧
    d.HaltsAt "observer" .error (d.process env text) ((d.haltingAt .error).process env text) := by
  intro d env text
  have hstandard : ∀ name custom, env.directive? name ≠ some (.custom custom) :=
    Linter.directive?_standard rfl
  obtain ⟨hparsed, hprocessed, -⟩ := halting_prefix d env text "observer" .error rfl rfl
    ⟨{ subscription := some 0 }, rfl, rfl⟩ hstandard
  exact ⟨by decide +kernel, by decide +kernel, hparsed, hprocessed⟩

/-- A file with a tab that is included with no width for tabs: no message is
    raised, and no run ends well. -/
theorem parse_breaks_without_width :
    let d : Document := { Document.new "d" {} with
      reporter := (Document.new "d" {}).reporter.attach "observer" }
    let files : FileTree := { entries := [("a", .file [120, 9, 121, 10])] }
    let env := (Environment.mk .standard files 0 3 .standard).surroundings
    let text := ".. include:: a\n   :tab-width: 0\n".toList
    d.reporter.haltLevel = .never ∧ d.reporter.Hears "observer" ∧
      (d.parse env text).2.reporter.collected "observer" = [] ∧
      ((d.parse env text).1 matches .error .fault) = true ∧
      (((d.haltingAt .severe).parse env text).1 matches .error .fault) = true := by
  intro d files env text
  exact ⟨rfl, ⟨{ subscription := some 0 }, rfl, rfl⟩, by decide +kernel, by decide +kernel,
    by decide +kernel⟩

end Document

end MarkupLint
