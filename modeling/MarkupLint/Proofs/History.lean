import MarkupLint.Proofs.Schedule

/-! # The life of a schedule

    A schedule is made for a document and then used: passes are added and asked
    for, local passes are registered, and now and then the schedule is run.
    `history` lists what such a use does to the backlog, and every use follows
    its history (`after_follows`), which is proved operation by operation
    (`Operation.follows`).  Two results come from that:

    * what a run meets is always the next request, so a run that adds nothing
      goes through the queue in order (`run_inOrder`);
    * what ever entered the queue was met, or failed, or is in the queue still,
      and each run accounts for what it was given (`run_accounts`). -/

namespace MarkupLint

namespace Schedule

/-- A use that is made of a schedule. -/
inductive Operation where
  | add (a : Ask)
  | addPending (node : NodeId) (priority : Int) (options : List (String × Data.Value))
  | populate (components : List (List Ask))
  /-- The document is asked for a pass. -/
  | request (a : Ask)
  /-- The document gets a new node that stands for a pass. -/
  | newPending (kind : String) (priority : Int) (options : List (String × Data.Value))
  | register (kind : String) (p : LocalPass)
  | run

namespace Operation

/-- The schedule after an operation. -/
def perform : Operation → Schedule → Schedule
  | .add a, s => s.ask a
  | .addPending node priority options, s => s.addPending node priority options
  | .populate components, s => s.populate components
  | .request a, s => s.request a
  | .newPending kind priority options, s =>
    stateAfter (onDocument (Build.pending { kind := .pending } kind priority options)) s
  | .register kind p, s => s.register kind p
  | .run, s => s.run.2

/-- What an operation does to the backlog. -/
def events : Operation → Schedule → List Event
  | .add a, s => [.adds (a.of s.document)]
  | .addPending node priority options, s =>
    let kind := ((s.document.node node).attr? "transform").getD ""
    [.adds { kind := kind, priority := priority, target := node, options := options }]
  | .populate components, s => (components.flatten.map (·.of s.document)).map .adds
  | .request a, s => [.asks (a.of s.document)]
  | .newPending kind priority options, s =>
    let node : Node := { kind := .pending }
    let target := (s.document.forest.alloc (node.setAttr "transform" kind)).1
    [.asks { kind := kind, priority := priority, target := target, options := options }]
  | .register _ _, _ => []
  | .run, s => s.runEvents

end Operation

/-- The schedule after operations, one after the other. -/
def after (s : Schedule) : List Operation → Schedule
  | [] => s
  | op :: ops => (op.perform s).after ops

/-- What operations do to the backlog, one after the other. -/
def history (s : Schedule) : List Operation → List Event
  | [] => []
  | op :: ops => op.events s ++ (op.perform s).history ops

/-! ## Every use follows its history -/

theorem Follows.append {s t u : Schedule} {es fs : List Event} (h : Follows s es t)
    (h' : Follows t fs u) : Follows s (es ++ fs) u := by
  refine ⟨h'.valid, h.replay.append h'.replay, ?_⟩
  rw [h'.applied, h.applied, List.filterMap_append, List.append_assoc]

/-- Adding requests follows from the queue alone. -/
theorem follows_addAll {s : Schedule} (hv : s.Valid) (rs : List Request) :
    Follows s (rs.map .adds) (s.addAll rs) := by
  obtain ⟨hdoc, happ, -⟩ := addAll_rest s rs
  have hb : (s.addAll rs).backlog = ⟨s.waiting ++ rs, s.document.requests⟩ := by
    show Backlog.mk (s.addAll rs).waiting (s.addAll rs).document.requests = _
    rw [waiting_addAll hv, hdoc]
  refine ⟨hv.addAll rs, ?_, ?_⟩
  · rw [hb]
    exact replay_adds s.backlog rs
  · rw [happ, List.filterMap_map]
    have hnone : rs.filterMap (Event.applied? ∘ Event.adds) = [] := by
      rw [List.filterMap_eq_nil_iff]
      intro r _
      rfl
    rw [hnone, List.append_nil]

/-- A change of the document that asks for one more pass. -/
theorem follows_request {s : Schedule} (hv : s.Valid) {d : Document} {r : Request}
    (hd : d.requests = s.document.requests ++ [r]) :
    Follows s [.asks r] { s with document := d } := by
  obtain ⟨htv, htw⟩ := hv.of_queue (t := { s with document := d }) rfl rfl
  have hb : backlog { s with document := d } = ⟨s.waiting, s.document.requests ++ [r]⟩ := by
    show Backlog.mk (waiting { s with document := d }) d.requests = _
    rw [htw, hd]
  refine ⟨htv, ?_, (List.append_nil _).symm⟩
  rw [hb]
  exact replay_asks s.backlog [r]

/-- What components ask for is added in order. -/
theorem populate_eq_addAll (s : Schedule) (components : List (List Ask)) :
    s.populate components = s.addAll (components.flatten.map (·.of s.document)) := by
  show components.flatten.foldl ask s = _
  induction components.flatten generalizing s with
  | nil => rfl
  | cons a asks ih =>
      -- adding leaves the document alone, so the next ask means the same
      rw [List.foldl_cons, ih (s.ask a)]
      rfl

/-- The step: one operation follows its events. -/
theorem Operation.follows (op : Operation) {s : Schedule} (hv : s.Valid) :
    Follows s (op.events s) (op.perform s) := by
  cases op with
  | add a => exact follows_addAll hv [a.of s.document]
  | addPending node priority options =>
      exact follows_addAll hv
        [{ kind := ((s.document.node node).attr? "transform").getD "", priority := priority,
           target := node, options := options }]
  | populate components =>
      show Follows s ((components.flatten.map (·.of s.document)).map .adds) (s.populate components)
      rw [populate_eq_addAll]
      exact follows_addAll hv _
  | request a => exact follows_request hv rfl
  | newPending kind priority options => exact follows_request hv rfl
  | register kind p =>
      obtain ⟨htv, htw⟩ := hv.of_queue (t := s.register kind p) rfl rfl
      refine ⟨htv, ?_, (List.append_nil _).symm⟩
      have hb : (s.register kind p).backlog = s.backlog := by
        show Backlog.mk (s.register kind p).waiting s.document.requests = _
        rw [htw]
        rfl
      show Replay s.backlog [] (s.register kind p).backlog
      rw [hb]
      exact .nil _
  | run => exact run_follows hv

/-- The run: any number of operations follow their history. -/
theorem after_follows (ops : List Operation) {s : Schedule} (hv : s.Valid) :
    Follows s (s.history ops) (s.after ops) := by
  induction ops generalizing s with
  | nil => exact ⟨hv, .nil _, (List.append_nil _).symm⟩
  | cons op ops ih =>
      have hstep := op.follows hv
      exact hstep.append (ih hstep.valid)

/-- A new schedule has what its document was asked for. -/
theorem backlog_new (d : Document) : backlog { document := d } = ⟨[], d.requests⟩ := by
  show Backlog.mk (waiting { document := d }) d.requests = _
  have hp := pending_eq_length { document := d }
  rw [List.length_eq_zero_iff.mp hp.symm]

/-! ## The order in which requests are met -/

/-- A run that adds nothing takes the requests of the queue in order. -/
theorem run_inOrder {s : Schedule} (hv : s.Valid)
    (hadd : s.runEvents.filterMap Event.added? = [])
    (hask : s.runEvents.filterMap Event.asked? = []) :
    ∃ left, InOrder (s.waiting ++ s.document.requests)
        (s.runEvents.filterMap Event.taken? ++ left)
      ∧ InOrder (s.run.2.waiting ++ s.run.2.document.requests) left :=
  (run_follows hv).replay.inOrder hadd hask

/-- A run that ends well meets what it takes and leaves nothing. -/
theorem run_ok {s : Schedule} (hv : s.Valid) (hok : s.run.1 = .ok ()) :
    s.run.2.waiting = [] ∧ s.run.2.document.requests = []
      ∧ s.runEvents.filterMap Event.failed? = [] := by
  obtain ⟨hdv, hdb, -, -⟩ := drain_spec hv
  exact (run_loop hv).ok hdv (congrArg Backlog.requests hdb) hok

/-- **The next request first**: whatever is done with a schedule, each request
    met is, in the queue of that moment and with the document drained, the
    one of the greatest priority and, among equals, the last to enter; and a
    run that adds nothing meets the queue in order. -/
theorem meets_next_first (d : Document) (ops : List Operation) :
    let new : Schedule := { document := d }
    let s := new.after ops
    Replay ⟨[], d.requests⟩ (new.history ops) ⟨s.waiting, s.document.requests⟩
      ∧ s.applied = (new.history ops).filterMap Event.applied?
      ∧ (s.runEvents.filterMap Event.added? = [] → s.runEvents.filterMap Event.asked? = [] →
        ∃ left, InOrder (s.waiting ++ s.document.requests)
            (s.runEvents.filterMap Event.taken? ++ left)
          ∧ InOrder (s.run.2.waiting ++ s.run.2.document.requests) left
          ∧ (s.run.1 = .ok () → left = []
            ∧ s.run.2.applied = s.applied ++ s.runEvents.filterMap Event.taken?)) := by
  intro new s
  have hf : Follows new (new.history ops) s := after_follows ops (valid_new d)
  refine ⟨?_, hf.applied, ?_⟩
  · rw [← backlog_new d]
    exact hf.replay
  · intro hadd hask
    obtain ⟨left, hbefore, hafter⟩ := run_inOrder hf.valid hadd hask
    refine ⟨left, hbefore, hafter, ?_⟩
    intro hok
    obtain ⟨hwaiting, hrequests, hfailed⟩ := run_ok hf.valid hok
    rw [hwaiting, hrequests] at hafter
    rw [filterMap_taken? hfailed]
    exact ⟨hafter.eq_nil, (run_follows hf.valid).applied⟩

-- The last of two equals goes first, and what it adds goes before the rest.
example :
    let new : Schedule := { document := Document.new "" {} }
    let mark (priority : Int) (target : NodeId) : Ask :=
      { kind := "mark", priority := priority, target := some target }
    let s := new.after
      [.register "mark" { turns := [{ additions := [mark 9 7] }] }, .add (mark 1 3),
        .add (mark 2 4), .request (mark 2 5), .run]
    s.applied.map (·.target) = [5, 7, 4, 3] := by cbv

/-! ## What a run accounts for -/

/-- What a run owes for the requests it was given and those made on the way.
    If it ends well, each of them was met once and none is left.  If it stops,
    one was taken and failed, each of the others was met once or is left, and
    the document has what the pass that failed asked for. -/
def Accounts (s : Schedule) : Except Stop Unit → Schedule → Prop
  | .ok (), t =>
    t.pending = 0 ∧ t.document.requests = []
      ∧ ∃ met, t.applied = s.applied ++ met
        ∧ (s.waiting ++ s.document.requests ++ s.runEvents.filterMap Event.added?
            ++ s.runEvents.filterMap Event.asked?).Perm met
  | .error stop, t =>
    ∃ met r u reason, t.applied = s.applied ++ met
      ∧ (s.waiting ++ s.document.requests ++ s.runEvents.filterMap Event.added?
          ++ s.runEvents.filterMap Event.asked?).Perm
        (met ++ [r] ++ t.waiting ++ t.document.requests)
      ∧ s.runEvents.filterMap Event.failed? = [r]
      ∧ applyRequest r u = .error reason t ∧ stop = naming r.kind reason
      ∧ t.document.requests = (u.effects r).filterMap Event.asked?

/-- Every run accounts for its requests. -/
theorem run_accounts {s : Schedule} (hv : s.Valid) : s.Accounts s.run.1 s.run.2 := by
  have hf := run_follows hv
  have hperm := hf.replay.perm_asked
  cases hout : s.run.1 with
  | ok value =>
      obtain ⟨hwaiting, hrequests, hfailed⟩ := run_ok hv hout
      have hnone : s.run.2.backlog = ⟨[], []⟩ := by
        show Backlog.mk s.run.2.waiting s.run.2.document.requests = _
        rw [hwaiting, hrequests]
      rw [hfailed, hnone, List.append_nil, List.append_nil, List.append_nil] at hperm
      refine ⟨?_, hrequests, _, hf.applied, hperm⟩
      rw [pending_eq_length, hwaiting]
      rfl
  | error stop =>
      obtain ⟨hdv, hdb, -, -⟩ := drain_spec hv
      obtain ⟨u, r, reason, happly, hstop, hfailed, hasked⟩ :=
        (run_loop hv).error hdv (congrArg Backlog.requests hdb) hout
      have hone : s.runEvents.filterMap Event.failed? = [r] := hfailed
      rw [hone] at hperm
      exact ⟨_, r, u, reason, hf.applied, hperm, hone, happly, hstop, hasked⟩

/-- **Nothing is lost and nothing met twice**: whatever is done with a
    schedule, what ever entered the queue is what was met, what failed and
    what is in the queue; a run accounts for all it was given, and so does a
    later run for what the first one left. -/
theorem loses_nothing (d : Document) (ops : List Operation) :
    let new : Schedule := { document := d }
    let s := new.after ops
    (Event.entered d.requests (new.history ops)).Perm
        (s.applied ++ (new.history ops).filterMap Event.failed? ++ s.waiting)
      ∧ s.Accounts s.run.1 s.run.2
      ∧ s.run.2.Accounts s.run.2.run.1 s.run.2.run.2 := by
  intro new s
  have hf : Follows new (new.history ops) s := after_follows ops (valid_new d)
  have happlied : s.applied = (new.history ops).filterMap Event.applied? := hf.applied
  refine ⟨?_, run_accounts hf.valid, run_accounts (run_follows hf.valid).valid⟩
  have hreplay := hf.replay
  rw [backlog_new d] at hreplay
  rw [happlied]
  exact hreplay.perm_entered

end Schedule

end MarkupLint
