import MarkupLint.Proofs.Backlog
import MarkupLint.Proofs.Frame
import MarkupLint.Proofs.Heap

/-! # A schedule does what its backlog says

    The queue of a schedule is a heap of numbered requests.  Read in the order
    of their numbers, its requests are the queue of a backlog (`waiting`), and
    each operation on the heap is an event of that backlog:

    * adding puts a request at the end (`waiting_add`);
    * taking takes the next one (`take?_next`);
    * applying a pass adds and asks for what the pass says and changes neither
      the rest of the backlog nor the record (`applyRequest_spec`).

    A bound on what can still be asked for sinks with every request taken
    (`bound_take?`), so the loop is never cut short (`runWithin_loop`).  What
    the loop does then follows by induction on its rounds: it follows its
    events (`Loop.follows`), and it ends with nothing left (`Loop.ok`) or at
    one request that failed (`Loop.error`). -/

namespace MarkupLint

open Data

/-- The order of the queue is one that a heap can keep. -/
theorem Queued.ranking : Heap.Ranking Queued.before := by
  constructor
  · intro x y h
    unfold Queued.before at h ⊢
    split at h
    · rename_i heq
      rw [if_pos heq.symm, decide_eq_false_iff_not]
      rw [decide_eq_true_eq] at h
      omega
    · rename_i hne
      rw [if_neg (Ne.symm hne), decide_eq_false_iff_not]
      rw [decide_eq_true_eq] at h
      omega
  · intro x y z hxy hyz
    unfold Queued.before at hxy hyz ⊢
    split at hxy <;> split at hyz <;> split <;>
      (rw [decide_eq_false_iff_not] at hxy hyz ⊢; omega)

/-- One entry does not come before another: its priority is smaller, or it is
    level with the other and entered no later. -/
theorem Queued.not_before_iff (x y : Queued) :
    x.before y = false ↔ x.request.priority < y.request.priority
      ∨ x.request.priority = y.request.priority ∧ x.number ≤ y.number := by
  unfold Queued.before
  split
  · rw [decide_eq_false_iff_not]
    omega
  · rw [decide_eq_false_iff_not]
    omega

namespace Schedule

/-- The entries of the queue, in the order in which they entered it. -/
def byNumber (s : Schedule) : List Queued :=
  s.queue.items.toList.mergeSort fun a b => a.number ≤ b.number

/-- The requests in the queue, in the order in which they entered it. -/
def waiting (s : Schedule) : List Request := s.byNumber.map (·.request)

/-- What a schedule still has to do. -/
def backlog (s : Schedule) : Backlog := ⟨s.waiting, s.document.requests⟩

theorem backlog_of_drained {s : Schedule} (h : s.document.requests = []) :
    s.backlog = ⟨s.waiting, []⟩ := by
  show Backlog.mk s.waiting s.document.requests = _
  rw [h]

/-- The queue is a heap, and its entries have different numbers, all given
    out before. -/
structure Valid (s : Schedule) : Prop where
  ordered : Heap.Ordered Queued.before s.queue.items
  distinct : s.queue.items.toList.Pairwise fun a b => a.number ≠ b.number
  below : ∀ e ∈ s.queue.items.toList, e.number < s.entered

/-- A new schedule has an empty queue. -/
theorem valid_new (d : Document) : Valid { document := d } where
  ordered := fun _ _ hi => absurd hi (Nat.not_lt_zero _)
  distinct := List.Pairwise.nil
  below := fun _ he => nomatch he

/-! ## The queue as a list -/

theorem byNumber_perm (s : Schedule) : s.byNumber.Perm s.queue.items.toList :=
  List.mergeSort_perm _ _

theorem byNumber_sorted (s : Schedule) :
    s.byNumber.Pairwise fun a b => a.number ≤ b.number := by
  refine (List.pairwise_mergeSort ?_ ?_ s.queue.items.toList).imp ?_
  · intro a b c hab hbc
    rw [decide_eq_true_eq] at hab hbc ⊢
    exact Nat.le_trans hab hbc
  · intro a b
    rw [Bool.or_eq_true, decide_eq_true_eq, decide_eq_true_eq]
    exact Nat.le_total a.number b.number
  · intro a b hab
    exact of_decide_eq_true hab

/-- Different numbers rise from one entry to the next. -/
theorem byNumber_rising {s : Schedule}
    (hne : s.queue.items.toList.Pairwise fun a b => a.number ≠ b.number) :
    s.byNumber.Pairwise fun a b => a.number < b.number := by
  have hne' : s.byNumber.Pairwise fun a b => a.number ≠ b.number :=
    hne.perm s.byNumber_perm.symm fun h => h.symm
  exact (s.byNumber_sorted.and hne').imp fun h => Nat.lt_of_le_of_ne h.1 h.2

/-- A list of the entries with rising numbers is the list of them in the
    order of entry. -/
theorem byNumber_eq {s : Schedule} {l : List Queued}
    (hrising : l.Pairwise fun a b => a.number < b.number)
    (hperm : l.Perm s.queue.items.toList) : s.byNumber = l := by
  have hne : s.queue.items.toList.Pairwise fun a b => a.number ≠ b.number :=
    (hrising.imp Nat.ne_of_lt).perm hperm fun h => h.symm
  refine List.Perm.eq_of_pairwise ?_ (byNumber_rising hne) hrising
    (s.byNumber_perm.trans hperm.symm)
  intro a b _ _ hab hba
  exact absurd hba (Nat.lt_asymm hab)

/-- The queue is empty when nothing waits. -/
theorem pending_eq_length (s : Schedule) : s.pending = s.waiting.length := by
  unfold waiting
  rw [List.length_map, s.byNumber_perm.length_eq, Array.length_toList]
  rfl

/-! ## Adding -/

theorem Valid.add {s : Schedule} (hv : s.Valid) (r : Request) : (s.add r).Valid := by
  have hperm := Heap.push_perm Queued.before s.queue ⟨r, s.entered⟩
  refine ⟨Heap.ordered_push Queued.ranking _ _ hv.ordered, ?_, ?_⟩
  · refine List.Pairwise.perm ?_ hperm.symm fun h => h.symm
    rw [List.pairwise_append]
    refine ⟨hv.distinct, List.pairwise_singleton _ _, ?_⟩
    intro a ha b hb
    rw [List.mem_singleton.mp hb]
    exact Nat.ne_of_lt (hv.below a ha)
  · intro e he
    show e.number < s.entered + 1
    rcases List.mem_append.mp (hperm.mem_iff.mp he) with hold | hnew
    · exact Nat.lt_succ_of_lt (hv.below e hold)
    · rw [List.mem_singleton.mp hnew]
      exact Nat.lt_succ_self s.entered

/-- A request that is added enters last. -/
theorem waiting_add {s : Schedule} (hv : s.Valid) (r : Request) :
    (s.add r).waiting = s.waiting ++ [r] := by
  have hlist : (s.add r).byNumber = s.byNumber ++ [⟨r, s.entered⟩] := by
    refine byNumber_eq ?_ ?_
    · rw [List.pairwise_append]
      refine ⟨byNumber_rising hv.distinct, List.pairwise_singleton _ _, ?_⟩
      intro a ha b hb
      rw [List.mem_singleton.mp hb]
      exact hv.below a (s.byNumber_perm.mem_iff.mp ha)
    · exact (s.byNumber_perm.append_right _).trans (Heap.push_perm _ _ _).symm
  unfold waiting
  rw [hlist, List.map_append]
  rfl

theorem addAll_cons (s : Schedule) (r : Request) (rs : List Request) :
    s.addAll (r :: rs) = (s.add r).addAll rs := rfl

theorem Valid.addAll {s : Schedule} (hv : s.Valid) (rs : List Request) : (s.addAll rs).Valid := by
  induction rs generalizing s with
  | nil => exact hv
  | cons r rs ih => exact ih (hv.add r)

theorem waiting_addAll {s : Schedule} (hv : s.Valid) (rs : List Request) :
    (s.addAll rs).waiting = s.waiting ++ rs := by
  induction rs generalizing s with
  | nil => exact (List.append_nil _).symm
  | cons r rs ih =>
      rw [addAll_cons, ih (hv.add r), waiting_add hv, List.append_assoc]
      rfl

/-- Adding changes the queue and its count only. -/
theorem addAll_rest (s : Schedule) (rs : List Request) :
    (s.addAll rs).document = s.document ∧ (s.addAll rs).applied = s.applied
      ∧ (s.addAll rs).locals = s.locals := by
  induction rs generalizing s with
  | nil => exact ⟨rfl, rfl, rfl⟩
  | cons r rs ih => exact ih (s.add r)

/-- The queue alone decides whether a schedule is valid and what waits. -/
theorem Valid.of_queue {s t : Schedule} (hv : s.Valid) (hq : t.queue = s.queue)
    (he : t.entered = s.entered) : t.Valid ∧ t.waiting = s.waiting := by
  constructor
  · refine ⟨hq ▸ hv.ordered, hq ▸ hv.distinct, ?_⟩
    rw [hq, he]
    exact hv.below
  · unfold waiting byNumber
    rw [hq]

/-- Draining moves what the document was asked for to the end of the queue. -/
theorem drain_spec {s : Schedule} (hv : s.Valid) :
    s.drain.Valid ∧ s.drain.backlog = ⟨s.waiting ++ s.document.requests, []⟩
      ∧ s.drain.applied = s.applied ∧ s.drain.locals = s.locals := by
  let t : Schedule := { s with document := { s.document with requests := [] } }
  have hdrain : s.drain = t.addAll s.document.requests := rfl
  obtain ⟨htv, htw⟩ := hv.of_queue (t := t) rfl rfl
  obtain ⟨hdoc, happ, hloc⟩ := addAll_rest t s.document.requests
  refine ⟨hdrain ▸ htv.addAll _, ?_, hdrain ▸ happ, hdrain ▸ hloc⟩
  unfold backlog
  rw [hdrain, waiting_addAll htv, htw, hdoc]

/-- Draining moves requests within the bound. -/
theorem bound_drain {s : Schedule} (hv : s.Valid) : s.drain.bound = s.bound := by
  obtain ⟨-, hdb, -, hdl⟩ := drain_spec hv
  have hw := congrArg (fun b => b.queue.length) hdb
  have hq := congrArg (fun b => b.requests.length) hdb
  unfold Schedule.bound
  rw [pending_eq_length, pending_eq_length, hdl]
  simp only [backlog, List.length_append, List.length_nil] at hw hq
  omega

/-! ## Taking -/

/-- Nothing is taken from an empty queue only. -/
theorem take?_eq_none_iff (s : Schedule) : s.take? = none ↔ s.pending = 0 := by
  rw [pending, ← Heap.pop?_eq_none_iff Queued.before]
  unfold take?
  cases s.queue.pop? Queued.before with
  | none => exact ⟨fun _ => rfl, fun _ => rfl⟩
  | some p => exact ⟨fun h => (nomatch h), fun h => (nomatch h)⟩

/-- What is taken is the next request, and nothing but the queue changes. -/
theorem take?_next {s t : Schedule} {r : Request} (hv : s.Valid) (h : s.take? = some (r, t)) :
    t.Valid ∧ Next s.waiting r t.waiting ∧ t.document = s.document ∧ t.applied = s.applied
      ∧ t.locals = s.locals := by
  unfold take? at h
  cases hpop : s.queue.pop? Queued.before with
  | none =>
      rw [hpop] at h
      exact nomatch h
  | some p =>
      obtain ⟨e, rest⟩ := p
      rw [hpop] at h
      have hp := Option.some.inj h
      have hr : e.request = r := congrArg Prod.fst hp
      have ht : { s with queue := rest } = t := congrArg Prod.snd hp
      subst hr
      subst ht
      obtain ⟨hord, hperm, hfirst⟩ := Heap.pop?_spec Queued.ranking hv.ordered hpop
      -- the entry taken stands somewhere among the entries by number
      have hmem : e ∈ s.byNumber :=
        (s.byNumber_perm.trans hperm).mem_iff.mpr List.mem_cons_self
      obtain ⟨earlier, later, hsplit⟩ := List.append_of_mem hmem
      have hrising := byNumber_rising hv.distinct
      rw [hsplit, List.pairwise_append, List.pairwise_cons] at hrising
      obtain ⟨hearlier, ⟨hafter, hlater⟩, hacross⟩ := hrising
      have hrest : (earlier ++ later).Perm rest.items.toList := by
        have hmid : (e :: (earlier ++ later)).Perm (e :: rest.items.toList) := by
          refine List.perm_middle.symm.trans ?_
          rw [← hsplit]
          exact s.byNumber_perm.trans hperm
        exact hmid.cons_inv
      have hbyNumber : byNumber { s with queue := rest } = earlier ++ later := by
        refine byNumber_eq ?_ hrest
        rw [List.pairwise_append]
        exact ⟨hearlier, hlater, fun a ha b hb => hacross a ha b (List.mem_cons_of_mem e hb)⟩
      have hnot : ∀ x ∈ s.byNumber, x.before e = false :=
        fun x hx => hfirst x (s.byNumber_perm.mem_iff.mp hx)
      refine ⟨⟨hord, ?_, ?_⟩, ?_, rfl, rfl, rfl⟩
      · have hd := hv.distinct.perm hperm fun h => h.symm
        exact (List.pairwise_cons.mp hd).2
      · intro x hx
        exact hv.below x (hperm.mem_iff.mpr (List.mem_cons_of_mem e hx))
      · refine ⟨earlier.map (·.request), later.map (·.request), ?_, ?_, ?_, ?_⟩
        · unfold waiting
          rw [hsplit, List.map_append]
          rfl
        · unfold waiting
          rw [hbyNumber, List.map_append]
        · intro q hq
          obtain ⟨x, hx, rfl⟩ := List.mem_map.mp hq
          have hb := hnot x (hsplit ▸ List.mem_append_left _ hx)
          rcases (Queued.not_before_iff x e).mp hb with hlt | heq
          · exact Int.le_of_lt hlt
          · exact Int.le_of_eq heq.1
        · -- a later entry that were level would be met first
          intro q hq
          obtain ⟨x, hx, rfl⟩ := List.mem_map.mp hq
          have hb := hnot x (hsplit ▸ List.mem_append_right _ (List.mem_cons_of_mem e hx))
          have hnum := hafter x hx
          rcases (Queued.not_before_iff x e).mp hb with hlt | heq
          · exact hlt
          · exact absurd heq.2 (Nat.not_le_of_lt hnum)

/-! ## Applying -/

/-- What applying the pass of a request does to the backlog. -/
def effects (s : Schedule) (r : Request) : List Event :=
  match s.locals.get? r.kind with
  | none => []
  | some p =>
    (p.next.1.requests.map (·.of s.document)).map .asks
      ++ (p.next.1.additions.map (·.of s.document)).map .adds

theorem requests_foldl (d : Document) (rs : List Request) :
    (rs.foldl Document.request d).requests = d.requests ++ rs := by
  induction rs generalizing d with
  | nil => exact (List.append_nil _).symm
  | cons r rs ih =>
      rw [List.foldl_cons, ih]
      exact List.append_assoc _ _ _

/-- A turn of a local pass asks for its requests and adds its additions. -/
theorem perform_spec {s : Schedule} (hv : s.Valid) (r : Request) (turn : Turn) (rest : LocalPass) :
    (s.perform r turn rest).Valid
      ∧ (s.perform r turn rest).backlog
        = ⟨s.waiting ++ turn.additions.map (·.of s.document),
            s.document.requests ++ turn.requests.map (·.of s.document)⟩
      ∧ (s.perform r turn rest).applied = s.applied
      ∧ (s.perform r turn rest).locals = s.locals.set r.kind rest := by
  let d : Document := { s.document with forest := turn.edit s.document.forest }
  let t : Schedule :=
    { s with
      document := (turn.requests.map (·.of s.document)).foldl Document.request d
      locals := s.locals.set r.kind rest
      log := s.log ++ [⟨r.kind, (s.document.node r.target).kind, r.options⟩] }
  have hperform : s.perform r turn rest = t.addAll (turn.additions.map (·.of s.document)) := rfl
  obtain ⟨htv, htw⟩ := hv.of_queue (t := t) rfl rfl
  obtain ⟨hdoc, happ, hloc⟩ := addAll_rest t (turn.additions.map (·.of s.document))
  refine ⟨hperform ▸ htv.addAll _, ?_, hperform ▸ happ, hperform ▸ hloc⟩
  unfold backlog
  rw [hperform, waiting_addAll htv, htw, hdoc, requests_foldl]

theorem stateAfter_onDocument {α : Type} (x : Build α) (s : Schedule) :
    stateAfter (onDocument x) s = { s with document := stateAfter x s.document } := by
  unfold stateAfter onDocument
  cases x s.document with
  | ok a d => rfl
  | error e d => rfl

/-- A step on the document that leaves its requests alone leaves the backlog
    alone. -/
theorem onDocument_spec {α : Type} {x : Build α} (hx : Keeps Document.frame x) {s : Schedule}
    (hv : s.Valid) :
    (stateAfter (onDocument x) s).Valid ∧ (stateAfter (onDocument x) s).backlog = s.backlog
      ∧ (stateAfter (onDocument x) s).applied = s.applied
      ∧ (stateAfter (onDocument x) s).locals = s.locals := by
  have hreq : (stateAfter x s.document).requests = s.document.requests :=
    hx.of_part Document.requests s.document
  rw [stateAfter_onDocument]
  obtain ⟨htv, htw⟩ :=
    hv.of_queue (t := { s with document := stateAfter x s.document }) rfl rfl
  refine ⟨htv, ?_, rfl, rfl⟩
  unfold backlog
  rw [htw, hreq]

theorem keeps_conclude (turn : Turn) : Keeps Document.frame turn.conclude := by
  unfold Turn.conclude
  dsimp only
  split
  · refine .bind (Build.keeps_raise _ _ _) fun _ => ?_
    split
    · exact .throw _
    · exact .pure _
  · split
    · exact .throw _
    · exact .pure _

/-- What a local pass can still ask for is what its next turn asks for and
    what it can ask for after that. -/
theorem asks_next (p : LocalPass) :
    p.asks = p.next.2.asks + p.next.1.requests.length + p.next.1.additions.length := by
  unfold LocalPass.next
  split
  · rfl
  · rename_i turn rest h
    unfold LocalPass.asks
    rw [h, List.foldr_cons]
    dsimp only
    omega

/-- Exchanging a local pass exchanges what it can ask for. -/
theorem sum_asks_set {t : Table LocalPass} {kind : String} {p : LocalPass}
    (h : t.get? kind = some p) (q : LocalPass) :
    (t.set kind q).foldr (fun e n => e.2.asks + n) 0 + p.asks
      = t.foldr (fun e n => e.2.asks + n) 0 + q.asks := by
  induction t with
  | nil => exact nomatch h
  | cons e rest ih =>
      obtain ⟨k, v⟩ := e
      unfold Table.get? at h
      unfold Table.set
      by_cases hk : k = kind
      · rw [if_pos hk] at h
        rw [if_pos hk, List.foldr_cons, List.foldr_cons, Option.some.inj h]
        dsimp only
        omega
      · rw [if_neg hk] at h
        have := ih h
        rw [if_neg hk, List.foldr_cons, List.foldr_cons]
        omega

/-- What an application leaves behind, however it ends. -/
structure Applies (s : Schedule) (r : Request) (t : Schedule) : Prop where
  valid : t.Valid
  replay : Replay s.backlog (s.effects r) t.backlog
  applied : t.applied = s.applied
  bound : t.bound = s.bound

/-- A step that leaves the backlog alone is an application without effects. -/
theorem Applies.of_backlog_eq {s t : Schedule} {r : Request} (hnone : s.effects r = [])
    (hv : t.Valid) (hb : t.backlog = s.backlog) (ha : t.applied = s.applied)
    (hl : t.locals = s.locals) : Applies s r t := by
  have hw : t.waiting = s.waiting := congrArg Backlog.queue hb
  have hq : t.document.requests = s.document.requests := congrArg Backlog.requests hb
  refine ⟨hv, ?_, ha, ?_⟩
  · rw [hnone, hb]
    exact .nil _
  · unfold Schedule.bound
    rw [pending_eq_length, pending_eq_length, hw, hq, hl]

/-- Applying the pass of a request does to the backlog what its effects say,
    records nothing and uses up as much of the bound as it asks for. -/
theorem applyRequest_spec {s : Schedule} (hv : s.Valid) (r : Request) :
    Applies s r (stateAfter (applyRequest r) s) := by
  show Applies s r (stateAfter (s.passFor r) s)
  unfold passFor
  cases hl : s.locals.get? r.kind with
  | none =>
      have hnone : s.effects r = [] := by
        unfold effects
        rw [hl]
      dsimp only
      split
      · -- a standard pass asks for nothing
        rename_i pass _
        obtain ⟨h1, h2, h3, h4⟩ :=
          onDocument_spec (pass.keeps_frame_apply r.target r.options) hv
        exact .of_backlog_eq hnone h1 h2 h3 h4
      · exact .of_backlog_eq hnone hv rfl rfl rfl
  | some p =>
      show Applies s r
        (stateAfter (onDocument p.next.1.conclude) (s.perform r p.next.1 p.next.2))
      obtain ⟨hpv, hpb, hpa, hpl⟩ := perform_spec hv r p.next.1 p.next.2
      obtain ⟨h1, h2, h3, h4⟩ := onDocument_spec (keeps_conclude p.next.1) hpv
      rw [hpb] at h2
      refine ⟨h1, ?_, h3.trans hpa, ?_⟩
      · unfold effects
        rw [hl, h2]
        exact (replay_asks s.backlog _).append (replay_adds ⟨s.waiting, _⟩ _)
      · -- what the turn asks for moves from the pass to the backlog
        have hw := congrArg (fun b => b.queue.length) h2
        have hq := congrArg (fun b => b.requests.length) h2
        have hsum := sum_asks_set hl p.next.2
        have hasks := asks_next p
        unfold Schedule.bound
        rw [pending_eq_length, pending_eq_length, h4, hpl]
        simp only [backlog, List.length_append, List.length_map] at hw hq
        omega

/-! ## The loop -/

/-- What the loop does to the backlog. -/
def loopEvents : Nat → Schedule → List Event
  | 0, _ => []
  | count + 1, s =>
    match s.take? with
    | none => []
    | some (r, s) =>
      match applyRequest r s with
      | .error _ _ => .fails r :: s.effects r
      | .ok () t => .applies r :: (s.effects r ++ .drains :: loopEvents count (t.record r).drain)

/-- What a run does to the backlog. -/
def runEvents (s : Schedule) : List Event := .drains :: loopEvents s.bound s.drain

/-- How the loop goes, whatever the bound: nothing is left, or a request is
    taken and fails, or it is taken and met and the loop goes on. -/
inductive Loop : Schedule → List Event → Except Stop Unit → Schedule → Prop where
  | done {s : Schedule} : s.pending = 0 → Loop s [] (.ok ()) s
  | fails {s u t : Schedule} {r : Request} {stop : Stop} :
      s.take? = some (r, u) → applyRequest r u = .error stop t →
      Loop s (.fails r :: u.effects r) (.error (naming r.kind stop)) t
  | applies {s u t v : Schedule} {r : Request} {es : List Event} {out : Except Stop Unit} :
      s.take? = some (r, u) → applyRequest r u = .ok () t → Loop (t.record r).drain es out v →
      Loop s (.applies r :: (u.effects r ++ .drains :: es)) out v

/-- Taking a request uses up one of the bound. -/
theorem bound_take? {s u : Schedule} {r : Request} (hv : s.Valid) (h : s.take? = some (r, u)) :
    s.bound = u.bound + 1 := by
  obtain ⟨-, hnext, hdoc, -, hloc⟩ := take?_next hv h
  have hlen := hnext.perm.length_eq
  rw [List.length_cons] at hlen
  unfold Schedule.bound
  rw [pending_eq_length, pending_eq_length, hlen, hdoc, hloc]
  omega

/-- Recording and draining lead to the next round of the loop. -/
theorem next_round {t : Schedule} (hv : t.Valid) (r : Request) :
    (t.record r).drain.Valid
      ∧ (t.record r).drain.backlog = ⟨t.waiting ++ t.document.requests, []⟩
      ∧ (t.record r).drain.applied = t.applied ++ [r] ∧ (t.record r).drain.bound = t.bound := by
  obtain ⟨hrv, hrw⟩ := hv.of_queue (t := t.record r) rfl rfl
  obtain ⟨hdv, hdb, hda, -⟩ := drain_spec hrv
  rw [hrw] at hdb
  exact ⟨hdv, hdb, hda, bound_drain hrv⟩

/-- A bound that is large enough never cuts the loop short. -/
theorem runWithin_loop (count : Nat) {s : Schedule} (hv : s.Valid) (hb : s.bound ≤ count) :
    Loop s (loopEvents count s) (runWithin count s).1 (runWithin count s).2 := by
  induction count generalizing s with
  | zero =>
      -- nothing is allowed, so nothing is left
      have hp : s.pending = 0 := by
        unfold Schedule.bound at hb
        omega
      unfold runWithin loopEvents
      rw [if_pos hp]
      exact .done hp
  | succ count ih =>
      unfold runWithin loopEvents
      cases htake : s.take? with
      | none => exact .done ((take?_eq_none_iff s).mp htake)
      | some p =>
          obtain ⟨r, u⟩ := p
          have hub := bound_take? hv htake
          have hstep := applyRequest_spec (take?_next hv htake).1 r
          dsimp only
          cases happly : applyRequest r u with
          | error stop t => exact .fails htake happly
          | ok _ t =>
              rw [stateAfter_of_ok happly] at hstep
              obtain ⟨hrv, -, -, hrb⟩ := next_round hstep.valid r
              have hround : (t.record r).drain.bound ≤ count := by
                rw [hrb, hstep.bound]
                omega
              exact .applies htake happly (ih hrv hround)

/-- The effects of a pass only add and ask. -/
theorem mem_effects {s : Schedule} {r : Request} {e : Event} (he : e ∈ s.effects r) :
    (∃ q, e = .asks q) ∨ ∃ q, e = .adds q := by
  unfold effects at he
  split at he
  · exact nomatch he
  · rcases List.mem_append.mp he with ha | ha
    · obtain ⟨q, -, rfl⟩ := List.mem_map.mp ha
      exact .inl ⟨q, rfl⟩
    · obtain ⟨q, -, rfl⟩ := List.mem_map.mp ha
      exact .inr ⟨q, rfl⟩

/-- No request is taken by the effects of a pass. -/
theorem effects_takes_none (s : Schedule) (r : Request) :
    (s.effects r).filterMap Event.applied? = [] ∧ (s.effects r).filterMap Event.failed? = [] := by
  constructor
  · rw [List.filterMap_eq_nil_iff]
    intro e he
    rcases mem_effects he with ⟨q, rfl⟩ | ⟨q, rfl⟩
    · rfl
    · rfl
  · rw [List.filterMap_eq_nil_iff]
    intro e he
    rcases mem_effects he with ⟨q, rfl⟩ | ⟨q, rfl⟩
    · rfl
    · rfl

/-- What a round applies and fails, apart from the rounds after it. -/
theorem round_events (u : Schedule) (r : Request) (es : List Event) :
    (Event.applies r :: (u.effects r ++ .drains :: es)).filterMap Event.applied?
        = r :: es.filterMap Event.applied?
      ∧ (Event.applies r :: (u.effects r ++ .drains :: es)).filterMap Event.failed?
        = es.filterMap Event.failed? := by
  obtain ⟨happlied, hfailed⟩ := effects_takes_none u r
  constructor
  · show r :: (u.effects r ++ .drains :: es).filterMap Event.applied? = _
    rw [List.filterMap_append, happlied]
    rfl
  · show (u.effects r ++ .drains :: es).filterMap Event.failed? = _
    rw [List.filterMap_append, hfailed]
    rfl

/-- After a request was met, the next round starts with a drained document. -/
theorem round_drained {s u t : Schedule} {r : Request} (hv : s.Valid)
    (htake : s.take? = some (r, u)) (happly : applyRequest r u = .ok () t) :
    (t.record r).drain.Valid ∧ (t.record r).drain.document.requests = [] := by
  have hstep := applyRequest_spec (take?_next hv htake).1 r
  rw [stateAfter_of_ok happly] at hstep
  obtain ⟨hrv, hrb, -, -⟩ := next_round hstep.valid r
  exact ⟨hrv, congrArg Backlog.requests hrb⟩

/-- The events lead from one schedule to another: they are a replay of what
    there is to do, and what they apply is what is recorded. -/
structure Follows (s : Schedule) (es : List Event) (t : Schedule) : Prop where
  valid : t.Valid
  replay : Replay s.backlog es t.backlog
  applied : t.applied = s.applied ++ es.filterMap Event.applied?

/-- **The loop follows its events.** -/
theorem Loop.follows {s t : Schedule} {es : List Event} {out : Except Stop Unit}
    (h : Loop s es out t) (hv : s.Valid) (hreq : s.document.requests = []) : Follows s es t := by
  induction h with
  | done _ => exact ⟨hv, .nil _, (List.append_nil _).symm⟩
  | @fails s u t r stop htake happly =>
      obtain ⟨huv, hnext, hdoc, happ, -⟩ := take?_next hv htake
      have hstep := applyRequest_spec huv r
      rw [stateAfter_of_error happly] at hstep
      refine ⟨hstep.valid, ?_, ?_⟩
      · have hreplay := hstep.replay
        rw [backlog_of_drained (hdoc ▸ hreq)] at hreplay
        rw [backlog_of_drained hreq]
        exact .fails hnext hreplay
      · show t.applied = s.applied ++ (u.effects r).filterMap Event.applied?
        rw [(effects_takes_none u r).1, List.append_nil, hstep.applied, happ]
  | @applies s u t v r es out htake happly _ ih =>
      obtain ⟨huv, hnext, hdoc, happ, -⟩ := take?_next hv htake
      have hstep := applyRequest_spec huv r
      rw [stateAfter_of_ok happly] at hstep
      obtain ⟨hrv, hrb, hra, -⟩ := next_round hstep.valid r
      obtain ⟨hvv, hround, hvapp⟩ := ih hrv (congrArg Backlog.requests hrb)
      refine ⟨hvv, ?_, ?_⟩
      · -- the request, then what its pass asks for, then the draining, then the rest
        have hreplay := hstep.replay
        rw [backlog_of_drained (hdoc ▸ hreq)] at hreplay
        rw [hrb] at hround
        rw [backlog_of_drained hreq]
        exact .applies hnext (hreplay.append (.drains hround))
      · rw [hvapp, hra, hstep.applied, happ, (round_events u r es).1, List.append_assoc]
        rfl

/-- A loop that ends well leaves nothing undone. -/
theorem Loop.ok {s t : Schedule} {es : List Event} {out : Except Stop Unit}
    (h : Loop s es out t) (hv : s.Valid) (hreq : s.document.requests = []) (hout : out = .ok ()) :
    t.waiting = [] ∧ t.document.requests = [] ∧ es.filterMap Event.failed? = [] := by
  induction h with
  | @done s hp =>
      rw [pending_eq_length, List.length_eq_zero_iff] at hp
      exact ⟨hp, hreq, rfl⟩
  | fails _ _ => exact nomatch hout
  | @applies s u t v r es out htake happly _ ih =>
      obtain ⟨hrv, hrq⟩ := round_drained hv htake happly
      obtain ⟨hw, hq, hf⟩ := ih hrv hrq hout
      refine ⟨hw, hq, ?_⟩
      rw [(round_events u r es).2]
      exact hf

/-- A loop that stops does so at one request, and the document has what the
    pass of that request asked for. -/
theorem Loop.error {s t : Schedule} {es : List Event} {out : Except Stop Unit} {stop : Stop}
    (h : Loop s es out t) (hv : s.Valid) (hreq : s.document.requests = [])
    (hout : out = .error stop) :
    ∃ u r reason, applyRequest r u = .error reason t ∧ stop = naming r.kind reason
      ∧ es.filterMap Event.failed? = [r]
      ∧ t.document.requests = (u.effects r).filterMap Event.asked? := by
  induction h with
  | done _ => exact nomatch hout
  | @fails s u t r reason htake happly =>
      obtain ⟨huv, -, hdoc, -, -⟩ := take?_next hv htake
      have hstep := applyRequest_spec huv r
      rw [stateAfter_of_error happly] at hstep
      have hnone : .drains ∉ u.effects r := by
        intro hm
        rcases mem_effects hm with ⟨q, hq⟩ | ⟨q, hq⟩
        · exact nomatch hq
        · exact nomatch hq
      -- nothing drains the document between the failure and the end
      have hleft : t.document.requests
          = u.document.requests ++ (u.effects r).filterMap Event.asked? :=
        hstep.replay.requests hnone
      rw [hdoc, hreq, List.nil_append] at hleft
      refine ⟨u, r, reason, happly, (Except.error.inj hout).symm, ?_, hleft⟩
      show r :: (u.effects r).filterMap Event.failed? = [r]
      rw [(effects_takes_none u r).2]
  | @applies s u t v r es out htake happly _ ih =>
      obtain ⟨hrv, hrq⟩ := round_drained hv htake happly
      obtain ⟨u', r', reason, happly', hstop, hf, hq⟩ := ih hrv hrq hout
      refine ⟨u', r', reason, happly', hstop, ?_, hq⟩
      rw [(round_events u r es).2]
      exact hf

/-- A run is a loop on the drained schedule. -/
theorem run_loop {s : Schedule} (hv : s.Valid) :
    Loop s.drain (loopEvents s.bound s.drain) s.run.1 s.run.2 :=
  runWithin_loop s.bound (drain_spec hv).1 (Nat.le_of_eq (bound_drain hv))

/-- A run follows its events. -/
theorem run_follows {s : Schedule} (hv : s.Valid) : Follows s s.runEvents s.run.2 := by
  obtain ⟨hdv, hdb, hda, -⟩ := drain_spec hv
  obtain ⟨htv, hreplay, happ⟩ := (run_loop hv).follows hdv (congrArg Backlog.requests hdb)
  rw [hdb] at hreplay
  rw [hda] at happ
  exact ⟨htv, .drains hreplay, happ⟩

end Schedule

end MarkupLint
