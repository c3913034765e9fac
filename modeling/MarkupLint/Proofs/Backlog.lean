import MarkupLint.Document.Basic

/-! # Backlogs

    What a schedule is to do, without the means: the requests in its queue
    as a plain list in the order in which they entered, and what may happen
    to them.  `Replay b es c` says that the events `es` lead from one backlog
    to another and that every request taken on the way was the next one, when
    the document had been drained: of the greatest priority and, among
    equals, the last to enter.

    * `Replay.perm_entered`: what entered is what was taken and what is left;
    * `Replay.inOrder`: while nothing is added, requests are taken in order
      of descending priority, equal ones in reverse order of entry. -/

namespace MarkupLint

/-- What waits to be met: the requests in the queue, in the order in which
    they entered it, and those that the document was asked for since. -/
structure Backlog where
  queue : List Request
  requests : List Request

/-- `r` is the next request of a queue and `rest` are the others: nothing that
    entered before `r` has a greater priority, and everything that entered
    after it has a smaller one. -/
def Next (queue : List Request) (r : Request) (rest : List Request) : Prop :=
  ∃ earlier later, queue = earlier ++ r :: later ∧ rest = earlier ++ later
    ∧ (∀ q ∈ earlier, q.priority ≤ r.priority) ∧ ∀ q ∈ later, q.priority < r.priority

/-- What happens to a backlog. -/
inductive Event where
  /-- A request is added to the queue. -/
  | adds (r : Request)
  /-- The document is asked for a pass. -/
  | asks (r : Request)
  /-- What the document was asked for enters the queue. -/
  | drains
  /-- A request is taken from the queue and its pass is applied. -/
  | applies (r : Request)
  /-- A request is taken from the queue and its pass fails. -/
  | fails (r : Request)

/-- The events lead from one backlog to another.  A request is taken only when
    the document has no more of them, and is the next one at that moment. -/
inductive Replay : Backlog → List Event → Backlog → Prop where
  | nil (b : Backlog) : Replay b [] b
  | adds {b c : Backlog} {r : Request} {es : List Event} :
      Replay ⟨b.queue ++ [r], b.requests⟩ es c → Replay b (.adds r :: es) c
  | asks {b c : Backlog} {r : Request} {es : List Event} :
      Replay ⟨b.queue, b.requests ++ [r]⟩ es c → Replay b (.asks r :: es) c
  | drains {b c : Backlog} {es : List Event} :
      Replay ⟨b.queue ++ b.requests, []⟩ es c → Replay b (.drains :: es) c
  | applies {c : Backlog} {r : Request} {queue rest : List Request} {es : List Event} :
      Next queue r rest → Replay ⟨rest, []⟩ es c → Replay ⟨queue, []⟩ (.applies r :: es) c
  | fails {c : Backlog} {r : Request} {queue rest : List Request} {es : List Event} :
      Next queue r rest → Replay ⟨rest, []⟩ es c → Replay ⟨queue, []⟩ (.fails r :: es) c

/-- Events one after the other. -/
theorem Replay.append {b c e : Backlog} {es fs : List Event} (h : Replay b es c)
    (h' : Replay c fs e) : Replay b (es ++ fs) e := by
  induction h with
  | nil b => exact h'
  | adds _ ih => exact .adds (ih h')
  | asks _ ih => exact .asks (ih h')
  | drains _ ih => exact .drains (ih h')
  | applies hn _ ih => exact .applies hn (ih h')
  | fails hn _ ih => exact .fails hn (ih h')

/-- Adding requests puts them at the end of the queue. -/
theorem replay_adds (b : Backlog) (rs : List Request) :
    Replay b (rs.map .adds) ⟨b.queue ++ rs, b.requests⟩ := by
  induction rs generalizing b with
  | nil =>
      rw [List.append_nil]
      exact .nil b
  | cons r rs ih =>
      have h := ih ⟨b.queue ++ [r], b.requests⟩
      rw [List.append_assoc] at h
      exact .adds h

/-- Asking puts the requests at the end of those the document has. -/
theorem replay_asks (b : Backlog) (rs : List Request) :
    Replay b (rs.map .asks) ⟨b.queue, b.requests ++ rs⟩ := by
  induction rs generalizing b with
  | nil =>
      rw [List.append_nil]
      exact .nil b
  | cons r rs ih =>
      have h := ih ⟨b.queue, b.requests ++ [r]⟩
      rw [List.append_assoc] at h
      exact .asks h

/-! ## What is counted -/

namespace Event

/-- The request that is added to the queue. -/
def added? : Event → Option Request
  | .adds r => some r
  | _ => none

/-- The request that the document is asked for. -/
def asked? : Event → Option Request
  | .asks r => some r
  | _ => none

/-- The request whose pass is applied. -/
def applied? : Event → Option Request
  | .applies r => some r
  | _ => none

/-- The request whose pass fails. -/
def failed? : Event → Option Request
  | .fails r => some r
  | _ => none

/-- The request that is taken from the queue. -/
def taken? : Event → Option Request
  | .applies r => some r
  | .fails r => some r
  | _ => none

/-- The requests that enter the queue, in order, if the document has some
    already. -/
def entered (requests : List Request) : List Event → List Request
  | [] => []
  | .adds r :: es => r :: entered requests es
  | .asks r :: es => entered (requests ++ [r]) es
  | .drains :: es => requests ++ entered [] es
  | .applies _ :: es => entered requests es
  | .fails _ :: es => entered requests es

end Event

open Event

/-- Taking the next request takes one request away. -/
theorem Next.perm {queue rest : List Request} {r : Request} (h : Next queue r rest) :
    queue.Perm (r :: rest) := by
  obtain ⟨earlier, later, rfl, rfl, -, -⟩ := h
  exact List.perm_middle

open Classical in
/-- The books of a replay, request by request: what passes through the queue,
    and what passes through the document on its way to the queue. -/
theorem Replay.count {b c : Backlog} {es : List Event} (h : Replay b es c) (x : Request) :
    b.queue.count x + (entered b.requests es).count x
        = (es.filterMap applied?).count x + (es.filterMap failed?).count x + c.queue.count x
      ∧ b.requests.count x + (es.filterMap added?).count x + (es.filterMap asked?).count x
        = (entered b.requests es).count x + c.requests.count x := by
  induction h with
  | nil b => exact ⟨by simp [entered], by simp [entered]⟩
  | adds _ ih =>
      simp only [entered, added?, asked?, applied?, failed?, List.filterMap_cons,
        List.count_append, List.count_cons, List.count_nil] at ih ⊢
      omega
  | asks _ ih =>
      simp only [entered, added?, asked?, applied?, failed?, List.filterMap_cons,
        List.count_append, List.count_cons, List.count_nil] at ih ⊢
      omega
  | drains _ ih =>
      simp only [entered, added?, asked?, applied?, failed?, List.filterMap_cons,
        List.count_append, List.count_nil] at ih ⊢
      omega
  | applies hn _ ih =>
      have hc := List.perm_iff_count.mp hn.perm x
      simp only [entered, added?, asked?, applied?, failed?, List.filterMap_cons,
        List.count_cons] at ih hc ⊢
      omega
  | fails hn _ ih =>
      have hc := List.perm_iff_count.mp hn.perm x
      simp only [entered, added?, asked?, applied?, failed?, List.filterMap_cons,
        List.count_cons] at ih hc ⊢
      omega

open Classical in
/-- What was in the queue and what entered it is what was applied, what failed
    and what is in the queue still. -/
theorem Replay.perm_entered {b c : Backlog} {es : List Event} (h : Replay b es c) :
    (b.queue ++ entered b.requests es).Perm
      (es.filterMap applied? ++ es.filterMap failed? ++ c.queue) := by
  rw [List.perm_iff_count]
  intro x
  have hx := (h.count x).1
  simp only [List.count_append]
  omega

open Classical in
/-- What was there and what was added or asked for is what was applied, what
    failed and what is there still. -/
theorem Replay.perm_asked {b c : Backlog} {es : List Event} (h : Replay b es c) :
    (b.queue ++ b.requests ++ es.filterMap added? ++ es.filterMap asked?).Perm
      (es.filterMap applied? ++ es.filterMap failed? ++ c.queue ++ c.requests) := by
  rw [List.perm_iff_count]
  intro x
  have hx := h.count x
  simp only [List.count_append]
  omega

/-- What the document is asked for stays with it until it is drained. -/
theorem Replay.requests {b c : Backlog} {es : List Event} (h : Replay b es c)
    (hd : .drains ∉ es) : c.requests = b.requests ++ es.filterMap asked? := by
  induction h with
  | nil b => exact (List.append_nil _).symm
  | adds _ ih => exact ih fun hm => hd (List.mem_cons_of_mem _ hm)
  | asks _ ih =>
      rw [ih fun hm => hd (List.mem_cons_of_mem _ hm), List.append_assoc]
      rfl
  | drains _ _ => exact absurd List.mem_cons_self hd
  | applies _ _ ih => exact ih fun hm => hd (List.mem_cons_of_mem _ hm)
  | fails _ _ ih => exact ih fun hm => hd (List.mem_cons_of_mem _ hm)

/-- What is taken is what is applied if nothing fails. -/
theorem filterMap_taken? {es : List Event} (h : es.filterMap failed? = []) :
    es.filterMap taken? = es.filterMap applied? := by
  induction es with
  | nil => rfl
  | cons e es ih =>
      cases e with
      | fails r => exact nomatch h
      | applies r => exact congrArg (r :: ·) (ih h)
      | adds r => exact ih h
      | asks r => exact ih h
      | drains => exact ih h

/-! ## The order of a whole queue -/

/-- The requests of a queue by descending priority, equal ones in reverse order
    of entry. -/
structure InOrder (queue sorted : List Request) : Prop where
  descending : sorted.Pairwise fun a b => b.priority ≤ a.priority
  reversed : ∀ p : Int, sorted.filter (fun r => r.priority = p)
    = (queue.filter fun r => r.priority = p).reverse

/-- A queue in order has the same requests. -/
theorem InOrder.mem {queue sorted : List Request} (h : InOrder queue sorted) {r : Request}
    (hr : r ∈ sorted) : r ∈ queue := by
  have hf : r ∈ sorted.filter (fun q => q.priority = r.priority) := by
    rw [List.mem_filter]
    exact ⟨hr, decide_eq_true rfl⟩
  rw [h.reversed, List.mem_reverse, List.mem_filter] at hf
  exact hf.1

/-- The next request goes before the others in order. -/
theorem InOrder.cons {queue rest sorted : List Request} {r : Request} (hn : Next queue r rest)
    (h : InOrder rest sorted) : InOrder queue (r :: sorted) := by
  obtain ⟨earlier, later, rfl, rfl, hearlier, hlater⟩ := hn
  constructor
  · rw [List.pairwise_cons]
    refine ⟨?_, h.descending⟩
    intro q hq
    rcases List.mem_append.mp (h.mem hq) with he | hl
    · exact hearlier q he
    · exact Int.le_of_lt (hlater q hl)
  · intro p
    have hrev := h.reversed p
    by_cases hp : r.priority = p
    · -- nothing that entered after `r` is level with it
      have hnone : later.filter (fun q => q.priority = p) = [] := by
        rw [List.filter_eq_nil_iff]
        intro q hq
        have := hlater q hq
        rw [decide_eq_true_eq]
        omega
      rw [List.filter_append, hnone, List.append_nil] at hrev
      rw [List.filter_append, List.filter_cons, List.filter_cons, if_pos (decide_eq_true hp),
        if_pos (decide_eq_true hp), hnone, hrev, List.reverse_append]
      rfl
    · have hd : ¬ decide (r.priority = p) = true := by
        rw [decide_eq_true_eq]
        exact hp
      rw [List.filter_append, List.filter_cons, List.filter_cons, if_neg hd, if_neg hd, hrev,
        List.filter_append]

/-- A queue that is not empty has a next request. -/
theorem exists_next (q : Request) (qs : List Request) : ∃ r rest, Next (q :: qs) r rest := by
  induction qs generalizing q with
  | nil =>
      refine ⟨q, [], [], [], rfl, rfl, ?_, ?_⟩
      · intro x hx
        exact nomatch hx
      · intro x hx
        exact nomatch hx
  | cons p ps ih =>
      obtain ⟨r, rest, earlier, later, hq, -, hearlier, hlater⟩ := ih p
      by_cases hle : q.priority ≤ r.priority
      · refine ⟨r, q :: earlier ++ later, q :: earlier, later, by rw [hq]; rfl, rfl, ?_, hlater⟩
        intro x hx
        rcases List.mem_cons.mp hx with rfl | hmem
        · exact hle
        · exact hearlier x hmem
      · refine ⟨q, p :: ps, [], p :: ps, rfl, rfl, ?_, ?_⟩
        · intro x hx
          exact nomatch hx
        · intro x hx
          rw [hq] at hx
          rcases List.mem_append.mp hx with he | hl
          · have := hearlier x he
            omega
          · rcases List.mem_cons.mp hl with rfl | hl
            · omega
            · have := hlater x hl
              omega

/-- Every queue can be put in order. -/
theorem exists_inOrder : ∀ (n : Nat) (queue : List Request), queue.length = n →
    ∃ sorted, InOrder queue sorted := by
  intro n
  induction n with
  | zero =>
      intro queue hlen
      rw [List.length_eq_zero_iff] at hlen
      subst hlen
      exact ⟨[], List.Pairwise.nil, fun _ => rfl⟩
  | succ n ih =>
      intro queue hlen
      cases queue with
      | nil => exact nomatch hlen
      | cons q qs =>
          obtain ⟨r, rest, hn⟩ := exists_next q qs
          have hrest : rest.length = n := by
            have := hn.perm.length_eq
            rw [hlen, List.length_cons] at this
            omega
          obtain ⟨sorted, hs⟩ := ih rest hrest
          exact ⟨r :: sorted, hs.cons hn⟩

/-- Nothing but the empty list is the empty queue in order. -/
theorem InOrder.eq_nil {sorted : List Request} (h : InOrder [] sorted) : sorted = [] := by
  cases sorted with
  | nil => rfl
  | cons r rest => exact nomatch h.mem List.mem_cons_self

/-- **The order of taking**: while nothing is added or asked for, the requests
    taken and then those left, put in order, are the whole queue in order. -/
theorem Replay.inOrder {b c : Backlog} {es : List Event} (h : Replay b es c)
    (hadd : es.filterMap added? = []) (hask : es.filterMap asked? = []) :
    ∃ left, InOrder (b.queue ++ b.requests) (es.filterMap taken? ++ left)
      ∧ InOrder (c.queue ++ c.requests) left := by
  induction h with
  | nil b =>
      obtain ⟨left, hl⟩ := exists_inOrder _ (b.queue ++ b.requests) rfl
      exact ⟨left, hl, hl⟩
  | adds _ _ => exact nomatch hadd
  | asks _ _ => exact nomatch hask
  | drains _ ih =>
      obtain ⟨left, hb, hc⟩ := ih hadd hask
      rw [List.append_nil] at hb
      exact ⟨left, hb, hc⟩
  | applies hn _ ih =>
      obtain ⟨left, hb, hc⟩ := ih hadd hask
      rw [List.append_nil] at hb ⊢
      exact ⟨left, hb.cons hn, hc⟩
  | fails hn _ ih =>
      obtain ⟨left, hb, hc⟩ := ih hadd hask
      rw [List.append_nil] at hb ⊢
      exact ⟨left, hb.cons hn, hc⟩

end MarkupLint
