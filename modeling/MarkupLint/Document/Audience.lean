import MarkupLint.Data.Table
import MarkupLint.Diagnostic.Record

/-! # Audiences

    Those who are told of the messages of a reporter.  Collectors of records
    hear through subscriptions.  Every subscription has a number of its own,
    and a collector has one of them or none.  Attaching a collector ends the
    subscription that it has and begins a new one behind all others. -/

namespace MarkupLint

/-- A collector of records; one without a subscription hears nothing. -/
structure Collector where
  /-- The number of its subscription. -/
  subscription : Option Nat := none
  records : List Record := []
  deriving Inhabited, DecidableEq, Repr

/-- Whether a collector has a subscription. -/
def Collector.attached (c : Collector) : Bool := c.subscription.isSome

/-- A subscription, and the name of the collector that it serves. -/
structure Observer where
  id : Nat
  collector : String
  deriving DecidableEq, Repr

/-- The number of the subscription that the collector of a name has. -/
def subscription? (t : Data.Table Collector) (name : String) : Option Nat :=
  (t.get? name).bind Collector.subscription

/-- Hands a record to the collector that an observer serves. -/
def handTo (x : Record) (t : Data.Table Collector) (o : Observer) : Data.Table Collector :=
  match t.get? o.collector with
  | some c => t.set o.collector { c with records := c.records ++ [x] }
  | none => t

theorem get?_handTo (x : Record) (t : Data.Table Collector) (o : Observer) (name : String) :
    (handTo x t o).get? name = (t.get? name).map fun c =>
      if o.collector = name then { c with records := c.records ++ [x] } else c := by
  unfold handTo
  by_cases hname : o.collector = name
  · subst hname
    cases h : t.get? o.collector with
    | none => simp [h]
    | some c => simp
  · cases h : t.get? o.collector with
    | none => simp [hname]
    | some c => simp [Data.Table.get?_set_of_ne _ _ (Ne.symm hname), hname]

/-- A collector gets a record once for each observer that serves it. -/
theorem get?_foldl_handTo (x : Record) (os : List Observer) (t : Data.Table Collector)
    (name : String) :
    (os.foldl (handTo x) t).get? name = (t.get? name).map fun c =>
      { c with
        records := c.records ++ List.replicate (os.countP (·.collector = name)) x } := by
  induction os generalizing t with
  | nil => simp
  | cons o os ih =>
    rw [List.foldl_cons, ih, get?_handTo, Option.map_map]
    congr 1
    funext c
    by_cases hname : o.collector = name
    · simp [hname, List.replicate_succ]
    · simp [hname]

theorem subscription?_foldl_handTo (x : Record) (os : List Observer) (t : Data.Table Collector)
    (name : String) : subscription? (os.foldl (handTo x) t) name = subscription? t name := by
  unfold subscription?
  rw [get?_foldl_handTo, Option.bind_map]
  rfl

/-- Observers in the order of their numbers. -/
def Numbered (os : List Observer) : Prop := os.Pairwise fun o p => o.id < p.id

/-- Taking out the observer of a number leaves those of the other numbers. -/
theorem Numbered.mem_eraseP {os : List Observer} (h : Numbered os) (id : Nat) (o : Observer) :
    o ∈ os.eraseP (·.id == id) ↔ o ∈ os ∧ o.id ≠ id := by
  induction os with
  | nil => simp
  | cons first rest ih =>
    obtain ⟨hfirst, hrest⟩ := List.pairwise_cons.mp h
    by_cases hid : first.id = id
    · rw [List.eraseP_cons_of_pos (by simpa using hid)]
      refine ⟨fun hmem => ⟨List.mem_cons_of_mem _ hmem, ?_⟩, fun ⟨hmem, hother⟩ => ?_⟩
      · have := hfirst o hmem
        omega
      · rcases List.mem_cons.mp hmem with rfl | hmem
        · exact absurd hid hother
        · exact hmem
    · rw [List.eraseP_cons_of_neg (by simpa using hid), List.mem_cons, List.mem_cons, ih hrest]
      constructor
      · rintro (rfl | ⟨hmem, hother⟩)
        · exact ⟨.inl rfl, hid⟩
        · exact ⟨.inr hmem, hother⟩
      · rintro ⟨rfl | hmem, hother⟩
        · exact .inl rfl
        · exact .inr ⟨hmem, hother⟩

/-- No number is given out twice. -/
theorem Numbered.eq_of_id {os : List Observer} (h : Numbered os) {o p : Observer} (ho : o ∈ os)
    (hp : p ∈ os) (hid : o.id = p.id) : o = p := by
  induction os with
  | nil => cases ho
  | cons first rest ih =>
    obtain ⟨hfirst, hrest⟩ := List.pairwise_cons.mp h
    rcases List.mem_cons.mp ho with rfl | ho'
    · rcases List.mem_cons.mp hp with rfl | hp'
      · rfl
      · have := hfirst p hp'
        omega
    · rcases List.mem_cons.mp hp with rfl | hp'
      · have := hfirst o ho'
        omega
      · exact ih hrest ho' hp'

/-- Collectors, and the observers that serve them. -/
structure Audience where
  /-- In the order in which they subscribed. -/
  observers : List Observer
  /-- The number of the next subscription. -/
  nextId : Nat
  collectors : Data.Table Collector
  /-- Numbers are given out in order. -/
  numbered : Numbered observers
  id_lt : ∀ o ∈ observers, o.id < nextId
  /-- An observer serves the collector that has its subscription. -/
  mem_iff : ∀ o, o ∈ observers ↔ subscription? collectors o.collector = some o.id
  deriving Repr

namespace Audience

/-- Nobody is told. -/
def empty : Audience where
  observers := []
  nextId := 0
  collectors := []
  numbered := .nil
  id_lt := List.forall_mem_nil _
  mem_iff _ := ⟨nofun, nofun⟩

instance : Inhabited Audience := ⟨empty⟩

/-- Ends the subscription of the collector of a name; what it collected is
    kept. -/
def detach (a : Audience) (name : String) : Audience :=
  match h : subscription? a.collectors name with
  | none => a
  | some id =>
    { observers := a.observers.eraseP (·.id == id)
      nextId := a.nextId
      collectors := a.collectors.set name
        { (a.collectors.get? name).getD {} with subscription := none }
      numbered := a.numbered.sublist List.eraseP_sublist
      id_lt := fun o ho => a.id_lt o (List.mem_of_mem_eraseP ho)
      mem_iff := by
        intro o
        rw [a.numbered.mem_eraseP, a.mem_iff]
        by_cases hname : o.collector = name
        · rw [hname, h, subscription?, Data.Table.get?_set_self]
          simp [eq_comm]
        · rw [subscription?, subscription?, Data.Table.get?_set_of_ne _ _ hname]
          refine ⟨And.left, fun ho => ⟨ho, fun hid => hname ?_⟩⟩
          -- Two observers of one number would serve two collectors.
          have hserves : (⟨id, name⟩ : Observer) ∈ a.observers := (a.mem_iff _).mpr h
          rw [a.numbered.eq_of_id ((a.mem_iff o).mpr ho) hserves hid] }

/-- A subscription for a collector that has none. -/
def subscribe (a : Audience) (name : String) (h : subscription? a.collectors name = none) :
    Audience where
  observers := a.observers ++ [⟨a.nextId, name⟩]
  nextId := a.nextId + 1
  collectors := a.collectors.set name
    { (a.collectors.get? name).getD {} with subscription := some a.nextId }
  numbered := by
    refine List.pairwise_append.mpr ⟨a.numbered, List.pairwise_singleton _ _, fun o ho p hp => ?_⟩
    rw [List.mem_singleton.mp hp]
    exact a.id_lt o ho
  id_lt := by
    intro o ho
    rcases List.mem_append.mp ho with ho | ho
    · exact Nat.lt_succ_of_lt (a.id_lt o ho)
    · rw [List.mem_singleton.mp ho]
      exact Nat.lt_succ_self _
  mem_iff := by
    intro o
    rw [List.mem_append, a.mem_iff, List.mem_singleton]
    by_cases hname : o.collector = name
    · rw [hname, h, subscription?, Data.Table.get?_set_self]
      obtain ⟨id, collector⟩ := o
      simp_all [eq_comm]
    · rw [subscription?, subscription?, Data.Table.get?_set_of_ne _ _ hname]
      refine ⟨fun ho => ho.resolve_right fun heq => hname (heq ▸ rfl), .inl⟩

theorem subscription?_detach (a : Audience) (name : String) :
    subscription? (a.detach name).collectors name = none := by
  unfold detach
  split
  · assumption
  · simp [subscription?]

/-- Attaches the collector of a name, a new one if there is none; a
    subscription that it has is ended first. -/
def attach (a : Audience) (name : String) : Audience :=
  (a.detach name).subscribe name (a.subscription?_detach name)

/-- Hands a record to the observers, in their order. -/
def notify (a : Audience) (x : Record) : Audience :=
  { a with
    collectors := a.observers.foldl (handTo x) a.collectors
    mem_iff := fun o => by rw [subscription?_foldl_handTo, a.mem_iff] }

end Audience

end MarkupLint
