import Mathlib.Data.List.Induction
import Mathlib.Data.List.Nodup
import MarkupLint.Proofs.Message

/-! # What collectors hear

    Collectors are attached, detached and attached again while messages are
    raised.  An audience serves a collector by one observer if it is attached
    and by none if it is not (`Audience.count_observers`), so a collector
    hears each message once that is raised while it is attached, and no
    other, in the order in which they are raised. -/

namespace MarkupLint

/-! ## One audience -/

namespace Audience

/-- One observer serves a collector that is attached, and none one that is
    not. -/
theorem count_observers (a : Audience) {name : String} {c : Collector}
    (hc : a.collectors.get? name = some c) :
    a.observers.countP (·.collector = name) = if c.attached then 1 else 0 := by
  have hsub : subscription? a.collectors name = c.subscription := by simp [subscription?, hc]
  cases h : c.subscription with
  | none =>
    rw [Collector.attached, h, List.countP_eq_zero.mpr]
    · rfl
    · intro o ho hname
      have hid := (a.mem_iff o).mp ho
      rw [of_decide_eq_true hname, hsub, h] at hid
      cases hid
  | some id =>
    have hmem : (⟨id, name⟩ : Observer) ∈ a.observers := (a.mem_iff _).mpr (hsub.trans h)
    have hiff : ∀ o ∈ a.observers,
        decide (o.collector = name) = true ↔ (o == ⟨id, name⟩) = true := by
      intro o ho
      rw [decide_eq_true_iff, beq_iff_eq]
      refine ⟨fun hname => ?_, fun heq => by rw [heq]⟩
      have hid := (a.mem_iff o).mp ho
      rw [hname, hsub, h] at hid
      exact a.numbered.eq_of_id ho hmem (Option.some.inj hid).symm
    have hnodup : a.observers.Nodup := a.numbered.imp fun hlt heq => by simp [heq] at hlt
    rw [Collector.attached, h, List.countP_congr hiff]
    exact List.count_eq_one_of_mem hnodup hmem

/-- A collector that is attached takes the record; the others stay. -/
theorem get?_notify (a : Audience) (x : Record) (name : String) :
    (a.notify x).collectors.get? name = (a.collectors.get? name).map fun c =>
      if c.attached then { c with records := c.records ++ [x] } else c := by
  show (a.observers.foldl (handTo x) a.collectors).get? name = _
  rw [get?_foldl_handTo]
  cases hc : a.collectors.get? name with
  | none => rfl
  | some c =>
    rw [Option.map_some, Option.map_some, a.count_observers hc]
    cases c.attached <;> simp

/-- Detaching a collector takes nothing from it. -/
theorem get?_detach (a : Audience) (name other : String) :
    (a.detach name).collectors.get? other = (a.collectors.get? other).map fun c =>
      if other = name then { c with subscription := none } else c := by
  unfold detach
  split
  · rename_i hnone
    by_cases hother : other = name
    · subst hother
      cases hc : a.collectors.get? other with
      | none => rfl
      | some c =>
        have hc' : c.subscription = none := by simpa [subscription?, hc] using hnone
        simp [← hc']
    · simp [hother]
  · rename_i id hsome
    by_cases hother : other = name
    · subst hother
      obtain ⟨c, hc, -⟩ := Option.bind_eq_some_iff.mp hsome
      simp [hc]
    · simp [Data.Table.get?_set_of_ne _ _ hother, hother]

end Audience

/-! ## One reporter -/

namespace Reporter

variable {r : Reporter} {name other : String}

/-- Whether the collector of a name is attached. -/
def listens (r : Reporter) (name : String) : Bool := (subscription? r.collectors name).isSome

/-- So it is in a reporter. -/
theorem get?_notify (r : Reporter) (x : Record) (name : String) :
    (r.notify x).collectors.get? name = (r.collectors.get? name).map fun c =>
      if c.attached then { c with records := c.records ++ [x] } else c :=
  r.audience.get?_notify x name

/-- A collector listens if it is attached. -/
theorem listens_eq (r : Reporter) (name : String) :
    r.listens name = (r.collectors.get? name).any Collector.attached := by
  unfold listens subscription?
  cases r.collectors.get? name <;> rfl

/-- A record comes after the others if the collector is attached. -/
theorem collected_notify (r : Reporter) (x : Record) (name : String) :
    (r.notify x).collected name
      = r.collected name ++ if r.listens name then [x] else [] := by
  rw [collected, collected, get?_notify, listens_eq]
  cases r.collectors.get? name with
  | none => rfl
  | some c =>
    cases h : c.attached <;> simp [h]

/-- Hearing something detaches no one. -/
theorem listens_notify (r : Reporter) (x : Record) (name : String) :
    (r.notify x).listens name = r.listens name := by
  rw [listens_eq, listens_eq, get?_notify, Option.any_map]
  congr 1
  funext c
  show Collector.attached (if c.attached then _ else c) = _
  split <;> rfl

/-- What was collected stays. -/
theorem collected_detach (r : Reporter) (name other : String) :
    (r.detach name).collected other = r.collected other := by
  show (((r.audience.detach name).collectors.get? other).map (·.records)).getD [] = _
  rw [Audience.get?_detach, Option.map_map]
  congr 2
  funext c
  by_cases hother : other = name <;> simp [hother]

/-- One that is detached listens no more. -/
theorem listens_detach (r : Reporter) (name other : String) :
    (r.detach name).listens other = if other = name then false else r.listens other := by
  rw [listens_eq, listens_eq]
  show ((r.audience.detach name).collectors.get? other).any _ = _
  rw [Audience.get?_detach]
  by_cases hother : other = name
  · simp [hother, Collector.attached, Option.any_map]
  · simp [hother]
    rfl

/-- Attaching a collector keeps what it has; one that is new has nothing. -/
theorem get?_attach (r : Reporter) (name other : String) :
    (r.attach name).collectors.get? other =
      if other = name then
        some { ((r.detach name).collectors.get? name).getD {} with
          subscription := some (r.detach name).audience.nextId }
      else (r.detach name).collectors.get? other := by
  show ((r.detach name).collectors.set name _).get? other = _
  by_cases hother : other = name
  · rw [hother, if_pos rfl, Data.Table.get?_set_self]
    rfl
  · rw [if_neg hother, Data.Table.get?_set_of_ne _ _ hother]

/-- A collector that is attached again keeps what it collected. -/
theorem collected_attach (r : Reporter) (name other : String) :
    (r.attach name).collected other = r.collected other := by
  rw [← collected_detach r name other, collected, collected, get?_attach]
  by_cases hother : other = name
  · rw [hother, if_pos rfl]
    cases (r.detach name).collectors.get? name <;> rfl
  · rw [if_neg hother]

/-- One that is attached listens. -/
theorem listens_attach (r : Reporter) (name other : String) :
    (r.attach name).listens other = if other = name then true else r.listens other := by
  rw [listens_eq, get?_attach]
  by_cases hother : other = name
  · rw [if_pos hother, if_pos hother]
    rfl
  · rw [if_neg hother, if_neg hother, ← listens_eq, listens_detach, if_neg hother]

/-- Whether the collectors get to know of messages of a level: those that
    stop processing and, but for debugging, those of tracing are kept from
    them. -/
def heeds (r : Reporter) (l : Level) : Bool :=
  decide (l < r.haltLevel) && (decide (Level.debug < l) || r.debug)

/-- The reporter after a message was raised. -/
def heard (r : Reporter) (x : Notice) : Reporter :=
  if r.haltLevel ≤ x.level then r.log x else (r.log x).tell x

/-- A message is heard that does not halt the run and is not held back. -/
theorem heeds_eq (r : Reporter) (l : Level) :
    r.heeds l = (!decide (r.haltLevel ≤ l) && r.notifies l) := by
  have hlt : l < r.haltLevel ↔ ¬r.haltLevel ≤ l := (Int.not_le).symm
  simp only [heeds, notifies, decide_not, hlt]

/-- A message that is heeded comes after the others, if the collector is
    attached. -/
theorem collected_heard (r : Reporter) (x : Notice) (name : String) :
    (r.heard x).collected name =
      r.collected name ++ if r.listens name && r.heeds x.level then [x.record] else [] := by
  obtain ⟨stream, hlog⟩ := r.log_eq x
  rw [heard, heeds_eq, hlog]
  by_cases hhalt : r.haltLevel ≤ x.level
  · simp [hhalt, collected, collectors]
  · rw [if_neg hhalt, tell_stream]
    show (r.tell x).collected name = _
    by_cases hnotifies : r.notifies x.level = true
    · rw [tell, if_pos hnotifies, collected_notify]
      simp [hhalt, hnotifies]
    · rw [tell, if_neg hnotifies]
      simp [hnotifies]

theorem listens_heard (r : Reporter) (x : Notice) (name : String) :
    (r.heard x).listens name = r.listens name := by
  obtain ⟨stream, hlog⟩ := r.log_eq x
  rw [heard, hlog]
  split
  · rfl
  · rw [tell_stream]
    show (r.tell x).listens name = _
    unfold tell
    split
    · exact r.listens_notify _ name
    · rfl

theorem heeds_heard (r : Reporter) (x : Notice) : (r.heard x).heeds = r.heeds := by
  obtain ⟨stream, hlog⟩ := r.log_eq x
  rw [heard, hlog]
  split
  · rfl
  · unfold tell
    split <;> rfl

end Reporter

/-! ## One message -/

/-- The nodes of a forest are among those of another. -/
structure Forest.Extends (f g : Forest) : Prop where
  size : f.size ≤ g.size
  old : ∀ i < f.size, g.get i = f.get i

/-- Growing twice is growing. -/
theorem Forest.Extends.trans {f g h : Forest} (hfg : f.Extends g) (hgh : g.Extends h) :
    f.Extends h :=
  ⟨Nat.le_trans hfg.size hgh.size, fun i hi =>
    (hgh.old i (Nat.lt_of_lt_of_le hi hfg.size)).trans (hfg.old i hi)⟩

/-- Raising a message leaves the nodes that are there alone; the reporter
    has heard its notice, and the run stops if it is of the halt level or
    above. -/
theorem Build.raise_heard (level : Level) (text : String) (o : Placement) (d : Document) :
    ∃ (x : Notice) (g : Forest), x.level = level ∧ x.text = text ∧
      d.forest.Extends g ∧
      let d' : Document := { d with forest := g, reporter := d.reporter.heard x }
      (d.reporter.haltLevel ≤ level ∧ Build.raise level text o d = .error (.halted x.halt) d' ∨
        ∃ msg, Build.raise level text o d = .ok msg d') := by
  obtain ⟨⟨source, line⟩, hplace⟩ := Build.place_eq o d
  obtain ⟨g, msg, -, hraise⟩ := Build.raise_run level text o d hplace
  have hcontract : Contract (Discipline.aside ⟨{}, 0⟩ ⟨{}, 0⟩ .any d.forest.size)
      (d.forest.size ≤ ·) (Build.raise level text o) (Build.raise level text o) :=
    Build.aside_raise level text o trivial
  obtain ⟨hgrown, -, -⟩ := hcontract d d (.refl _)
    ⟨Nat.le_refl _, Forest.apart_of_size_le (Nat.le_refl _)⟩
  rw [stateAfter_eq, hraise] at hgrown
  refine ⟨⟨level, text, source, line, o.literal⟩, g, rfl, rfl, ?_, ?_⟩
  · split at hgrown <;> exact ⟨hgrown.1.size, hgrown.1.old⟩
  · rw [hraise, Reporter.heard]
    by_cases hhalt : d.reporter.haltLevel ≤ level
    · rw [if_pos hhalt, if_pos hhalt]
      exact .inl ⟨hhalt, rfl⟩
    · rw [if_neg hhalt, if_neg hhalt]
      exact .inr ⟨msg, rfl⟩

/-! ## Whatever is done -/

/-- Something done to a document or to the collectors of its messages. -/
inductive Deed where
  | attach (name : String)
  | detach (name : String)
  | message (level : Level) (text : String) (o : Placement)
  /-- Whatever is done to the tree. -/
  | edit (change : Forest → Forest)

namespace Deed

/-- The document after a deed, also if a message stops processing. -/
def run (d : Document) : Deed → Document
  | .attach name => { d with reporter := d.reporter.attach name }
  | .detach name => { d with reporter := d.reporter.detach name }
  | .message level text o => stateAfter (Build.raise level text o) d
  | .edit change => { d with forest := change d.forest }

/-- What a message says that is raised about a document. -/
def notice? (d : Document) : Deed → Option Notice
  | .message level text o =>
    match Build.place o d with
    | .ok (source, line) _ => some ⟨level, text, source, line, o.literal⟩
    | .error _ _ => none
  | _ => none

/-- Whether a deed attaches the collector of a name or detaches it. -/
def turns? (name : String) : Deed → Option Bool
  | .attach other => if other = name then some true else none
  | .detach other => if other = name then some false else none
  | _ => none

end Deed

namespace Document

/-- The document after some deeds. -/
def after (d : Document) (deeds : List Deed) : Document := deeds.foldl Deed.run d

/-- Whether a collector is attached after some deeds: the last of them that
    attached it or detached it decides. -/
def attachedAfter (d : Document) (name : String) (deeds : List Deed) : Bool :=
  (deeds.filterMap (Deed.turns? name)).getLast?.getD (d.reporter.listens name)

/-- The record of a deed that comes after others, if it is a message that is
    heeded while the collector is attached. -/
def hears? (d : Document) (name : String) (past : List Deed) (deed : Deed) : Option Record :=
  match deed.notice? (d.after past) with
  | some x =>
    if d.attachedAfter name past = true ∧ d.reporter.heeds x.level = true then some x.record
    else none
  | none => none

/-- The records of all that a collector hears of some deeds, in order. -/
def hearing (d : Document) (name : String) (deeds : List Deed) : List Record :=
  (List.range deeds.length).filterMap fun i => deeds[i]?.bind (d.hears? name (deeds.take i))

theorem after_concat (d : Document) (deeds : List Deed) (deed : Deed) :
    d.after (deeds ++ [deed]) = deed.run (d.after deeds) := by
  simp [after]

/-- What is heard of a deed comes after what was heard before. -/
theorem hearing_concat (d : Document) (name : String) (deeds : List Deed) (deed : Deed) :
    d.hearing name (deeds ++ [deed])
      = d.hearing name deeds ++ (d.hears? name deeds deed).toList := by
  have hbefore : ∀ i ∈ List.range deeds.length,
      (deeds ++ [deed])[i]?.bind (d.hears? name ((deeds ++ [deed]).take i))
        = deeds[i]?.bind (d.hears? name (deeds.take i)) := by
    intro i hi
    have hlt : i < deeds.length := List.mem_range.mp hi
    rw [List.getElem?_append_left hlt, List.take_append_of_le_length (Nat.le_of_lt hlt)]
  rw [hearing, hearing, List.length_append, List.length_singleton, List.range_succ,
    List.filterMap_append, List.filterMap_congr hbefore]
  congr 1
  simp only [List.filterMap_cons, List.filterMap_nil, List.getElem?_concat_length,
    Option.bind_some, List.take_left]
  cases d.hears? name deeds deed <;> rfl

/-- The reporter after a message. -/
theorem reporter_message (d : Document) (level : Level) (text : String) (o : Placement) :
    ∃ x, (Deed.message level text o).notice? d = some x ∧
      ((Deed.message level text o).run d).reporter = d.reporter.heard x := by
  obtain ⟨⟨source, line⟩, hplace⟩ := Build.place_eq o d
  obtain ⟨g, msg, -, hraise⟩ := Build.raise_run level text o d hplace
  refine ⟨⟨level, text, source, line, o.literal⟩, by simp [Deed.notice?, hplace], ?_⟩
  show (stateAfter (Build.raise level text o) d).reporter = _
  rw [stateAfter_eq, hraise, Reporter.heard]
  split <;> rfl

/-- What one deed does to the collectors. -/
theorem collected_run (d : Document) (deed : Deed) (name : String) :
    (deed.run d).reporter.collected name = d.reporter.collected name ++
        (deed.notice? d).toList.flatMap (fun x =>
          if d.reporter.listens name && d.reporter.heeds x.level then [x.record] else []) ∧
      (deed.run d).reporter.listens name
        = (deed.turns? name).getD (d.reporter.listens name) ∧
      (deed.run d).reporter.heeds = d.reporter.heeds := by
  cases deed with
  | attach other =>
    refine ⟨?_, ?_, rfl⟩
    · exact (d.reporter.collected_attach other name).trans (List.append_nil _).symm
    · show (d.reporter.attach other).listens name = _
      rw [Reporter.listens_attach, Deed.turns?]
      by_cases hname : other = name
      · simp [hname]
      · simp [hname, Ne.symm hname]
  | detach other =>
    refine ⟨?_, ?_, rfl⟩
    · exact (d.reporter.collected_detach other name).trans (List.append_nil _).symm
    · show (d.reporter.detach other).listens name = _
      rw [Reporter.listens_detach, Deed.turns?]
      by_cases hname : other = name
      · simp [hname]
      · simp [hname, Ne.symm hname]
  | message level text o =>
    obtain ⟨x, hnotice, hreporter⟩ := d.reporter_message level text o
    rw [hnotice, hreporter, Reporter.listens_heard, Reporter.heeds_heard,
      Reporter.collected_heard]
    exact ⟨by simp, rfl, rfl⟩
  | edit change => exact ⟨(List.append_nil _).symm, rfl, rfl⟩

/-- By induction on the deeds, from the last one back. -/
theorem collected_after (d : Document) (deeds : List Deed) (name : String) :
    (d.after deeds).reporter.collected name
        = d.reporter.collected name ++ d.hearing name deeds ∧
      (d.after deeds).reporter.listens name = d.attachedAfter name deeds ∧
      (d.after deeds).reporter.heeds = d.reporter.heeds := by
  induction deeds using List.reverseRecOn with
  | nil => exact ⟨(List.append_nil _).symm, rfl, rfl⟩
  | append_singleton deeds deed ih =>
    obtain ⟨hcollected, hlistens, hheeds⟩ := ih
    obtain ⟨hcollected', hlistens', hheeds'⟩ := (d.after deeds).collected_run deed name
    rw [after_concat, hearing_concat]
    refine ⟨?_, ?_, hheeds'.trans hheeds⟩
    · rw [hcollected', hcollected, List.append_assoc, hears?]
      congr 2
      rw [hlistens, hheeds]
      cases deed.notice? (d.after deeds) with
      | none => rfl
      | some x =>
        cases hlistening : d.attachedAfter name deeds <;>
          cases hheeded : d.reporter.heeds x.level <;> simp [hheeded]
    · rw [hlistens', hlistens, attachedAfter, attachedAfter, List.filterMap_append]
      cases hturns : deed.turns? name with
      | none => simp [hturns]
      | some now => simp [hturns]

end Document

/-- The problem comes first in the text of a message. -/
theorem Notice.message_prefix (x : Notice) :
    x.record.message.toList <+: x.record.fullMessage.toList := by
  show (x.parts.headD "").toList <+: ("\n\n".intercalate x.parts).toList
  match x.parts with
  | [] => exact List.prefix_refl _
  | [part] =>
    rw [String.intercalate_singleton]
    exact List.prefix_refl _
  | part :: next :: rest =>
    rw [String.intercalate_cons_cons, String.append_assoc, String.toList_append]
    exact List.prefix_append _ _

namespace Document

/-- What a collector hears are records of notices. -/
theorem exists_notice_of_mem_hearing {d : Document} {name : String} {deeds : List Deed}
    {r : Record} (h : r ∈ d.hearing name deeds) : ∃ x : Notice, x.record = r := by
  obtain ⟨i, -, hi⟩ := List.mem_filterMap.mp h
  obtain ⟨deed, -, hheard⟩ := Option.bind_eq_some_iff.mp hi
  unfold hears? at hheard
  split at hheard
  · rename_i x _
    split at hheard
    · exact ⟨x, Option.some.inj hheard⟩
    · cases hheard
  · cases hheard

/-- **Collectors hear what was raised while they were attached.**  Whatever is
    done, a collector holds what it held before and then the records of the
    messages that were raised while it was attached, if they were neither
    such as stop processing nor, but for debugging, such as trace it: in the
    order in which they were raised and each once.  What it holds stays in
    its place.  The message of a record is where its full message begins, and
    its type is the name of its level. -/
theorem collectors_hear_all (d : Document) (deeds later : List Deed) (name : String) :
    (d.after deeds).reporter.collected name
        = d.reporter.collected name ++ d.hearing name deeds ∧
      (d.after deeds).reporter.collected name
        <+: (d.after (deeds ++ later)).reporter.collected name ∧
      ∀ r ∈ d.hearing name deeds,
        r.message.toList <+: r.fullMessage.toList ∧ r.type = r.level.name := by
  refine ⟨(d.collected_after deeds name).1, ?_, fun r hr => ?_⟩
  · have hlater : d.after (deeds ++ later) = (d.after deeds).after later := List.foldl_append
    rw [hlater, ((d.after deeds).collected_after later name).1]
    exact List.prefix_append _ _
  · obtain ⟨x, rfl⟩ := exists_notice_of_mem_hearing hr
    exact ⟨x.message_prefix, rfl⟩

end Document

end MarkupLint
