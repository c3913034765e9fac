import MarkupLint.Document.Message

/-! # Notices

    What a message says is a `Notice`: the level, the text and the place.
    Its record, the line that is written for it and the reason for which it
    stops a run are all read off it.

    A reporter that was `told` notices one after the other has handed their
    records to its collectors.  However a run ends, that is all that
    happened to its reporter, but for what was written to the stream. -/

namespace MarkupLint

/-- What a message says. -/
structure Notice where
  level : Level
  text : String
  source : String
  line : Int
  /-- The markup it quotes. -/
  literal : Option String

namespace Notice

/-- The texts of the parts of a message. -/
def parts (x : Notice) : List String := (if x.text = "" then [] else [x.text]) ++ x.literal.toList

/-- The text of a message. -/
def full (x : Notice) : String := "\n\n".intercalate x.parts

/-- The record of a message. -/
def record (x : Notice) : Record where
  line := if 0 < x.line then some x.line else none
  source := x.source
  level := x.level
  type := x.level.name
  message := x.parts.headD ""
  fullMessage := x.full

/-- A message as it is written to a stream. -/
def format (x : Notice) : String :=
  x.source ++ ":" ++ (if 0 < x.line then Text.intText x.line else "") ++ ": (" ++ x.level.name
    ++ "/" ++ Text.intText x.level.rank ++ ") " ++ x.full

/-- A message that stops processing. -/
def halt (x : Notice) : Halt := ⟨x.level, x.level.name, x.source, x.line, x.full⟩

end Notice

namespace Reporter

/-- Writes a notice to the stream, if notices of its level are written. -/
def log (r : Reporter) (x : Notice) : Reporter := if r.writes x.level then r.write x.format else r

/-- Hands the record of a notice to the collectors, if records of its level
    are handed on. -/
def tell (r : Reporter) (x : Notice) : Reporter :=
  if r.notifies x.level then r.notify x.record else r

/-- Hands the records of notices on, in order. -/
def told (r : Reporter) (xs : List Notice) : Reporter := xs.foldl tell r

/-- From a reporter one comes to another by being told of notices. -/
def Told (xs : List Notice) (r r' : Reporter) : Prop :=
  ∃ stream, r' = { r.told xs with stream := stream }

variable {r r' r'' : Reporter} {x : Notice} {xs ys : List Notice}

/-- What is logged goes to the stream and nowhere else. -/
theorem log_eq (r : Reporter) (x : Notice) : ∃ stream, r.log x = { r with stream := stream } := by
  unfold log
  split
  · exact ⟨_, rfl⟩
  · exact ⟨r.stream, rfl⟩

/-- Telling a notice does not look at the stream. -/
theorem tell_stream (r : Reporter) (x : Notice) (stream : Option String) :
    ({ r with stream := stream } : Reporter).tell x = { r.tell x with stream := stream } := by
  unfold tell
  have hnotifies : ({ r with stream := stream } : Reporter).notifies x.level = r.notifies x.level :=
    rfl
  rw [hnotifies]
  split <;> rfl

/-- Nor does telling several. -/
theorem told_stream (r : Reporter) (xs : List Notice) (stream : Option String) :
    ({ r with stream := stream } : Reporter).told xs = { r.told xs with stream := stream } := by
  induction xs generalizing r with
  | nil => rfl
  | cons x xs ih =>
    show ({ r with stream := stream }.tell x).told xs = _
    rw [tell_stream, ih]
    rfl

@[simp] theorem haltLevel_tell (r : Reporter) (x : Notice) :
    (r.tell x).haltLevel = r.haltLevel := by
  unfold tell
  split <;> rfl

@[simp] theorem haltLevel_told (r : Reporter) (xs : List Notice) :
    (r.told xs).haltLevel = r.haltLevel := by
  induction xs generalizing r with
  | nil => rfl
  | cons x xs ih => exact (ih _).trans (r.haltLevel_tell x)

@[simp] theorem source_tell (r : Reporter) (x : Notice) : (r.tell x).source = r.source := by
  unfold tell
  split <;> rfl

@[simp] theorem source_told (r : Reporter) (xs : List Notice) : (r.told xs).source = r.source := by
  induction xs generalizing r with
  | nil => rfl
  | cons x xs ih => exact (ih _).trans (r.source_tell x)

/-- Where a reporter halts does not matter to what it tells. -/
theorem tell_halt (r : Reporter) (x : Notice) (halt : Level) :
    ({ r with haltLevel := halt } : Reporter).tell x = { r.tell x with haltLevel := halt } := by
  unfold tell
  have hnotifies : ({ r with haltLevel := halt } : Reporter).notifies x.level = r.notifies x.level :=
    rfl
  rw [hnotifies]
  split <;> rfl

/-- Nor to what it writes, if the notice reaches both levels or none. -/
theorem log_halt (r : Reporter) (x : Notice) {halt : Level}
    (h : halt ≤ x.level ↔ r.haltLevel ≤ x.level) :
    ({ r with haltLevel := halt } : Reporter).log x = { r.log x with haltLevel := halt } := by
  unfold log
  have hwrites : ({ r with haltLevel := halt } : Reporter).writes x.level = r.writes x.level := by
    simp only [writes, h]
  rw [hwrites]
  split <;> rfl

namespace Told

/-- Nothing is told by a reporter that stays as it is. -/
theorem refl (r : Reporter) : Told [] r r := ⟨r.stream, rfl⟩

/-- The level at which a reporter halts is never changed. -/
theorem haltLevel (h : Told xs r r') : r'.haltLevel = r.haltLevel := by
  obtain ⟨stream, rfl⟩ := h
  exact r.haltLevel_told xs

/-- Nor is the source that it reports for. -/
theorem source (h : Told xs r r') : r'.source = r.source := by
  obtain ⟨stream, rfl⟩ := h
  exact r.source_told xs

/-- What is told first comes first. -/
theorem trans (h : Told xs r r') (h' : Told ys r' r'') : Told (xs ++ ys) r r'' := by
  obtain ⟨stream, rfl⟩ := h
  obtain ⟨stream', rfl⟩ := h'
  refine ⟨stream', ?_⟩
  rw [told_stream, told, told, told, List.foldl_append]

/-- What is only written is not told. -/
theorem log (r : Reporter) (x : Notice) : Told [] r (r.log x) := r.log_eq x

/-- One notice is told. -/
theorem tell (r : Reporter) (x : Notice) : Told [x] r (r.tell x) := ⟨(r.tell x).stream, rfl⟩

/-- A notice that stops nothing is written and told. -/
theorem announce (r : Reporter) (x : Notice) : Told [x] r ((r.log x).tell x) :=
  (log r x).trans (tell _ x)

end Told

end Reporter

end MarkupLint
