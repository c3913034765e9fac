import MarkupLint.Document.Basic

/-! # System messages

    Raising a message makes a node that states the problem and holds what
    the message quotes, such as the markup; writes it to the stream; stops
    processing if its level is the halt level or above; and otherwise hands
    a record of it to every attached collector. -/

namespace MarkupLint

/-- Where a message says the problem is, and what it quotes. -/
structure Placement where
  /-- A node whose place is taken if nothing else is given. -/
  base : Option NodeId := none
  line : Option Int := none
  /-- The source; empty for that of the base or the reporter. -/
  source : String := ""
  /-- The markup to quote. -/
  literal : Option String := none

namespace Document

/-- A message as it is written to a stream. -/
def formatMessage (d : Document) (i : NodeId) : String :=
  let n := d.node i
  let line := if 0 < n.line then Text.intText n.line else ""
  n.source ++ ":" ++ line ++ ": (" ++ n.type ++ "/" ++ Text.intText n.level.rank ++ ") "
    ++ d.forest.asText i

/-- The text of a child of a message; empty if there is none. -/
def childText (d : Document) (i : NodeId) (k : Int) : String :=
  if k < 0 then ""
  else match (d.node i).children[k.toNat]? with
    | some c => d.forest.asText c
    | none => ""

/-- The record of a message. -/
def record (d : Document) (i : NodeId) : Record :=
  let n := d.node i
  { line := if 0 < n.line then some n.line else none
    source := n.source
    level := n.level
    type := n.type
    message := d.childText i 0
    fullMessage := d.forest.asText i }

end Document

namespace Reporter

/-- Whether messages of a level are written to the stream. -/
def writes (r : Reporter) (l : Level) : Bool :=
  decide (r.reportLevel ≤ l) || decide (r.haltLevel ≤ l) || (r.debug && l == .debug)

/-- Writes a line to the stream. -/
def write (r : Reporter) (s : String) : Reporter :=
  { r with stream := r.stream.map (· ++ s ++ "\n") }

/-- Whether messages of a level are handed to the collectors. -/
def notifies (r : Reporter) (l : Level) : Bool := decide (Level.debug < l) || r.debug

/-- Hands a record to every attached collector. -/
def notify (r : Reporter) (x : Record) : Reporter := { r with audience := r.audience.notify x }

/-- Attaches the collector of a name, a new one if there is none. -/
def attach (r : Reporter) (name : String) : Reporter :=
  { r with audience := r.audience.attach name }

/-- Detaches the collector of a name; what it collected is kept. -/
def detach (r : Reporter) (name : String) : Reporter :=
  { r with audience := r.audience.detach name }

/-- What the collector of a name holds. -/
def collected (r : Reporter) (name : String) : List Record :=
  ((r.collectors.get? name).map (·.records)).getD []

end Reporter

namespace Build

/-- The source and the line a placement stands for. -/
def place (o : Placement) : Build (String × Int) := do
  let d ← get
  let (source, line) :=
    match o.base with
    | some b =>
      let (source, line) := d.forest.position b
      (if source = "" then d.reporter.source else source, line)
    | none => (d.reporter.source, 0)
  return (if o.source = "" then source else o.source, o.line.getD line)

/-- The node of a message with a source and a line: the problem, then the
    nodes that are quoted. -/
def messageAt (level : Level) (text : String) (spot : String × Int) (quoted : List NodeId) :
    Build NodeId := do
  let statement ←
    (if text = "" then [] else [text]).mapM (textElement { kind := .paragraph })
  element
    { kind := .systemMessage, level := level, type := level.name, source := spot.1, line := spot.2 }
    (statement ++ quoted)

/-- Writes a message to the stream. -/
def writeMessage (msg : NodeId) : Build Unit :=
  modify fun d =>
    if d.reporter.writes (d.node msg).level then
      { d with reporter := d.reporter.write (d.formatMessage msg) }
    else d

/-- Stops if a message is of the halt level or above. -/
def haltOn (msg : NodeId) : Build Unit := do
  let d ← get
  let n := d.node msg
  if d.reporter.haltLevel ≤ n.level then
    throw (.halted ⟨n.level, n.type, n.source, n.line, d.forest.asText msg⟩)

/-- Hands the record of a message to the collectors. -/
def handOn (msg : NodeId) : Build Unit :=
  modify fun d =>
    if d.reporter.notifies (d.node msg).level then
      { d with reporter := d.reporter.notify (d.record msg) }
    else d

/-- Raises a message that quotes some nodes and gives its node. -/
def raiseAt (level : Level) (text : String) (spot : String × Int) (quoted : List NodeId) :
    Build NodeId := do
  let msg ← messageAt level text spot quoted
  writeMessage msg
  haltOn msg
  handOn msg
  return msg

/-- Raises a message that quotes markup, if any, and gives its node. -/
def raise (level : Level) (text : String) (o : Placement := {}) : Build NodeId := do
  let spot ← place o
  let quote ← o.literal.toList.mapM (textElement { kind := .literalBlock })
  raiseAt level text spot quote

end Build

end MarkupLint
