import MarkupLint.Data.Heap
import MarkupLint.Pass.Outline

/-! # Applying passes

    A schedule holds the requests still to be met for a document.  The next
    one met is that of the greatest priority and, among equals, the latest.
    A pass may ask for more passes, through the document or by adding to
    the schedule. -/

namespace MarkupLint

/-- A pass that is asked for, on a node or, if none is named, on the root. -/
structure Ask where
  kind : String
  priority : Int
  target : Option NodeId := none
  options : List (String × Data.Value) := []

/-- The request that stands for an ask in a document. -/
def Ask.of (a : Ask) (d : Document) : Request :=
  { kind := a.kind, priority := a.priority, target := a.target.getD d.root, options := a.options }

/-- A standard pass with its usual priority. -/
def Pass.ask (p : Pass) : Ask := { kind := p.kind, priority := p.priority }

/-- What one application of a local pass does. -/
structure Turn where
  /-- The change to the tree. -/
  edit : Forest → Forest := id
  /-- What the document is asked for. -/
  requests : List Ask := []
  /-- What is added to the schedule. -/
  additions : List Ask := []
  /-- A message that is raised. -/
  message : Option (Level × String) := none
  /-- Why the application fails; empty if it does not. -/
  failure : String := ""

/-- A pass that an application adds to a schedule, shadowing a standard one
    of the same kind.  A pass that asked for others for ever would never be
    done, so there is a last turn after which it asks for nothing. -/
structure LocalPass where
  /-- What the next applications do, in order. -/
  turns : List Turn := []
  /-- A message that later applications raise. -/
  message : Option (Level × String) := none
  /-- Why later applications fail; empty if they do not. -/
  failure : String := ""

namespace LocalPass

/-- What the next application does, and the pass after it. -/
def next (p : LocalPass) : Turn × LocalPass :=
  match p.turns with
  | [] => ({ message := p.message, failure := p.failure }, p)
  | turn :: rest => (turn, { p with turns := rest })

/-- How many passes a local pass can still ask for. -/
def asks (p : LocalPass) : Nat :=
  p.turns.foldr (fun t n => t.requests.length + t.additions.length + n) 0

end LocalPass

/-- Raises the message of a turn, then fails if the turn fails. -/
def Turn.conclude (t : Turn) : Build Unit := do
  if let some (level, text) := t.message then
    let _ ← Build.raise level text
  if t.failure ≠ "" then throw (.failed t.failure)

/-- An application of a local pass. -/
structure Application where
  kind : String
  target : Kind
  options : List (String × Data.Value)

/-- A request in the queue. -/
structure Queued where
  request : Request
  /-- How many requests had entered the queue before it. -/
  number : Nat

/-- Whether an entry is met before another one. -/
def Queued.before (a b : Queued) : Bool :=
  if a.request.priority = b.request.priority then b.number < a.number
  else b.request.priority < a.request.priority

/-- A document with the passes still to be applied. -/
structure Schedule where
  document : Document
  /-- The requests not yet met. -/
  queue : Data.Heap Queued := {}
  /-- How many requests have entered the queue. -/
  entered : Nat := 0
  /-- The requests met, in order. -/
  applied : List Request := []
  locals : Data.Table LocalPass := []
  /-- The applications of local passes, in order. -/
  log : List Application := []

namespace Schedule

/-- How many requests are in the queue. -/
def pending (s : Schedule) : Nat := s.queue.size

/-! ## Asking -/

/-- Puts a request into the queue. -/
def add (s : Schedule) (r : Request) : Schedule :=
  { s with queue := s.queue.push Queued.before ⟨r, s.entered⟩, entered := s.entered + 1 }

/-- Puts requests into the queue in order. -/
def addAll (s : Schedule) (rs : List Request) : Schedule := rs.foldl add s

/-- Adds what is asked for. -/
def ask (s : Schedule) (a : Ask) : Schedule := s.add (a.of s.document)

/-- Adds the pass that a pending node stands for. -/
def addPending (s : Schedule) (node : NodeId) (priority : Int)
    (options : List (String × Data.Value)) : Schedule :=
  let kind := ((s.document.node node).attr? "transform").getD ""
  s.ask { kind := kind, priority := priority, target := some node, options := options }

/-- Adds what components ask for. -/
def populate (s : Schedule) (components : List (List Ask)) : Schedule :=
  components.flatten.foldl ask s

/-- Adds the passes that every document goes through. -/
def populateStandard (s : Schedule) : Schedule :=
  s.populate [Pass.reading.map Pass.ask, Pass.writing.map Pass.ask]

/-- Asks the document for a pass. -/
def request (s : Schedule) (a : Ask) : Schedule :=
  { s with document := s.document.request (a.of s.document) }

/-- Adds what the document was asked for. -/
def drain (s : Schedule) : Schedule :=
  let (requests, d) := s.document.takeRequests
  { s with document := d }.addAll requests

/-- Adds a local pass. -/
def register (s : Schedule) (kind : String) (p : LocalPass) : Schedule :=
  { s with locals := s.locals.set kind p }

/-! ## Meeting requests -/

/-- The request that is next, and the schedule without it. -/
def take? (s : Schedule) : Option (Request × Schedule) :=
  match s.queue.pop? Queued.before with
  | none => none
  | some (e, rest) => some (e.request, { s with queue := rest })

/-- A step that changes a schedule and may stop. -/
abbrev Step := EStateM Stop Schedule

/-- A step on the document alone. -/
def onDocument {α : Type} (x : Build α) : Step α := fun s =>
  match x s.document with
  | .ok a d => .ok a { s with document := d }
  | .error e d => .error e { s with document := d }

/-- Does what a turn of a local pass does before its message; `rest` is the
    pass after it. -/
def perform (s : Schedule) (r : Request) (turn : Turn) (rest : LocalPass) : Schedule :=
  let d := s.document
  let edited : Document := { d with forest := turn.edit d.forest }
  let after : Schedule :=
    { s with
      document := (turn.requests.map (·.of d)).foldl Document.request edited
      locals := s.locals.set r.kind rest
      log := s.log ++ [⟨r.kind, (d.node r.target).kind, r.options⟩] }
  after.addAll (turn.additions.map (·.of d))

/-- Applies a local pass. -/
def applyLocal (r : Request) (p : LocalPass) : Step Unit := do
  modify fun s => s.perform r p.next.1 p.next.2
  onDocument p.next.1.conclude

/-- The step that a request asks for: a local pass of its kind or else the
    standard one. -/
def passFor (s : Schedule) (r : Request) : Step Unit :=
  match s.locals.get? r.kind with
  | some p => applyLocal r p
  | none =>
    match Pass.ofKind? r.kind with
    | some p => onDocument (p.apply r.target r.options)
    | none => throw (.unknownPass r.kind)

/-- Applies the pass that a request asks for. -/
def applyRequest (r : Request) : Step Unit := do (← get).passFor r

/-- Says which pass failed. -/
def naming (kind : String) : Stop → Stop
  | .failed reason => .failed ("transform " ++ kind ++ ": " ++ reason)
  | stop => stop

/-- Notes that a request was met. -/
def record (s : Schedule) (r : Request) : Schedule := { s with applied := s.applied ++ [r] }

/-- Meets requests until none are left or one fails, at most `count` of
    them. -/
def runWithin : Nat → Schedule → Except Stop Unit × Schedule
  | 0, s => (if s.pending = 0 then .ok () else .error .exhausted, s)
  | count + 1, s =>
    match s.take? with
    | none => (.ok (), s)
    | some (r, s) =>
      match applyRequest r s with
      | .error stop s => (.error (naming r.kind stop), s)
      | .ok () s => runWithin count (s.record r).drain

/-- A bound on the requests to be met: those made so far and those that the
    local passes can still make. -/
def bound (s : Schedule) : Nat :=
  s.pending + s.document.requests.length + s.locals.foldr (fun p n => p.2.asks + n) 0

/-- Meets every request, also those made on the way: how it ended, and the
    schedule after it. -/
def run (s : Schedule) : Except Stop Unit × Schedule := runWithin s.bound s.drain

end Schedule

end MarkupLint
