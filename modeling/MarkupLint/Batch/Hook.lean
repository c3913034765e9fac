/-! # Hooks

    A batch tells its hooks what it is about to do and what it has done.
    Any of them can stop the batch. -/

namespace MarkupLint

/-- The moments of a batch that hooks are told of. -/
inductive HookPoint where
  /-- The files are about to be linted. -/
  | beforeLint (paths : List String)
  /-- A file is about to be read. -/
  | beforeFile (path : String)
  /-- A file was linted, or its result found. -/
  | afterFile (path : String)
  /-- All files were linted. -/
  | afterLint
  deriving DecidableEq, Repr

/-- Something that is told of the moments of a batch. -/
structure Hook where
  name : String
  /-- Why the batch has to stop at a moment, if it has to. -/
  objection? : HookPoint → Option String := fun _ => none

/-- One hook that was told of one moment. -/
structure HookEvent where
  hook : String
  point : HookPoint
  deriving DecidableEq, Repr

/-- Tells hooks of a moment, one after the other up to the first that
    objects: whom it was told, and the objection. -/
def HookPoint.announce (p : HookPoint) : List Hook → List HookEvent × Option String
  | [] => ([], none)
  | h :: rest =>
    match h.objection? p with
    | some reason => ([⟨h.name, p⟩], some reason)
    | none =>
      let (events, objection) := p.announce rest
      (⟨h.name, p⟩ :: events, objection)

/-- The event in words. -/
def HookEvent.words (e : HookEvent) : String :=
  e.hook ++ match e.point with
    | .beforeLint paths => " before_lint " ++ ",".intercalate paths
    | .beforeFile path => " before_file " ++ path
    | .afterFile path => " after_file " ++ path
    | .afterLint => " after_lint"

end MarkupLint
