import MarkupLint.Diagnostic.Level

/-! # Records

    One diagnostic as a plain value, and what a list of them adds up to. -/

namespace MarkupLint

/-- One diagnostic. -/
structure Record where
  /-- The line in the source, if the problem has one. -/
  line : Option Int
  source : String
  level : Level
  /-- The name of the level. -/
  type : String
  message : String
  /-- The message together with the markup it quotes. -/
  fullMessage : String
  deriving DecidableEq, Repr, Inhabited

namespace Record

/-- The line as it is printed. -/
def lineText (r : Record) : String :=
  match r.line with
  | some n => Text.intText n
  | none => "None"

/-- The records at or above a threshold, in order. -/
def atLeast (threshold : Level) (records : List Record) : List Record :=
  records.filter fun r => threshold ≤ r.level

/-- Whether some record reaches a threshold. -/
def reaches (threshold : Level) (records : List Record) : Bool :=
  records.any fun r => threshold ≤ r.level

end Record

/-- How many records there are, in all and per level. -/
structure Tally where
  total : Nat
  debug : Nat
  info : Nat
  warnings : Nat
  errors : Nat
  severe : Nat
  deriving DecidableEq, Repr

namespace Tally

/-- Counts the records. -/
def ofRecords (records : List Record) : Tally :=
  let count (l : Level) := records.countP fun r => r.level = l
  ⟨records.length, count .debug, count .info, count .warning, count .error, count .severe⟩

/-- The counts in words, from the most serious level. -/
def render (t : Tally) : String :=
  if t.total = 0 then "no diagnostics"
  else
    let part (n : Nat) (what : String) : List String :=
      if n = 0 then [] else [Text.natText n ++ what]
    ", ".intercalate (part t.severe " severe" ++ part t.errors " error(s)"
      ++ part t.warnings " warning(s)" ++ part t.info " info(s)" ++ part t.debug " debug")

end Tally

end MarkupLint
