import MarkupLint.Text.Choice
import MarkupLint.Text.Integer

/-! # Levels

    How serious a diagnostic is.  Five levels have names; any other rank
    can be asked for as a threshold or by a custom directive, and orders
    like a number. -/

namespace MarkupLint

/-- The seriousness of a diagnostic. -/
structure Level where
  rank : Int
  deriving DecidableEq, Repr, Inhabited

namespace Level

instance : LE Level := ⟨fun a b => a.rank ≤ b.rank⟩
instance : LT Level := ⟨fun a b => a.rank < b.rank⟩
instance (a b : Level) : Decidable (a ≤ b) := inferInstanceAs (Decidable (a.rank ≤ b.rank))
instance (a b : Level) : Decidable (a < b) := inferInstanceAs (Decidable (a.rank < b.rank))

/-- Reserved for tracing. -/
def debug : Level := ⟨0⟩
/-- A note that needs no attention. -/
def info : Level := ⟨1⟩
/-- A likely mistake. -/
def warning : Level := ⟨2⟩
/-- A definite markup error. -/
def error : Level := ⟨3⟩
/-- A structural error. -/
def severe : Level := ⟨4⟩
/-- A halt level that no named level reaches. -/
def never : Level := ⟨5⟩

/-- The five named levels, from the least serious. -/
def named : List (Level × String) :=
  [(debug, "DEBUG"), (info, "INFO"), (warning, "WARNING"), (error, "ERROR"), (severe, "SEVERE")]

/-- Whether the level is one of the five. -/
def isNamed (l : Level) : Bool := named.any (·.1 = l)

/-- The upper-case name of a level. -/
def name (l : Level) : String :=
  match named.find? (·.1 = l) with
  | some (_, name) => name
  | none => "LEVEL(" ++ Text.intText l.rank ++ ")"

/-- The lower-case names of the five levels. -/
def allNames : List String := named.map fun p => Text.lowerString p.2

/-- The words for the levels. -/
def words : List (String × Level) :=
  [("debug", debug), ("info", info), ("warning", warning), ("warn", warning), ("error", error),
   ("err", error), ("severe", severe)]

/-- Reads the name of a level. -/
def parse (word : String) : Except Text.UnknownName Level :=
  Text.choose "level" "debug, info, warning, error or severe" words word

end Level

/-- How serious a complaint about markup is. -/
inductive Severity where
  | info
  | warning
  | error
  | severe
  deriving DecidableEq, Repr

/-- The level of a severity. -/
def Severity.level : Severity → Level
  | .info => .info
  | .warning => .warning
  | .error => .error
  | .severe => .severe

instance : Coe Severity Level := ⟨Severity.level⟩

end MarkupLint
