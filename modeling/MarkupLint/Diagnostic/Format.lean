import MarkupLint.Text.Choice

/-! # Output formats -/

namespace MarkupLint

/-- How a report is written. -/
inductive OutputFormat where
  | text
  | json
  deriving DecidableEq, Repr, Inhabited

namespace OutputFormat

/-- The name of a format. -/
def name : OutputFormat → String
  | .text => "text"
  | .json => "json"

/-- The formats by name. -/
def named : List (String × OutputFormat) := [("text", .text), ("json", .json)]

/-- Reads the name of a format. -/
def parse (word : String) : Except Text.UnknownName OutputFormat :=
  Text.choose "format" "text or json" named word

end OutputFormat

/-- When a report in text is coloured. -/
inductive ColourMode where
  /-- When it is written to a terminal. -/
  | auto
  | on
  | off
  deriving DecidableEq, Repr, Inhabited

namespace ColourMode

/-- The name of a mode. -/
def name : ColourMode → String
  | .auto => "auto"
  | .on => "on"
  | .off => "off"

/-- The modes by name. -/
def named : List (String × ColourMode) :=
  [("", .auto), ("auto", .auto), ("on", .on), ("always", .on), ("off", .off), ("never", .off)]

/-- Reads the name of a mode. -/
def parse (word : String) : Except Text.UnknownName ColourMode :=
  Text.choose "color mode" "auto, on or off" named word

end ColourMode

end MarkupLint
