import MarkupLint.Calendar.Shown
import MarkupLint.Text.Encoding
import MarkupLint.Text.Width

/-! # What libraries decide

    How bytes are decoded, how many columns a text takes on a screen and how
    a date is written are not for this program to say.  They are taken as
    they come, with the little that is relied on. -/

namespace MarkupLint

/-- Decoders, the columns of texts, and dates. -/
structure Conventions where
  decoders : Text.Decoders
  /-- How many columns a text takes. -/
  width : List Char → Nat
  /-- A printable character of ASCII takes one column. -/
  width_printable : ∀ s : List Char,
    (∀ c ∈ s, ' '.toNat ≤ c.toNat ∧ c.toNat ≤ '~'.toNat) → width s = s.length
  /-- A time, in seconds, in a format. -/
  date : Int → List Char → List Char
  /-- Whether a date holds anything, and anything to see, is a matter of its
      format alone. -/
  date_alike : ∀ (time time' : Int) (layout : List Char),
    Text.LookAlike (date time layout) (date time' layout)

/-- The usual conventions; dates are those of universal time. -/
def Conventions.standard : Conventions where
  decoders := .standard
  width := Text.textWidth
  width_printable _ h := Text.textWidth_of_narrow fun c hc => Text.narrow_of_printable (h c hc)
  date time := Calendar.format (.ofSeconds time)
  date_alike time time' :=
    Calendar.lookAlike_format (Calendar.Moment.civil_ofSeconds time)
      (Calendar.Moment.civil_ofSeconds time')

end MarkupLint
