import MarkupLint.Text.Integer

/-! # Durations

    A duration is written as decimal numbers with units, such as `1h30m`
    or `2.5s`, and held in nanoseconds. -/

namespace MarkupLint.Calendar

/-- The units of a duration in nanoseconds. -/
def durationUnits : List (String × Nat) :=
  [("ns", 1), ("us", 1000), ("µs", 1000), ("μs", 1000), ("ms", 1000000), ("s", 1000000000),
   ("m", 60000000000), ("h", 3600000000000)]

/-- The longest run of decimal digits at the start of some whose value is at
    most `limit`: the value, and how many digits it has. -/
def digitsWithin (limit n count : Nat) : List Char → Nat × Nat
  | [] => (n, count)
  | c :: rest =>
    match Text.digitValue? 10 c with
    | some d =>
      if n * 10 + d ≤ limit then digitsWithin limit (n * 10 + d) (count + 1) rest else (n, count)
    | none => (n, count)

/-- The nanoseconds in a fraction of a unit, given by its decimal digits.
    Digits past the range of 64-bit integers are dropped; the product is taken
    in binary floating point and cut off. -/
def fractionOf (unit : Nat) (digits : List Char) : Nat :=
  let (value, count) := digitsWithin Text.wordLimit 0 0 digits
  (Float.ofNat value * (Float.ofNat unit / Float.ofNat (Nat.pow 10 count))).toUInt64.toNat

/-- Reads numbers with units until the text ends; the sum so far is `total`. -/
def durationTerms (total : Nat) : Nat → List Char → Option Nat
  | 0, _ => none
  | fuel + 1, s =>
    if s.isEmpty then some total
    else
      let whole := s.takeWhile Char.isDigit
      let rest := s.drop whole.length
      let (fraction, rest) :=
        match rest with
        | '.' :: rest => (rest.takeWhile Char.isDigit, rest.dropWhile Char.isDigit)
        | _ => ([], rest)
      let name := rest.takeWhile fun c => c ≠ '.' && !c.isDigit
      match durationUnits.lookup (String.ofList name) with
      | none => none
      | some unit =>
        let value := (Text.digitsValue? 10 whole).getD 0 * unit + fractionOf unit fraction
        if whole.isEmpty && fraction.isEmpty || Text.wordLimit < total + value then none
        else durationTerms (total + value) fuel (rest.drop name.length)

/-- Reads a duration. -/
def duration? (s : String) : Option Int :=
  let (negative, body) :=
    match s.toList with
    | '-' :: rest => (true, rest)
    | '+' :: rest => (false, rest)
    | cs => (false, cs)
  if body = ['0'] then some 0
  else if body.isEmpty then none
  else
    let value := (durationTerms 0 (body.length + 1) body).map fun n =>
      if negative then -(n : Int) else n
    value.filter Text.fitsWord

end MarkupLint.Calendar
