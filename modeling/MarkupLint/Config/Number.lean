import MarkupLint.Text.Integer

/-! # Numerals

    Integers and fractions as configuration files write them. -/

namespace MarkupLint.Numeral

/-- The value of digits in which single underscores may stand between two
    digits. -/
def grouped? (base : Nat) (s : List Char) : Option Nat :=
  let rec digits : Nat → List Char → Option Nat
    | n, [] => some n
    | n, '_' :: c :: rest => (Text.digitValue? base c).bind fun d => digits (n * base + d) rest
    | n, c :: rest => (Text.digitValue? base c).bind fun d => digits (n * base + d) rest
  match s with
  | [] => none
  | c :: rest => (Text.digitValue? base c).bind fun d => digits d rest

/-- The sign of a numeral and the rest. -/
def signed : List Char → Bool × List Char
  | '-' :: rest => (true, rest)
  | '+' :: rest => (false, rest)
  | s => (false, s)

/-- The digits of a numeral in another base, by the letter that marks it. -/
def radix? : List Char → Option (Nat × List Char)
  | '0' :: 'x' :: rest => some (16, rest)
  | '0' :: 'o' :: rest => some (8, rest)
  | '0' :: 'b' :: rest => some (2, rest)
  | _ => none

/-- A value with its sign, if it fits a 64-bit integer. -/
def word? (negative : Bool) (n : Nat) : Option Int :=
  let value : Int := if negative then -n else n
  if Text.fitsWord value then some value else none

/-- The floating-point value of `digits · 10 ^ exponent`. -/
def scientific (negative : Bool) (digits : Nat) (exponent : Int) : Float :=
  let x := if 0 ≤ exponent then Float.ofScientific digits false (min exponent.toNat 400)
    else Float.ofScientific digits true (min (-exponent).toNat 1000)
  if negative then -x else x

/-- The parts of a fraction: the digits before and after the point, if there
    is one, and the exponent, if there is one. -/
def parts (s : List Char) : List Char × Option (List Char) × Option (List Char) :=
  let isMark (c : Char) : Bool := c = 'e' || c = 'E'
  let mantissa := s.takeWhile (!isMark ·)
  let exponent := if mantissa.length < s.length then some (s.drop (mantissa.length + 1)) else none
  let whole := mantissa.takeWhile (· ≠ '.')
  let fraction :=
    if whole.length < mantissa.length then some (mantissa.drop (whole.length + 1)) else none
  (whole, fraction, exponent)

end MarkupLint.Numeral
