/-! # Shortest decimals

    The decimal with the fewest digits that reads back as a given binary
    floating-point number, and of those the nearest to it.  Everything is
    exact arithmetic on natural numbers. -/

namespace MarkupLint.Data

/-- The positive number `digits * 10 ^ (point - number of digits)`; the
    digits are those of `0.d₁d₂…`, shifted by `point` places. -/
structure Decimal where
  digits : List Nat
  point : Int
  deriving DecidableEq, Repr

/-- A finite positive binary number `mantissa * 2 ^ exponent`. -/
structure Binary where
  mantissa : Nat
  exponent : Int
  /-- Whether the gap below the number is half the gap above it. -/
  narrowBelow : Bool
  deriving DecidableEq, Repr

namespace Binary

/-- The bit of a mantissa that a double leaves out. -/
def hiddenBit : Nat := 0x10000000000000

/-- The mantissa and the exponent that the bits of a double stand for. -/
def ofBits (bits : Nat) : Binary :=
  let fraction : Nat := bits % hiddenBit
  let biased : Nat := bits / hiddenBit % 2048
  if biased = 0 then ⟨fraction, -1074, false⟩
  else ⟨fraction + hiddenBit, (biased : Int) - 1075, fraction == 0 && biased != 1⟩

/-- `n * 2 ^ e` as a fraction over `2 ^ down`, for `down` at least `-e`. -/
private def scaled (n : Nat) (e : Int) (down : Nat) : Nat := n * Nat.pow 2 (e + down).toNat

/-- Numerators, over one denominator, of the number, of the lower and of
    the upper end of the interval that rounds to it. -/
def interval (b : Binary) : Nat × Nat × Nat × Nat :=
  let down := (2 - b.exponent).toNat
  let value := scaled b.mantissa b.exponent down
  let half := scaled 1 (b.exponent - 1) down
  let below := if b.narrowBelow then half / 2 else half
  (value, value - below, value + half, Nat.pow 2 down)

/-- The power of ten just above the number: the least `k` in the range with
    `num < den * 10 ^ k`. -/
def pointFrom (num den : Nat) : Nat → Int → Int
  | 0, k => k
  | fuel + 1, k =>
    let fits := if 0 ≤ k then num < den * Nat.pow 10 k.toNat
      else num * Nat.pow 10 (-k).toNat < den
    if fits then k else pointFrom num den fuel (k + 1)

/-- Candidates with `count` digits inside the interval, nearest first. -/
def candidates (b : Binary) (point : Int) (count : Nat) : List Nat :=
  let (value, low, high, den) := b.interval
  let unit := point - count
  let up := if 0 ≤ unit then Nat.pow 10 unit.toNat else 1
  let down := if 0 ≤ unit then 1 else Nat.pow 10 (-unit).toNat
  -- A candidate `c` stands for `c * up / down`; compare it with `x / den`.
  let floor := value * down / (den * up)
  let inside (c : Nat) : Bool :=
    let x := c * up * den
    if b.mantissa % 2 = 0 then decide (low * down ≤ x ∧ x ≤ high * down)
    else decide (low * down < x ∧ x < high * down)
  let gapBelow := value * down - floor * up * den
  let gapAbove := (floor + 1) * up * den - value * down
  let order := if gapBelow ≤ gapAbove then [floor, floor + 1] else [floor + 1, floor]
  order.filter fun c => c != 0 && inside c

/-- The digits of a number without the zeros at its end. -/
def significant (n : Nat) : List Nat :=
  ((Nat.toDigits 10 n).map fun c => c.toNat - 48).reverse.dropWhile (· == 0) |>.reverse

/-- The shortest decimal that reads back as `b`. -/
def shortest (b : Binary) : Decimal :=
  let (value, _, _, den) := b.interval
  let point := pointFrom value den 700 (-330)
  let found := (List.range 17).findSome? fun k =>
    (b.candidates point (k + 1)).head?.map fun c => (c, k + 1)
  match found with
  | some (c, count) =>
    let extra : Int := (Nat.toDigits 10 c).length - count
    ⟨significant c, point + extra⟩
  | none => ⟨[0], 0⟩

end Binary

/-- The bit of a double that holds its sign. -/
def signBit : Nat := 0x8000000000000000

/-- The sign and the shortest decimal of a finite number; `none` for zero. -/
def decimalOf (x : Float) : Bool × Option Decimal :=
  let bits := x.toBits.toNat
  let negative := decide (signBit ≤ bits)
  let magnitude := bits % signBit
  (negative, if magnitude = 0 then none else some (Binary.ofBits magnitude).shortest)

/-- The layouts of a decimal number: where positional notation ends and how
    many digits the exponent has at least. -/
structure NumberLayout where
  /-- Positional notation for `leastPoint ≤ point ≤ greatestPoint`. -/
  leastPoint : Int
  greatestPoint : Int
  exponentDigits : Nat

namespace Decimal

private def digitChars (ds : List Nat) : List Char := ds.map fun d => Char.ofNat (48 + d)

/-- Positional notation, with zeros up to the point. -/
def positional (d : Decimal) : List Char :=
  if d.point ≤ 0 then
    '0' :: '.' :: List.replicate (-d.point).toNat '0' ++ digitChars d.digits
  else
    let whole := d.digits.take d.point.toNat
    let rest := d.digits.drop d.point.toNat
    digitChars whole ++ List.replicate (d.point.toNat - whole.length) '0'
      ++ if rest.isEmpty then [] else '.' :: digitChars rest

/-- One digit, a fraction and an exponent with its sign. -/
def scientific (d : Decimal) (exponentDigits : Nat) : List Char :=
  let e := d.point - 1
  let digits := Nat.toDigits 10 e.natAbs
  let lead := digitChars (d.digits.take 1)
  let rest := d.digits.drop 1
  lead ++ (if rest.isEmpty then [] else '.' :: digitChars rest)
    ++ ['e', if e < 0 then '-' else '+']
    ++ List.replicate (exponentDigits - digits.length) '0' ++ digits

/-- The text of a decimal in a layout. -/
def render (layout : NumberLayout) (d : Decimal) : List Char :=
  if layout.leastPoint ≤ d.point ∧ d.point ≤ layout.greatestPoint then d.positional
  else d.scientific layout.exponentDigits

end Decimal

/-- The text of a number in a layout. -/
def floatText (layout : NumberLayout) (x : Float) : String :=
  match decimalOf x with
  | (negative, digits) =>
    let body := (digits.map (·.render layout)).getD ['0']
    String.ofList (if negative then '-' :: body else body)

end MarkupLint.Data
