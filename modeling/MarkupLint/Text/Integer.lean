/-! # Decimal integers

    Reading and writing of signed 64-bit integers.  A numeral that does not
    fit is not read: `parseInt` says which of the two ways of failing it is. -/

namespace MarkupLint.Text

/-- Why a text is not read as an integer. -/
inductive IntegerError where
  | malformed
  | outOfRange
  deriving DecidableEq, Repr

/-- The digit a character stands for in a base up to sixteen. -/
def digitValue? (base : Nat) (c : Char) : Option Nat :=
  let v : Option Nat :=
    if '0' ≤ c ∧ c ≤ '9' then some (c.toNat - '0'.toNat)
    else if 'a' ≤ c ∧ c ≤ 'f' then some (c.toNat - 'a'.toNat + 10)
    else if 'A' ≤ c ∧ c ≤ 'F' then some (c.toNat - 'A'.toNat + 10)
    else none
  v.filter (· < base)

/-- The value of a non-empty run of digits. -/
def digitsValue? (base : Nat) (s : List Char) : Option Nat :=
  if s.isEmpty then none
  else s.foldlM (fun n c => (digitValue? base c).map (n * base + ·)) 0

/-- The number of values of a 64-bit integer. -/
def wordSize : Nat := 0x10000000000000000

/-- The least value that is too large for a signed 64-bit integer. -/
def wordLimit : Nat := 0x8000000000000000

/-- Whether a value fits a signed 64-bit integer. -/
def fitsWord (n : Int) : Bool := decide (-(wordLimit : Int) ≤ n ∧ n < wordLimit)

/-- The value a signed 64-bit integer holds after arithmetic gave `n`. -/
def wrapWord (n : Int) : Int := Int.bmod n wordSize

/-- A number of this size is kept in a word as it is. -/
theorem wrapWord_of_fits {n : Int} (h : fitsWord n = true) : wrapWord n = n := by
  have hrange := of_decide_eq_true h
  simp only [wordLimit] at hrange
  exact Int.bmod_eq_of_le (by simp only [wordSize]; omega) (by simp only [wordSize]; omega)

/-- Reads an optional sign and digits of a base as a 64-bit integer. -/
def parseIntBase (base : Nat) (s : List Char) : Except IntegerError Int :=
  let (negative, digits) :=
    match s with
    | '-' :: rest => (true, rest)
    | '+' :: rest => (false, rest)
    | _ => (false, s)
  match digitsValue? base digits with
  | none => .error .malformed
  | some n =>
    let value : Int := if negative then -n else n
    if fitsWord value then .ok value else .error .outOfRange

/-- Reads a decimal 64-bit integer. -/
def parseInt (s : List Char) : Except IntegerError Int := parseIntBase 10 s

/-- The value of a decimal 64-bit integer, if the text is one. -/
def int? (s : List Char) : Option Int := (parseInt s).toOption

/-- The decimal text of an integer. -/
def intText (n : Int) : String :=
  match n with
  | .ofNat k => String.ofList (Nat.toDigits 10 k)
  | .negSucc k => String.ofList ('-' :: Nat.toDigits 10 (k + 1))

/-- The decimal text of a natural number. -/
def natText (n : Nat) : String := String.ofList (Nat.toDigits 10 n)

/-! ## Integer literals

    Integers with a sign, a base given by how the digits start, and
    underscores between digits. -/

/-- The base of a literal without sign, and its digits. -/
def literalBase (s : List Char) : Nat × List Char :=
  match s with
  | '0' :: c :: d :: rest =>
    match c.toLower with
    | 'b' => (2, d :: rest)
    | 'o' => (8, d :: rest)
    | 'x' => (16, d :: rest)
    | _ => (8, c :: d :: rest)
  | '0' :: rest => (8, rest)
  | _ => (10, s)

/-- Whether every underscore stands between two digits; `last` tells whether
    the character before was a digit. -/
def underscoresDivide (last : Bool) : List Char → Bool
  | [] => true
  | '_' :: c :: rest => last && c ≠ '_' && underscoresDivide true rest
  | '_' :: [] => false
  | _ :: rest => underscoresDivide true rest

/-- Whether the underscores of a literal without sign stand where they may;
    one may also follow the letter of the base. -/
def underscoresAllowed (s : List Char) : Bool :=
  match s with
  | '0' :: c :: rest =>
    if "bBoOxX".toList.contains c then underscoresDivide true rest else underscoresDivide false s
  | _ => underscoresDivide false s

/-- The value of digits; reading stops as soon as it is too large. -/
def literalDigits (base n : Nat) : List Char → Except IntegerError Nat
  | [] => .ok n
  | c :: rest =>
    if c = '_' then literalDigits base n rest
    else match digitValue? base c with
      | none => .error .malformed
      | some d =>
        if wordSize ≤ n * base + d then .error .outOfRange
        else literalDigits base (n * base + d) rest

/-- Reads an integer literal as a 64-bit integer. -/
def parseLiteral (s : List Char) : Except IntegerError Int :=
  let (negative, body) :=
    match s with
    | '-' :: rest => (true, rest)
    | '+' :: rest => (false, rest)
    | _ => (false, s)
  if body.isEmpty then .error .malformed
  else
    let (base, digits) := literalBase body
    match literalDigits base 0 digits with
    | .error e => .error e
    | .ok n =>
      let value : Int := if negative then -n else n
      if !underscoresAllowed body then .error .malformed
      else if fitsWord value then .ok value
      else .error .outOfRange

end MarkupLint.Text
