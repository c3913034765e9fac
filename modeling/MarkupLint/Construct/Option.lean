import MarkupLint.Text.Blank
import MarkupLint.Text.Case
import MarkupLint.Text.Integer
import MarkupLint.Text.Search

/-! # Option values

    A directive says for each of its options how the value is checked and
    normalized.  A refusal is a text that completes the complaint. -/

namespace MarkupLint

/-- How the value of an option is read. -/
inductive Converter where
  | flag
  | unchanged
  | unchangedRequired
  | nonNegativeInt
  | positiveInt
  | integer
  | uri
  | classes
  | choice (values : List String)
  | length
  | lengthOrPercentage
  | percentage
  | singleChar
  | characterCode
  /-- As an application reads it. -/
  | custom (convert : String → Except String String)

namespace Converter

/-- An option's value, or why it is refused. -/
abbrev Conversion := Except String String

private def required : String := "argument required but none supplied"

/-- An integer in its shortest form. -/
def integerText (s : String) : Except String Int :=
  match Text.int? (Text.trim s.toList) with
  | some n => .ok n
  | none => .error ("invalid literal for int(): " ++ s)

/-- An integer that is not negative. -/
def nonNegative (s : String) : Except String Int := do
  let n ← integerText s
  if n < 0 then .error "negative value; must be positive or zero" else .ok n

/-- Values between quotes, as a choice. -/
def alternatives (values : List String) : String :=
  let quoted := values.map fun v => "\"" ++ v ++ "\""
  match quoted.reverse with
  | last :: b :: before => ", ".intercalate (b :: before).reverse ++ ", or " ++ last
  | _ => String.join quoted

/-- The units of length. -/
def lengthUnits : List String := ["em", "ex", "px", "in", "cm", "mm", "pt", "pc"]

/-- Whether digits and points make up a number: at most one point, at least
    one digit, and no more than a double can hold. -/
def isNumeral (s : List Char) : Bool :=
  s.any Char.isDigit && decide (s.count '.' ≤ 1)
    && decide ((Text.digitsValue? 10 (s.takeWhile (· ≠ '.'))).getD 0 < Nat.pow 2 1024 - Nat.pow 2 970)

/-- A number followed by one of some units. -/
def measure (s : String) (units : List String) : Conversion :=
  let text := Text.trim s.toList
  let isNumber (c : Char) : Bool := c.isDigit || c = '.'
  let number := text.takeWhile isNumber
  let unit := (text.drop number.length).dropWhile (· == ' ')
  if isNumeral number && units.contains (String.ofList unit) then
    .ok (String.ofList (number ++ unit))
  else
    .error ("not a positive measure of one of the following units:\n"
      ++ " ".intercalate (units.map fun u => "\"" ++ u ++ "\""))

/-- The hexadecimal digits of a character code such as `0x41`, `U+41` or
    `&#x41;`. -/
def hexCode? (s : List Char) : Option (List Char) :=
  let isHex (cs : List Char) : Bool := !cs.isEmpty && cs.all fun c => (Text.digitValue? 16 c).isSome
  let after (lead : String) : Option (List Char) :=
    match Text.dropStart? lead.toList (s.map Char.toLower) with
    | some rest => if isHex rest then some rest else none
    | none => none
  match ["0x", "x", "\\x", "u+", "u", "\\u"].findSome? after with
  | some digits => some digits
  | none =>
    match Text.dropStart? "&#x".toList (s.map Char.toLower) with
    | some rest =>
      if rest.getLast? = some ';' && isHex rest.dropLast then some rest.dropLast else none
    | none => none

/-- The character a code stands for; one that is none stands for the
    replacement character. -/
def characterOf (n : Nat) : Char := if n.isValidChar then Char.ofNat n else '\ufffd'

/-- A character code as the character, anything else as it is. -/
def character (s : String) : Conversion :=
  let cs := s.toList
  let value : Option (Option Nat) :=
    match hexCode? cs with
    | some digits => some (Text.digitsValue? 16 digits)
    | none => if !cs.isEmpty && cs.all Char.isDigit then some (Text.digitsValue? 10 cs) else none
  match value with
  | none => .ok s
  | some none => .error "code too large"
  | some (some n) =>
    if n ≤ 0x10FFFF then .ok (String.ofList [characterOf n]) else .error "code too large"

/-- Class names in lower case, divided by single spaces. -/
def classNames (s : String) : Conversion :=
  if Text.isBlank s.toList then .error required
  else .ok (String.ofList (Text.collapse (Text.lower s.toList)))

/-- Reads the value of an option. -/
def convert (c : Converter) (s : String) : Conversion :=
  match c with
  | .flag =>
    if Text.isBlank s.toList then .ok ""
    else .error ("no argument is allowed; \"" ++ s ++ "\" supplied")
  | .unchanged => .ok s
  | .unchangedRequired => if s = "" then .error required else .ok s
  | .nonNegativeInt => (nonNegative s).map Text.intText
  | .positiveInt => do
    let n ← nonNegative s
    if n = 0 then .error "negative or zero value; must be positive" else .ok (Text.intText n)
  | .integer => (integerText s).map Text.intText
  | .uri => if Text.isBlank s.toList then .error required
    else .ok (String.ofList (Text.squeeze s.toList))
  | .classes => classNames s
  | .choice values =>
    let v := String.ofList (Text.lower (Text.trim s.toList))
    if values.contains v then .ok v
    else .error ("\"" ++ s ++ "\" unknown; choose from " ++ alternatives values)
  | .length => measure s (lengthUnits ++ [""])
  | .lengthOrPercentage =>
    match measure s (lengthUnits ++ ["%"]), measure s [""] with
    | .ok v, _ => .ok v
    | .error _, .ok v => .ok v
    | .error e, .error _ => .error e
  | .percentage =>
    (nonNegative (String.ofList
      (Text.dropRightWhile (fun c => c = ' ' || c = '%') s.toList))).map Text.intText
  | .singleChar => do
    let c ← character s
    if c.length = 1 then .ok c
    else .error ("'" ++ c ++ "' invalid; must be a single character or a Unicode code")
  | .characterCode => character s
  | .custom convert => convert s

end Converter

end MarkupLint
