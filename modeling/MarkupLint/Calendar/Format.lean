import MarkupLint.Calendar.Date
import MarkupLint.Text.Integer

/-! # Date formats

    A format is a text in which a percent sign starts a directive: an
    optional flag, an optional modifier and a letter.  A directive that is
    none stands for itself. -/

namespace MarkupLint.Calendar

/-- The names of the days, from Sunday. -/
def dayNames : List String :=
  ["Sunday", "Monday", "Tuesday", "Wednesday", "Thursday", "Friday", "Saturday"]

/-- The names of the months. -/
def monthNames : List String :=
  ["January", "February", "March", "April", "May", "June", "July", "August", "September",
   "October", "November", "December"]

/-- How a number of less than two digits is filled. -/
inductive Fill where
  | zero | space | nothing
  deriving DecidableEq, Repr

/-- A number of at most two digits. -/
def twoDigits (fill : Fill) (n : Nat) : List Char :=
  let digits := (Text.natText n).toList
  if 10 ≤ n then digits
  else match fill with
    | .zero => '0' :: digits
    | .space => ' ' :: digits
    | .nothing => digits

/-- A number filled with zeros up to a width. -/
def wide (width : Nat) (n : Int) : List Char :=
  let digits := (Text.natText n.natAbs).toList
  (if n < 0 then ['-'] else []) ++ List.replicate (width - digits.length) '0' ++ digits

/-- The last two digits of a year; years before the first count as zero. -/
def shortYear (year : Int) : List Char := twoDigits .zero (year.toNat % 100)

/-- The hour on a twelve-hour clock. -/
def Moment.hour12 (m : Moment) : Nat := if m.hour % 12 = 0 then 12 else m.hour % 12

/-- The first three letters of one of some names. -/
def abbreviated (names : List String) (i : Nat) : List Char :=
  ((names[i]?).getD "").toList.take 3

/-- The time of day. -/
def clock (m : Moment) : List Char :=
  twoDigits .zero m.hour ++ ':' :: twoDigits .zero m.minute ++ ':' :: twoDigits .zero m.second

/-- The year, the month and the day. -/
def isoDate (m : Moment) : List Char :=
  wide 4 m.year ++ '-' :: twoDigits .zero m.month ++ '-' :: twoDigits .zero m.day

/-- The half of the day. -/
def half (m : Moment) : List Char := (if m.hour < 12 then "AM" else "PM").toList

/-- The day of the week, the date and the time of day. -/
def stamp (m : Moment) : List Char :=
  abbreviated dayNames m.weekday ++ ' ' :: abbreviated monthNames (m.month - 1)
    ++ ' ' :: twoDigits .space m.day ++ ' ' :: clock m

/-- What a letter with a flag stands for at any moment. -/
def fixed? (flag : Option Char) (letter : Char) : Option (List Char) :=
  match letter with
  | 'L' => some "000".toList
  | 'f' => some "000000".toList
  | 'N' => some "000000000".toList
  | 'z' => some (if flag = some ':' then "+00:00" else "+0000").toList
  | 'Z' => some "UTC".toList
  | '%' => some ['%']
  | 't' => some ['\t']
  | 'n' => some ['\n']
  | _ => none

/-- What a letter with a flag shows of a moment. -/
def field? (flag : Option Char) (letter : Char) : Option (Moment → List Char) :=
  let fill : Fill := if flag.isSome then .nothing else .zero
  match letter with
  | 'A' => some fun m => ((dayNames[m.weekday]?).getD "").toList
  | 'a' => some fun m => abbreviated dayNames m.weekday
  | 'B' => some fun m => ((monthNames[m.month - 1]?).getD "").toList
  | 'b' | 'h' => some fun m => abbreviated monthNames (m.month - 1)
  | 'm' => some fun m => twoDigits fill m.month
  | 'd' => some fun m => twoDigits fill m.day
  | 'e' => some fun m => twoDigits .space m.day
  | 'I' => some fun m => twoDigits fill m.hour12
  | 'l' => some fun m => twoDigits .space m.hour12
  | 'H' => some fun m => twoDigits fill m.hour
  | 'k' => some fun m => twoDigits .space m.hour
  | 'M' => some fun m => twoDigits fill m.minute
  | 'S' => some fun m => twoDigits fill m.second
  | 'y' => some fun m => shortYear m.year
  | 'Y' => some fun m => wide 4 m.year
  | 'C' => some fun m => (wide 4 m.year).dropLast.dropLast
  | 'U' => some fun m => twoDigits fill (m.weekNumber true)
  | 'W' => some fun m => twoDigits fill (m.weekNumber false)
  | 'V' => some fun m => twoDigits fill m.isoWeek.2
  | 'g' => some fun m => shortYear m.isoWeek.1
  | 'G' => some fun m => wide 4 m.isoWeek.1
  | 's' => some fun m => (Text.intText m.seconds).toList
  | 'Q' => some fun m => (Text.intText (m.seconds * 1000)).toList
  | 'w' => some fun m => (Text.natText m.weekday).toList
  | 'u' => some fun m => (Text.natText (if m.weekday = 0 then 7 else m.weekday)).toList
  | 'j' => some fun m =>
    if flag = some '-' then (Text.natText m.yearDay).toList else wide 3 m.yearDay
  | 'p' => some half
  | 'P' => some fun m => (half m).map Char.toLower
  | '+' => some fun m => stamp m ++ " UTC ".toList ++ wide 4 m.year
  | 'c' => some fun m => stamp m ++ ' ' :: wide 4 m.year
  | 'v' => some fun m => twoDigits .space m.day ++ '-' :: abbreviated monthNames (m.month - 1)
      ++ '-' :: wide 4 m.year
  | 'F' => some isoDate
  | 'D' | 'x' => some fun m => twoDigits .zero m.month ++ '/' :: twoDigits .zero m.day
      ++ '/' :: shortYear m.year
  | 'r' => some fun m => twoDigits .zero m.hour12 ++ ':' :: twoDigits .zero m.minute
      ++ ':' :: twoDigits .zero m.second ++ ' ' :: half m
  | 'T' | 'X' => some clock
  | 'R' => some fun m => twoDigits .zero m.hour ++ ':' :: twoDigits .zero m.minute
  | _ => none

/-- What a letter with a flag stands for; none if it stands for nothing. -/
def directive? (m : Moment) (flag : Option Char) (letter : Char) : Option (List Char) :=
  fixed? flag letter <|> (field? flag letter).map (· m)

/-- Whether a modifier may precede a letter. -/
def modifies (modifier letter : Char) : Bool :=
  (if modifier = 'E' then "cCxXyY" else "deHImMSuUVwWy").toList.contains letter

/-- A part of a format. -/
inductive Part where
  | text (s : List Char)
  /-- A directive, and what it stands for if it is none. -/
  | directive (flag : Option Char) (letter : Char) (usual : List Char)

/-- The parts of a format. -/
def parts : List Char → List Part
  | [] => []
  | ['%'] => [.text ['%']]
  | '%' :: c :: rest =>
    if c = '-' || c = ':' then
      match rest with
      | [] => [.text ['%', c]]
      | d :: rest =>
        if d = 'E' || d = 'O' then
          match rest with
          | [] => [.text ['%', c, d]]
          | e :: rest =>
            (if modifies d e then .directive (some c) e ['%', c, d, e] else .text ['%', c, d, e])
              :: parts rest
        else .directive (some c) d ['%', c, d] :: parts rest
    else if c = 'E' || c = 'O' then
      match rest with
      | [] => [.text ['%', c]]
      | d :: rest =>
        (if modifies c d then .directive none d ['%', c, d] else .text ['%', c, d]) :: parts rest
    else .directive none c ['%', c] :: parts rest
  | c :: rest => .text [c] :: parts rest

/-- What a part of a format shows of a moment. -/
def Part.shown (m : Moment) : Part → List Char
  | .text s => s
  | .directive flag letter usual => (directive? m flag letter).getD usual

/-- Formats a moment. -/
def format (m : Moment) (layout : List Char) : List Char := (parts layout).flatMap (Part.shown m)

end MarkupLint.Calendar
