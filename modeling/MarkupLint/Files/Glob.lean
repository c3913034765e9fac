import MarkupLint.Text.Search

/-! # Glob patterns

    A star stands for any characters but a slash, a question mark for one
    character but a slash, and brackets for one character of a class.  A
    backslash takes the next character as it is. -/

namespace MarkupLint

/-- One part of a glob pattern. -/
inductive GlobItem where
  | star
  | any
  | literal (c : Char)
  | ranges (negated : Bool) (members : List (Char × Char))
  deriving DecidableEq, Repr

namespace Glob

/-- A character of a class, which may be escaped; it is never the last of
    the pattern. -/
def classChar? : List Char → Option (Char × List Char)
  | '\\' :: c :: d :: rest => some (c, d :: rest)
  | c :: d :: rest => if c = '\\' || c = '-' || c = ']' then none else some (c, d :: rest)
  | _ => none

/-- The members of a class up to its closing bracket, at most `count` of
    them, and what follows.  A class has at least one member. -/
def classMembers? : Nat → List Char → Option (List (Char × Char) × List Char)
  | 0, _ => none
  | count + 1, s => do
    let (low, rest) ← classChar? s
    let (high, rest) ← match rest with
      | '-' :: more => classChar? more
      | _ => some (low, rest)
    match rest with
    | ']' :: after => some ([(low, high)], after)
    | _ =>
      let (members, after) ← classMembers? count rest
      some ((low, high) :: members, after)

/-- The items of a pattern, at most `count` of them; none if the pattern is
    malformed. -/
def itemsWithin? : Nat → List Char → Option (List GlobItem)
  | _, [] => some []
  | 0, _ => none
  | count + 1, c :: rest =>
    match c with
    | '*' => (itemsWithin? count rest).map (.star :: ·)
    | '?' => (itemsWithin? count rest).map (.any :: ·)
    | '\\' =>
      match rest with
      | d :: more => (itemsWithin? count more).map (.literal d :: ·)
      | [] => none
    | '[' => do
      let (negated, rest) := match rest with
        | '^' :: more => (true, more)
        | _ => (false, rest)
      let (members, after) ← classMembers? rest.length rest
      return .ranges negated members :: (← itemsWithin? count after)
    | _ => (itemsWithin? count rest).map (.literal c :: ·)

/-- The items of a pattern; none if the pattern is malformed. -/
def items? (pattern : List Char) : Option (List GlobItem) := itemsWithin? pattern.length pattern

/-- Whether a class holds a character. -/
def inRanges (negated : Bool) (members : List (Char × Char)) (c : Char) : Bool :=
  (members.any fun m => m.1 ≤ c && c ≤ m.2) != negated

/-- Whether items match the whole of a text. -/
def isMatch : List GlobItem → List Char → Bool
  | [], s => s.isEmpty
  | .star :: items, [] => isMatch items []
  | .star :: items, c :: s =>
    isMatch items (c :: s) || c ≠ '/' && isMatch (.star :: items) s
  | .any :: items, c :: s => c ≠ '/' && isMatch items s
  | .literal d :: items, c :: s => c == d && isMatch items s
  | .ranges negated members :: items, c :: s => inRanges negated members c && isMatch items s
  | _ :: _, [] => false
termination_by items s => (items.length, s.length)

/-- Whether a path has a character that is special in patterns. -/
def hasSpecial (p : List Char) : Bool := p.any fun c => c = '*' || c = '?' || c = '['

end Glob

end MarkupLint
