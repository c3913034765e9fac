import MarkupLint.Text.Blank
import MarkupLint.Text.Letter
import MarkupLint.Text.Punctuation
import MarkupLint.Text.Search

/-! # Inline tokens

    A text is cut into tokens before its markup is looked for.  At each
    position the first rule of a fixed list that matches gives the token,
    and the last rule takes any character, so the tokens tile the text. -/

namespace MarkupLint.Inline

/-- What a token is. -/
inductive TokenKind where
  | escape | literal | strong | emphasis | role | targetStart | backquote | pipe | underscore
  | word | space | punct
  deriving DecidableEq, Repr

/-- A token and where it starts. -/
structure Token where
  kind : TokenKind
  start : Nat
  text : List Char
  deriving DecidableEq, Repr

/-- Where a token ends. -/
def Token.stop (t : Token) : Nat := t.start + t.text.length

/-- The length of a role name between colons at the start of a text. -/
def roleLength? (s : List Char) : Option Nat :=
  match s with
  | ':' :: rest => (go rest.length rest).map (· + 1)
  | _ => none
where
  /-- The length up to and with the closing colon, at most `count` runs of
      letters and digits further on. -/
  go : Nat → List Char → Option Nat
    | 0, _ => none
    | count + 1, s =>
      let run := s.takeWhile Char.isAlphanum
      if run.isEmpty then none
      else match s.drop run.length with
        | c :: rest =>
          if c = ':' then some (run.length + 1)
          else if c = '-' || c = '.' || c = '_' || c = '+' then
            (go count rest).map (run.length + 1 + ·)
          else none
        | [] => none

/-- The kind and the length of the token a non-empty text starts with. -/
def tokenAt (c : Char) (rest : List Char) : TokenKind × Nat :=
  let s := c :: rest
  if c = '\\' && !rest.isEmpty then (.escape, 2)
  else if Text.startsWith ['\x60', '\x60'] s then (.literal, 2)
  else if Text.startsWith ['*', '*'] s then (.strong, 2)
  else if c = '*' then (.emphasis, 1)
  else if let some k := roleLength? s then (.role, k)
  else if Text.startsWith ['_', '\x60'] s then (.targetStart, 2)
  else if c = '\x60' then (.backquote, 1)
  else if c = '|' then (.pipe, 1)
  else if c = '_' then (.underscore, (s.takeWhile (· == '_')).length)
  else if Text.isWordChar c then (.word, (s.takeWhile Text.isWordChar).length)
  else if Text.isPatternSpace c then (.space, (s.takeWhile Text.isPatternSpace).length)
  else (.punct, 1)

/-- The tokens of a text that starts at a position. -/
def tokensFrom (position : Nat) (s : List Char) : List Token :=
  match s with
  | [] => []
  | c :: rest =>
    let (kind, length) := tokenAt c rest
    ⟨kind, position, c :: rest.take (length - 1)⟩
      :: tokensFrom (position + 1 + (rest.take (length - 1)).length) (rest.drop (length - 1))
termination_by s.length
decreasing_by
  simp only [List.length_drop, List.length_cons]
  omega

/-- The tokens of a text. -/
def tokens (s : List Char) : List Token := tokensFrom 0 s

/-! ## Where inline markup may start and end

    A start-string has to follow white space, the start of the text or
    opening punctuation, and something has to follow it; an end-string the
    other way round.  A start-string between matching quotes is just text. -/

/-- Whether a character may precede a start-string. -/
def mayPrecede (c : Char) : Bool :=
  Text.isBlankChar c || "-:/'\"<([\x7b".toList.contains c || Text.Punctuation.isOpen c
    || Text.Punctuation.isInitialQuote c || Text.Punctuation.isFinalQuote c
    || Text.Punctuation.isDash c

/-- Whether a character may follow an end-string. -/
def mayFollow (c : Char) : Bool :=
  Text.isBlankChar c || "-.,:;!?\\/'\")]\x7d>".toList.contains c || Text.Punctuation.isClose c
    || Text.Punctuation.isInitialQuote c || Text.Punctuation.isFinalQuote c
    || Text.Punctuation.isDash c || Text.Punctuation.isOther c

/-- The quotes and brackets that come in pairs. -/
def quotePairs : List (Char × Char) :=
  [('\x27', '\x27'), ('"', '"'), ('(', ')'), ('[', ']'), ('\x7b', '\x7d'), ('<', '>'),
   ('\u2018', '\u2019'), ('\u201c', '\u201d'), ('\u00ab', '\u00bb'), ('\u2039', '\u203a')]

/-- Whether two characters are a matching pair of quotes or brackets. -/
def matchingQuotes (before after : Char) : Bool :=
  quotePairs.contains (before, after)
    || (Text.Punctuation.isInitialQuote before && Text.Punctuation.isFinalQuote after)

/-- A text with fast access to the characters around a position. -/
structure Scan where
  chars : Array Char

namespace Scan

/-- The character before a position. -/
def before? (s : Scan) (i : Nat) : Option Char := if i = 0 then none else s.chars[i - 1]?

/-- The character at a position. -/
def after? (s : Scan) (i : Nat) : Option Char := s.chars[i]?

/-- The characters from one position up to another. -/
def slice (s : Scan) (start stop : Nat) : List Char := (s.chars.extract start stop).toList

/-- Whether a start-string from `start` to `stop` stands where it may. -/
def startOk (s : Scan) (start stop : Nat) : Bool :=
  match s.after? stop with
  | none => false
  | some after =>
    !Text.isBlankChar after && match s.before? start with
      | none => true
      | some before => mayPrecede before && !matchingQuotes before after

/-- Whether nothing, or something that may follow, comes after a position. -/
def endsAt (s : Scan) (stop : Nat) : Bool :=
  match s.after? stop with
  | none => true
  | some after => mayFollow after

/-- Whether an end-string from `start` to `stop` stands where it may. -/
def endOk (s : Scan) (start stop : Nat) : Bool :=
  match s.before? start with
  | none => false
  | some before => !Text.isBlankChar before && s.endsAt stop

/-- Whether a space, tab or line feed comes before a position. -/
def spaceBefore (s : Scan) (i : Nat) : Bool :=
  match s.before? i with
  | some c => c = ' ' || c = '\n' || c = '\t'
  | none => false

end Scan

end MarkupLint.Inline
