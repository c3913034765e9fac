import MarkupLint.Diagnostic.Level
import MarkupLint.Inline.Token
import MarkupLint.Inline.Uri

/-! # Pieces of inline markup

    Finding the markup of a text depends on the text alone.  The result is
    a list of pieces, each with the span of the text it stands for; what
    lies between them is plain text. -/

namespace MarkupLint.Inline

/-- How a reference is marked: by a name or as one of the anonymous ones. -/
inductive Mark where
  | named | anonymous
  deriving DecidableEq, Repr

/-- What a piece is. -/
inductive Form where
  /-- A standalone address. -/
  | uri
  | literal (text : List Char)
  | emphasis (text : List Char)
  | strong (text : List Char)
  /-- Interpreted text and its role, empty for the default one. -/
  | interpreted (role inner : List Char)
  /-- A reference in backquotes. -/
  | phrase (inner : List Char) (mark : Mark)
  | reference (name : List Char) (mark : Mark)
  /-- A substitution reference, itself a reference if it is marked. -/
  | substitution (name : List Char) (mark : Option Mark)
  | target (name : List Char)
  /-- Markup that goes wrong. -/
  | problem (level : Severity) (message : String)
  deriving DecidableEq, Repr

/-- A piece with its span. -/
structure Piece where
  start : Nat
  stop : Nat
  form : Form
  deriving DecidableEq, Repr

/-- Removes the backslashes of escapes, and escaped white space with them. -/
def unescape : List Char → List Char
  | [] => []
  | '\\' :: c :: rest => if c = ' ' || c = '\n' then unescape rest else c :: unescape rest
  | c :: rest => c :: unescape rest

/-- A text with its tokens. -/
structure Source where
  scan : Scan
  tokens : Array Token

namespace Source

/-- A text to be scanned. -/
def ofChars (s : List Char) : Source := ⟨⟨s.toArray⟩, (Inline.tokens s).toArray⟩

/-- The length of the text. -/
def length (x : Source) : Nat := x.scan.chars.size

/-- Whether the token at an index is of a kind. -/
def is (x : Source) (k : Nat) (kind : TokenKind) : Bool :=
  match x.tokens[k]? with
  | some t => t.kind = kind
  | none => false

/-- Where the token at an index starts; the end of the text beyond the last. -/
def start (x : Source) (k : Nat) : Nat := ((x.tokens[k]?).map Token.start).getD x.length

/-- Where the token at an index ends. -/
def stop (x : Source) (k : Nat) : Nat := ((x.tokens[k]?).map Token.stop).getD x.length

/-- The text of the token at an index. -/
def text (x : Source) (k : Nat) : List Char := ((x.tokens[k]?).map Token.text).getD []

/-- The first index from `k` on that satisfies a condition, with what the
    condition gives there. -/
def search {α : Type} (x : Source) (k : Nat) (p : Nat → Option α) : Option α :=
  (List.range' k (x.tokens.size - k)).findSome? p

/-- The index of the token that ends what starts at `k`. -/
def findEnd (x : Source) (k : Nat) (kind : TokenKind) : Option Nat :=
  x.search (k + 2) fun j =>
    if x.is j kind && x.scan.endOk (x.start j) (x.stop j) then some j else none

/-- A run of underscores that marks a reference, right at index `k`. -/
def mark? (x : Source) (k : Nat) : Option Mark :=
  if x.is k .underscore then
    match (x.text k).length with
    | 1 => some .named
    | 2 => some .anonymous
    | _ => none
  else none

/-- The role name of a role token. -/
def roleName (x : Source) (k : Nat) : List Char :=
  Text.dropRightWhile (· == ':') ((x.text k).dropWhile (· == ':'))

/-- What a step of the scan finds: a piece or nothing, and the index of the
    token to go on with. -/
abbrev Found := Option Piece × Nat

/-- A start-string without its end-string. -/
def unclosed (start stop : Nat) (what : String) : Piece :=
  ⟨start, stop, .problem .warning ("Inline " ++ what ++ " start-string without end-string.")⟩

/-- Markup that ends with a token of kind `kind` and contains no markup. -/
def enclosed (x : Source) (k : Nat) (kind : TokenKind) (what : String)
    (form : List Char → Form) : Found :=
  let first := x.start k
  let inner := x.stop k
  if !x.scan.startOk first inner then (none, k + 1)
  else
    match x.findEnd k kind with
    | some j => (some ⟨first, x.stop j, form (x.scan.slice inner (x.start j))⟩, j + 1)
    | none => (some (unclosed first inner what), k + 1)

/-- The role or the reference mark right after the backquote at `j`: the
    role name, the mark, and the index after both. -/
def trailer (x : Source) (j : Nat) : List Char × Option Mark × Nat :=
  if x.is (j + 1) .role then (x.roleName (j + 1), none, j + 2)
  else match x.mark? (j + 1) with
    | some m => ([], some m, j + 2)
    | none => ([], none, j + 1)

/-- Interpreted text and phrase references.  The markup starts with token
    `k`; `quote` is the index of its opening backquote. -/
def interpreted (x : Source) (k quote : Nat) : Found :=
  let first := x.start k
  let inner := x.stop quote
  if !x.scan.startOk first inner then (none, k + 1)
  else
    let lead := if quote = k then [] else x.roleName k
    let closing := x.search (quote + 2) fun j =>
      if !x.is j .backquote || x.scan.spaceBefore (x.start j) then none
      else
        let (trail, mark, next) := x.trailer j
        let stop := if j + 1 < next then x.stop (next - 1) else x.start j + 1
        if !x.scan.endsAt stop then none
        else
          let content := x.scan.slice inner (x.start j)
          let form : Form := match mark with
            | some m =>
              if lead.isEmpty then .phrase content m
              else .problem .error
                "Mismatch: both interpreted text role prefix and reference suffix."
            | none =>
              if !lead.isEmpty && !trail.isEmpty then
                .problem .error ("Multiple roles in interpreted text (both prefix and suffix "
                  ++ "present; only one allowed).")
              else .interpreted (if lead.isEmpty then trail else lead) content
          some (⟨first, stop, form⟩, next)
    match closing with
    | some (piece, next) => (some piece, next)
    | none => (some (unclosed first inner "interpreted text or phrase reference"), quote + 1)

/-- A substitution reference. -/
def substitution (x : Source) (k : Nat) : Found :=
  let first := x.start k
  let inner := x.stop k
  if !x.scan.startOk first inner then (none, k + 1)
  else
    let closing := x.search (k + 2) fun j =>
      if !x.is j .pipe || x.scan.spaceBefore (x.start j) then none
      else
        let mark := x.mark? (j + 1)
        let stop := if mark.isSome then x.stop (j + 1) else x.start j + 1
        if !x.scan.endsAt stop then none
        else
          let name := unescape (x.scan.slice inner (x.start j))
          some (⟨first, stop, .substitution name mark⟩, if mark.isSome then j + 2 else j + 1)
    match closing with
    | some (piece, next) => (some piece, next)
    | none => (some (unclosed first inner "substitution_reference"), k + 1)

/-- The index of the last word of a simple name that starts with the word
    at `k`, at most `count` words further on. -/
def lastWord (x : Source) : Nat → Nat → Nat
  | 0, k => k
  | count + 1, k =>
    let joins := (x.is (k + 1) .punct || x.is (k + 1) .underscore)
      && match x.text (k + 1) with
        | [c] => "-.+:_".toList.contains c
        | _ => false
    if joins && x.is (k + 2) .word then lastWord x count (k + 2) else k

/-- A reference by a simple name. -/
def simpleReference (x : Source) (k : Nat) : Found :=
  let first := x.start k
  let begins := match x.scan.before? first with
    | some c => mayPrecede c
    | none => true
  if !begins then (none, k + 1)
  else
    let j := x.lastWord x.tokens.size k
    match x.mark? (j + 1) with
    | some m =>
      let stop := x.stop (j + 1)
      if x.scan.endsAt stop then
        (some ⟨first, stop, .reference (x.scan.slice first (x.start (j + 1))) m⟩, j + 2)
      else (none, j + 1)
    | none => (none, j + 1)

/-- The markup that starts with the token at an index, if any. -/
def dispatch (x : Source) (k : Nat) (t : Token) : Found :=
  match t.kind with
  | .literal => x.enclosed k .literal "literal" .literal
  | .strong => x.enclosed k .strong "strong" fun s => .strong (unescape s)
  | .emphasis => x.enclosed k .emphasis "emphasis" fun s => .emphasis (unescape s)
  | .role => if x.is (k + 1) .backquote then x.interpreted k (k + 1) else (none, k + 1)
  | .backquote => x.interpreted k k
  | .targetStart => x.enclosed k .backquote "internal target" fun s => .target (unescape s)
  | .pipe => x.substitution k
  | .word => x.simpleReference k
  | _ => (none, k + 1)

/-- The index of the first token that starts at or after a position. -/
def tokenFrom (x : Source) (position : Nat) : Nat :=
  (x.tokens.findIdx? (position ≤ ·.start)).getD x.tokens.size

/-- The pieces from the token at index `k` on.  Everything before position
    `flushed` is dealt with. -/
def piecesFrom (x : Source) (addresses : List (Nat × Nat)) (k flushed : Nat) : List Piece :=
  if h : k < x.tokens.size then
    let t := x.tokens[k]
    if t.start < flushed then piecesFrom x addresses (k + 1) flushed
    else
      match addresses.find? fun a => a.1 ≤ t.start ∧ t.start < a.2 with
      | some (start, stop) =>
        ⟨start, stop, .uri⟩ :: piecesFrom x addresses (max (k + 1) (x.tokenFrom stop)) stop
      | none =>
        match x.dispatch k t with
        | (some piece, next) =>
          piece :: piecesFrom x addresses (max (k + 1) next) piece.stop
        | (none, next) => piecesFrom x addresses (max (k + 1) next) flushed
  else []
termination_by x.tokens.size - k

end Source

/-- The pieces of a text, in order. -/
def pieces (s : List Char) : List Piece := (Source.ofChars s).piecesFrom (uris s) 0 0

end MarkupLint.Inline
