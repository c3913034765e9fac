import MarkupLint.Text.Blank
import MarkupLint.Text.Search

/-! # Standalone addresses

    An address in a text is a known scheme and the characters after it up
    to white space, an angle bracket or a quote, without the punctuation at
    its end. -/

namespace MarkupLint.Inline

/-- The schemes that are recognized. -/
def schemes : List (List Char) :=
  ["https://", "http://", "ftp://", "sftp://", "file://", "ssh://", "git://", "svn://",
    "mailto:"].map String.toList

/-- Whether a character ends an address. -/
def endsUri (c : Char) : Bool :=
  Text.isPatternSpace c || c = '<' || c = '>' || c = '"' || c = '\x60'

/-- Whether a character is not part of an address when it comes last. -/
def trailsUri (c : Char) : Bool := endsUri c || ".,;:!?')]\x7d*|_".toList.contains c

/-- The length of the address a text starts with. -/
def uriLength? (s : List Char) : Option Nat :=
  schemes.findSome? fun scheme =>
    (Text.dropStart? scheme s).bind fun rest =>
      let body := Text.dropRightWhile trailsUri (rest.takeWhile (!endsUri ·))
      if body.isEmpty then none else some (scheme.length + body.length)

/-- The addresses of a text from a position on, as start and stop; `skip`
    counts the characters of an address still to be passed. -/
def urisFrom (position skip : Nat) : List Char → List (Nat × Nat)
  | [] => []
  | c :: rest =>
    match skip with
    | k + 1 => urisFrom (position + 1) k rest
    | 0 =>
      match uriLength? (c :: rest) with
      | some n => (position, position + n) :: urisFrom (position + 1) (n - 1) rest
      | none => urisFrom (position + 1) 0 rest

/-- The addresses of a text, as start and stop. -/
def uris (s : List Char) : List (Nat × Nat) := urisFrom 0 0 s

end MarkupLint.Inline
