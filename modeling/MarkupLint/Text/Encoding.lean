import MarkupLint.Text.Blank
import MarkupLint.Text.Case
import MarkupLint.Text.Quoted

/-! # Encodings

    From bytes to text.  The decoders are those of a library, which knows
    them by the names of their encodings in any letter case; UTF-8 and UTF-16
    go by names of their own besides.  In the standard ones, what is not well
    formed becomes the replacement character, one for each maximal part that
    could have started a character. -/

namespace MarkupLint.Text

/-- The encodings with a standard decoder. -/
inductive Encoding where
  | utf8
  | utf16le
  | utf16be
  | latin1
  | latin9
  | ascii
  | windows1252
  deriving DecidableEq, Repr

/-- Why bytes cannot be decoded. -/
inductive DecodeError where
  | unknownEncoding (name : String)
  /-- The decoder gave up. -/
  | failed (name reason : String)
  deriving DecidableEq, Repr

/-- The text of the complaint. -/
def DecodeError.message : DecodeError → String
  | .unknownEncoding name => "unknown encoding " ++ quoted name
  | .failed name reason => "decode " ++ name ++ ": " ++ reason

/-- The name of an encoding without the space around it, in lower case. -/
def encodingKey (name : String) : String := String.ofList (lower (trim name.toList))

/-- What makes text of bytes, or says why it cannot. -/
abbrev Decoder := List UInt8 → Except String (List Char)

/-- Decoders, by the names of their encodings. -/
structure Decoders where
  /-- UTF-8 without the byte order mark it may start with. -/
  utf8 : Decoder
  /-- UTF-16, as the byte order mark it starts with says. -/
  utf16 : Decoder
  /-- The decoder that is registered for a name. -/
  named? : String → Option Decoder
  /-- The letter case of a name makes no difference. -/
  named?_eq : ∀ {a b : String}, lowerString a = lowerString b → named? a = named? b

/-- Drops a byte order mark at the start. -/
def dropMark : List Char → List Char
  | '\ufeff' :: rest => rest
  | s => s

namespace Decoders

/-- The decoder of a name. -/
def find? (d : Decoders) (name : String) : Option Decoder :=
  if ["", "utf-8", "utf8", "utf-8-sig"].contains (encodingKey name) then some d.utf8
  else if ["utf-16", "utf16"].contains (encodingKey name) then some d.utf16
  else d.named? name

/-- Decodes bytes in the encoding of a name; a byte order mark at the start
    is no part of the text. -/
def decode (d : Decoders) (bytes : List UInt8) (name : String) :
    Except DecodeError (List Char) :=
  match d.find? name with
  | none => .error (.unknownEncoding name)
  | some decoder =>
    match decoder bytes with
    | .ok text => .ok (dropMark text)
    | .error reason => .error (.failed name reason)

/-! ### Letter case -/

/-- Letter case makes no difference to the name of an encoding. -/
theorem encodingKey_eq {a b : String} (h : lowerString a = lowerString b) :
    encodingKey a = encodingKey b := by
  have hlower : lower a.toList = lower b.toList := String.ofList_injective h
  simp only [encodingKey, lower_trim, hlower]

/-- Nor to what is found under it. -/
theorem find?_eq (d : Decoders) {a b : String} (h : lowerString a = lowerString b) :
    d.find? a = d.find? b := by
  simp only [find?, encodingKey_eq h, d.named?_eq h]

/-- The text of some bytes does not depend on the letter case of the name. -/
theorem decode_eq_ok {d : Decoders} {a b : String} (h : lowerString a = lowerString b)
    {bytes : List UInt8} {text : List Char} (ha : d.decode bytes a = .ok text) :
    d.decode bytes b = .ok text := by
  unfold decode at ha ⊢
  rw [d.find?_eq h] at ha
  cases hfind : d.find? b with
  | none =>
    rw [hfind] at ha
    cases ha
  | some decoder =>
    rw [hfind] at ha
    dsimp only at ha ⊢
    cases hbytes : decoder bytes with
    | error reason =>
      rw [hbytes] at ha
      cases ha
    | ok text =>
      rw [hbytes] at ha
      exact ha

end Decoders

namespace Encoding

/-- The names of the encodings, in lower case. -/
def names : List (Encoding × List String) :=
  [(.utf8, ["csutf8"]),
   (.utf16le, ["utf-16le", "csutf16le"]),
   (.utf16be, ["utf-16be", "csutf16be"]),
   (.latin1, ["iso_8859-1:1987", "iso-ir-100", "iso_8859-1", "iso-8859-1", "latin1", "l1",
     "ibm819", "cp819", "csisolatin1"]),
   (.latin9, ["iso-8859-15", "iso_8859-15", "latin-9", "csiso885915"]),
   (.ascii, ["us-ascii", "iso-ir-6", "ansi_x3.4-1968", "ansi_x3.4-1986", "iso_646.irv:1991",
     "iso646-us", "us", "ibm367", "cp367", "csascii"]),
   (.windows1252, ["windows-1252", "cswindows1252"])]

/-- The encoding of a name in any letter case. -/
def ofName? (name : String) : Option Encoding :=
  (names.find? fun p => p.2.contains (encodingKey name)).map (·.1)

end Encoding

/-- What stands for bytes that are not well formed. -/
def replacement : Char := '\ufffd'

/-- The length of the sequence a lead byte starts, and the bytes that may
    follow it; none for a byte that starts none. -/
def utf8Lead? (b : Nat) : Option (Nat × Nat × Nat) :=
  if 0xC2 ≤ b ∧ b ≤ 0xDF then some (2, 0x80, 0xBF)
  else if b = 0xE0 then some (3, 0xA0, 0xBF)
  else if b = 0xED then some (3, 0x80, 0x9F)
  else if 0xE1 ≤ b ∧ b ≤ 0xEF then some (3, 0x80, 0xBF)
  else if b = 0xF0 then some (4, 0x90, 0xBF)
  else if b = 0xF4 then some (4, 0x80, 0x8F)
  else if 0xF1 ≤ b ∧ b ≤ 0xF3 then some (4, 0x80, 0xBF)
  else none

/-- How many of the bytes after a lead byte continue its sequence: the
    first within its own bounds, the others within the common ones. -/
def continuation (length low high : Nat) (rest : List UInt8) : Nat :=
  match rest with
  | [] => 0
  | b :: more =>
    if low ≤ b.toNat ∧ b.toNat ≤ high then
      1 + ((more.take (length - 2)).takeWhile fun c => 0x80 ≤ c.toNat && c.toNat ≤ 0xBF).length
    else 0

/-- Decodes UTF-8. -/
def decodeUtf8 (bytes : List UInt8) : List Char :=
  match bytes with
  | [] => []
  | b :: rest =>
    if b.toNat < 0x80 then Char.ofNat b.toNat :: decodeUtf8 rest
    else
      match utf8Lead? b.toNat with
      | none => replacement :: decodeUtf8 rest
      | some (length, low, high) =>
        let n := continuation length low high rest
        let lead := b.toNat % Nat.pow 2 (7 - length)
        let c := if n + 1 = length then
            Char.ofNat ((rest.take n).foldl (fun v x => v * 64 + x.toNat % 64) lead)
          else replacement
        c :: decodeUtf8 (rest.drop n)
termination_by bytes.length
decreasing_by all_goals (simp only [List.length_cons, List.length_drop]; omega)

/-- Decodes UTF-16 in one of the byte orders. -/
def decodeUtf16 (little : Bool) : List UInt8 → List Char
  | [] => []
  | [_] => [replacement]
  | a :: b :: rest =>
    let unit (a b : UInt8) : Nat :=
      if little then b.toNat * 256 + a.toNat else a.toNat * 256 + b.toNat
    let x := unit a b
    if 0xD800 ≤ x ∧ x ≤ 0xDFFF then
      match rest with
      | c :: d :: more =>
        let y := unit c d
        if 0xDC00 ≤ y ∧ y ≤ 0xDFFF then
          (if x < 0xDC00 then Char.ofNat (0x10000 + (x - 0xD800) * 0x400 + (y - 0xDC00))
            else replacement) :: decodeUtf16 little more
        else replacement :: decodeUtf16 little (c :: d :: more)
      | other => replacement :: decodeUtf16 little other
    else Char.ofNat x :: decodeUtf16 little rest

/-- The characters of the bytes from 80 to 9F in the Windows code page. -/
def windowsHigh : List Nat :=
  [0x20AC, 0xFFFD, 0x201A, 0x0192, 0x201E, 0x2026, 0x2020, 0x2021, 0x02C6, 0x2030, 0x0160,
   0x2039, 0x0152, 0xFFFD, 0x017D, 0xFFFD, 0xFFFD, 0x2018, 0x2019, 0x201C, 0x201D, 0x2022,
   0x2013, 0x2014, 0x02DC, 0x2122, 0x0161, 0x203A, 0x0153, 0xFFFD, 0x017E, 0x0178]

/-- Where Latin-9 differs from Latin-1. -/
def latin9Changes : List (Nat × Nat) :=
  [(0xA4, 0x20AC), (0xA6, 0x0160), (0xA8, 0x0161), (0xB4, 0x017D), (0xB8, 0x017E),
   (0xBC, 0x0152), (0xBD, 0x0153), (0xBE, 0x0178)]

/-- The character of a byte in an encoding with one byte to a character. -/
def singleByte (e : Encoding) (b : UInt8) : Char :=
  let n := b.toNat
  match e with
  | .ascii => if n < 0x80 then Char.ofNat n else replacement
  | .windows1252 =>
    if 0x80 ≤ n ∧ n < 0xA0 then Char.ofNat ((windowsHigh[n - 0x80]?).getD 0xFFFD) else Char.ofNat n
  | .latin9 => Char.ofNat (((latin9Changes.find? (·.1 == n)).map (·.2)).getD n)
  | _ => Char.ofNat n

/-- Decodes UTF-16 in the byte order that its mark says. -/
def decodeMarked : Decoder
  | 0xFE :: 0xFF :: rest => .ok (decodeUtf16 false rest)
  | 0xFF :: 0xFE :: rest => .ok (decodeUtf16 true rest)
  | _ => .error "encoding: missing byte order mark"

/-- The decoder of an encoding. -/
def Encoding.decoder : Encoding → Decoder
  | .utf8 => fun bytes => .ok (decodeUtf8 bytes)
  | .utf16le => fun bytes => .ok (decodeUtf16 true bytes)
  | .utf16be => fun bytes => .ok (decodeUtf16 false bytes)
  | e => fun bytes => .ok (bytes.map (singleByte e))

/-- The usual decoders. -/
def Decoders.standard : Decoders where
  utf8 bytes := .ok (dropMark (decodeUtf8 bytes))
  utf16 := decodeMarked
  named? name := (Encoding.ofName? name).map Encoding.decoder
  named?_eq h := by simp only [Encoding.ofName?, Decoders.encodingKey_eq h]

/-- Decodes bytes with the usual decoders. -/
def decode : List UInt8 → String → Except DecodeError (List Char) := Decoders.standard.decode

end MarkupLint.Text
