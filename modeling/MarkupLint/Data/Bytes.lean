/-! # Byte strings

    Numbers as big-endian bytes, bytes as hexadecimal digits, lists of byte
    strings as one, and values as bytes. -/

namespace MarkupLint

/-- A string of bytes, such as the content of a file. -/
abbrev Bytes := List UInt8

namespace Data

/-- The last `width` base-256 digits of a number, the highest first. -/
def bigEndian : Nat → Nat → Bytes
  | 0, _ => []
  | width + 1, n => bigEndian width (n / 256) ++ [UInt8.ofNat n]

/-- The number that big-endian bytes stand for. -/
def ofBigEndian (bytes : Bytes) : Nat := bytes.foldl (fun n b => n * 256 + b.toNat) 0

/-- The two lower-case hexadecimal digits of a byte. -/
def hexByte (b : UInt8) : List Char :=
  [Nat.digitChar (b.toNat / 16), Nat.digitChar (b.toNat % 16)]

/-- The hexadecimal digits of some bytes. -/
def hex (bytes : Bytes) : List Char := bytes.flatMap hexByte

@[simp] theorem length_bigEndian (width n : Nat) : (bigEndian width n).length = width := by
  induction width generalizing n with
  | zero => rfl
  | succ width ih => simp [bigEndian, ih]

/-- A number that fits is read back from its bytes. -/
theorem ofBigEndian_bigEndian {width n : Nat} (h : n < Nat.pow 256 width) :
    ofBigEndian (bigEndian width n) = n := by
  induction width generalizing n with
  | zero => simp_all [bigEndian, ofBigEndian]
  | succ width ih =>
    have hq : n / 256 < Nat.pow 256 width := by
      simp only [Nat.pow_eq, Nat.pow_succ] at h ⊢
      exact Nat.div_lt_of_lt_mul (by omega)
    have step := ih hq
    simp only [ofBigEndian] at step ⊢
    simp only [bigEndian, List.foldl_append, step, List.foldl_cons, List.foldl_nil]
    have hb : (UInt8.ofNat n).toNat = n % 256 := by simp
    omega

end Data

end MarkupLint

/-! ## Framed lists

    A list of byte strings written as one: each part follows its length in
    eight bytes, the highest first.  The parts can be told apart whatever
    they hold, so the list is read back. -/

namespace MarkupLint.Data.Frame

/-- The number of bytes that hold the length of a part. -/
def lengthWidth : Nat := 8

/-- Writes a list of parts. -/
def encode : List Bytes → Bytes
  | [] => []
  | part :: rest => bigEndian lengthWidth part.length ++ part ++ encode rest

/-- Reads a list of parts; none if the bytes end inside a part. -/
def decode? (bytes : Bytes) : Option (List Bytes) :=
  if bytes.isEmpty then some []
  else if bytes.length < lengthWidth then none
  else
    let size := ofBigEndian (bytes.take lengthWidth)
    let rest := bytes.drop lengthWidth
    if rest.length < size then none
    else (decode? (rest.drop size)).map (rest.take size :: ·)
termination_by bytes.length
decreasing_by
  simp_all [lengthWidth]
  omega

end MarkupLint.Data.Frame

/-! ## Packed values

    A value is packed in such a way that it is read back whatever bytes come
    after it, so what is packed one after the other is read one after the
    other. -/

namespace MarkupLint.Data

/-- A way to write values as bytes from which they are read back. -/
structure Codec (α : Type) where
  encode : α → Bytes
  decode? : Bytes → Option α
  decode?_encode : ∀ a, decode? (encode a) = some a

/-- A way to write values that are read back from the front of some bytes. -/
structure Packing (α : Type) where
  write : α → Bytes
  /-- Reads a value and leaves what comes after it. -/
  read? : Bytes → Option (α × Bytes)
  read?_write : ∀ (a : α) (rest : Bytes), read? (write a ++ rest) = some (a, rest)

namespace Packing

variable {α β : Type}

/-- The base-256 digits of a number, the lowest first, each after a one; a zero
    ends them. -/
def writeNat (n : Nat) : Bytes :=
  if n = 0 then [0] else 1 :: UInt8.ofNat n :: writeNat (n / 256)
termination_by n

/-- Reads a number from the front of some bytes. -/
def readNat? : Bytes → Option (Nat × Bytes)
  | 0 :: rest => some (0, rest)
  | 1 :: digit :: rest => (readNat? rest).map fun (n, rest) => (n * 256 + digit.toNat, rest)
  | _ => none

/-- A number is read back, whatever follows it. -/
theorem readNat?_writeNat (n : Nat) (rest : Bytes) :
    readNat? (writeNat n ++ rest) = some (n, rest) := by
  induction n using Nat.strongRecOn with
  | ind n ih =>
    rw [writeNat]
    by_cases hzero : n = 0
    · rw [if_pos hzero, hzero]
      rfl
    · have hsmaller := ih (n / 256) (Nat.div_lt_self (by omega) (by decide))
      have hdigits : n / 256 * 256 + n % 256 = n := by omega
      rw [if_neg hzero, List.cons_append, List.cons_append, readNat?, hsmaller]
      simpa using hdigits

/-- Numbers. -/
def nat : Packing Nat := ⟨writeNat, readNat?, readNat?_writeNat⟩

/-- Values that others stand for. -/
def map (p : Packing β) (into : α → β) (back : β → α) (h : ∀ a, back (into a) = a) :
    Packing α where
  write a := p.write (into a)
  read? bytes := (p.read? bytes).map fun (b, rest) => (back b, rest)
  read?_write a rest := by simp only [p.read?_write, Option.map_some, h]

/-- Two values, one after the other. -/
def pair (p : Packing α) (q : Packing β) : Packing (α × β) where
  write ab := p.write ab.1 ++ q.write ab.2
  read? bytes :=
    (p.read? bytes).bind fun (a, rest) => (q.read? rest).map fun (b, rest) => ((a, b), rest)
  read?_write ab rest := by
    simp only [List.append_assoc, p.read?_write, q.read?_write, Option.bind_some, Option.map_some]

/-- Reads a number of values. -/
def readTimes? (p : Packing α) : Nat → Bytes → Option (List α × Bytes)
  | 0, bytes => some ([], bytes)
  | n + 1, bytes => (p.read? bytes).bind fun (a, rest) =>
    (p.readTimes? n rest).map fun (as, rest) => (a :: as, rest)

/-- By the list: as many values are read as were written. -/
theorem readTimes?_write (p : Packing α) (as : List α) (rest : Bytes) :
    p.readTimes? as.length (as.flatMap p.write ++ rest) = some (as, rest) := by
  induction as with
  | nil => rfl
  | cons a as ih =>
    simp only [List.flatMap_cons, List.append_assoc, List.length_cons, readTimes?, p.read?_write, ih,
      Option.bind_some, Option.map_some]

/-- The values of a list, after their number. -/
def list (p : Packing α) : Packing (List α) where
  write as := writeNat as.length ++ as.flatMap p.write
  read? bytes := (readNat? bytes).bind fun (n, rest) => p.readTimes? n rest
  read?_write as rest := by
    simp only [List.append_assoc, readNat?_writeNat, readTimes?_write, Option.bind_some]

/-- Integers, as what they are above zero and below it. -/
def int : Packing Int :=
  (nat.pair nat).map (fun i => (i.toNat, (-i).toNat)) (fun (above, below) => above - below)
    fun i => by
      change (i.toNat : Int) - (-i).toNat = i
      omega

/-- Texts. -/
def text : Packing String :=
  nat.list.map (fun s => s.toList.map Char.toNat) (fun ns => String.ofList (ns.map Char.ofNat))
    fun s => by
      have hsame : (Char.ofNat ∘ Char.toNat) = id := funext Char.ofNat_toNat
      rw [List.map_map, hsame, List.map_id, String.ofList_toList]

/-- Bytes. -/
def bytes : Packing Bytes :=
  nat.list.map (·.map UInt8.toNat) (·.map UInt8.ofNat) fun bs => by
    have hsame : (UInt8.ofNat ∘ UInt8.toNat) = id := funext fun _ => UInt8.ofNat_toNat
    rw [List.map_map, hsame, List.map_id]

/-- Values that may be missing. -/
def option (p : Packing α) : Packing (Option α) :=
  p.list.map Option.toList List.head? fun a => by cases a <;> rfl

/-- Bytes that hold one value and nothing else. -/
def codec (p : Packing α) : Codec α where
  encode := p.write
  decode? bytes := (p.read? bytes).bind fun (a, rest) => if rest.isEmpty then some a else none
  decode?_encode a := by
    rw [← List.append_nil (p.write a), p.read?_write]
    rfl

end Packing

end MarkupLint.Data
