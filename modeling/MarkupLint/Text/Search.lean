/-! # Searching and cutting texts -/

namespace MarkupLint.Text

/-- What follows `p` in a text that starts with it. -/
def dropStart? : List Char → List Char → Option (List Char)
  | [], s => some s
  | _ :: _, [] => none
  | a :: p, b :: s => if a = b then dropStart? p s else none

/-- Whether a text starts with `p`. -/
def startsWith (p s : List Char) : Bool := (dropStart? p s).isSome

/-- What follows a start is behind it. -/
theorem eq_append_of_dropStart? {p s rest : List Char} (h : dropStart? p s = some rest) :
    s = p ++ rest := by
  induction p generalizing s with
  | nil => simpa [dropStart?] using h
  | cons a p ih =>
    cases s with
    | nil => simp [dropStart?] at h
    | cons c s =>
      simp only [dropStart?] at h
      split at h
      · rename_i hac
        rw [hac, ih h, List.cons_append]
      · cases h

/-- A text starts with another if that is its start. -/
theorem startsWith_iff {p s : List Char} : startsWith p s = true ↔ p <+: s := by
  constructor
  · intro h
    obtain ⟨rest, hrest⟩ := Option.isSome_iff_exists.mp h
    exact ⟨rest, (eq_append_of_dropStart? hrest).symm⟩
  · rintro ⟨rest, rfl⟩
    induction p with
    | nil => rfl
    | cons a p ih => simpa [startsWith, dropStart?] using ih

/-- Whether a text ends with `p`. -/
def endsWith (p s : List Char) : Bool := startsWith p.reverse s.reverse

/-- What precedes and what follows the first occurrence of `p`. -/
def cut? (p : List Char) : List Char → Option (List Char × List Char)
  | [] => if p.isEmpty then some ([], []) else none
  | c :: s =>
    match dropStart? p (c :: s) with
    | some rest => some ([], rest)
    | none => (cut? p s).map fun (before, after) => (c :: before, after)

/-- Whether `p` occurs in a text. -/
def contains (p s : List Char) : Bool := (cut? p s).isSome

/-- The pieces of a text between the characters `sep`; one more than there
    are such characters. -/
def splitOn (sep : Char) : List Char → List (List Char)
  | [] => [[]]
  | c :: s =>
    if c = sep then [] :: splitOn sep s
    else
      match splitOn sep s with
      | [] => [[c]]
      | piece :: pieces => (c :: piece) :: pieces

/-- There is always a piece. -/
theorem splitOn_ne_nil (sep : Char) (s : List Char) : splitOn sep s ≠ [] := by
  cases s with
  | nil => simp [splitOn]
  | cons c s =>
    simp only [splitOn]
    split
    · simp
    · split <;> simp

/-- Joins pieces with `sep` between them. -/
def join (sep : List Char) (pieces : List (List Char)) : List Char :=
  sep.intercalate pieces

/-- Puts `new` for every character `old`. -/
def replaceChar (old : Char) (new : List Char) (s : List Char) : List Char :=
  s.flatMap fun c => if c = old then new else [c]

/-- Puts `new` for every occurrence of the non-empty `old`, from the left;
    `skip` counts the characters of an occurrence still to be passed. -/
def replaceAll (old new : List Char) (s : List Char) : List Char :=
  go 0 s
where
  /-- Passes `skip` characters, then looks for the next occurrence. -/
  go (skip : Nat) : List Char → List Char
    | [] => []
    | c :: rest =>
      match skip with
      | k + 1 => go k rest
      | 0 => if startsWith old (c :: rest) then new ++ go (old.length - 1) rest else c :: go 0 rest

end MarkupLint.Text
