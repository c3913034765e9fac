import Mathlib.Data.List.Infix
import MarkupLint.Body.Block
import MarkupLint.Body.Line

/-! # Lines and their numbers

    A body counts its lines from its offset on.  What an extract cuts out of
    a body is again lines of that body, one for one from the first on, each
    with some characters at its start removed: `Pared`.  A body made of such
    lines with the right offset lies `Below` the one it was cut from, and
    lying below carries over from body to body, so the numbers are right at
    every depth. -/

namespace MarkupLint

/-! ## Splitting a text -/

namespace Text

/-- The pieces of a text are those that lists are split into. -/
theorem splitOn_eq (sep : Char) (s : List Char) : splitOn sep s = s.splitOn sep := by
  have hpieces : ∀ s : List Char, s.splitOn sep = s.splitOnP (· == sep) := fun _ => rfl
  induction s with
  | nil => rfl
  | cons c s ih =>
    rw [splitOn, ih, hpieces (c :: s), List.splitOnP_cons_eq_if_modifyHead, hpieces s]
    by_cases h : c = sep
    · simp [h]
    · simp only [h, if_false, beq_iff_eq]
      cases hs : s.splitOnP (· == sep) with
      | nil => exact absurd hs (List.splitOnP_ne_nil _ _)
      | cons piece pieces => rfl

/-- Putting the pieces of a text together gives the text. -/
theorem intercalate_splitOn (sep : Char) (s : List Char) :
    [sep].intercalate (splitOn sep s) = s := by
  rw [splitOn_eq, List.intercalate_splitOn]

/-- Splitting a text makes up no characters. -/
theorem mem_of_mem_splitOn {sep c : Char} {s piece : List Char} (hpiece : piece ∈ splitOn sep s)
    (hc : c ∈ piece) : c ∈ s := by
  induction s generalizing piece with
  | nil =>
    rw [List.mem_singleton.mp hpiece] at hc
    cases hc
  | cons x s ih =>
    simp only [splitOn] at hpiece
    split at hpiece
    · rcases List.mem_cons.mp hpiece with rfl | hpiece
      · cases hc
      · exact List.mem_cons_of_mem _ (ih hpiece hc)
    · split at hpiece
      · exact absurd ‹_› (splitOn_ne_nil sep s)
      · rename_i first pieces hs
        rcases List.mem_cons.mp hpiece with rfl | hpiece
        · refine List.mem_cons.mpr ((List.mem_cons.mp hc).imp_right fun hc => ?_)
          exact ih (hs ▸ List.mem_cons_self) hc
        · exact List.mem_cons_of_mem _ (ih (hs ▸ List.mem_cons_of_mem _ hpiece) hc)

/-- No piece holds what the text was split at. -/
theorem not_mem_of_mem_splitOn {sep : Char} {s piece : List Char}
    (h : piece ∈ splitOn sep s) : sep ∉ piece := by
  induction s generalizing piece with
  | nil =>
    obtain rfl := List.mem_singleton.mp h
    simp
  | cons c s ih =>
    simp only [splitOn] at h
    split at h
    · rcases List.mem_cons.mp h with rfl | h
      · simp
      · exact ih h
    · rename_i hc
      split at h
      · obtain rfl := List.mem_singleton.mp h
        simpa using fun heq => hc heq.symm
      · rename_i first rest hsplit
        rcases List.mem_cons.mp h with rfl | h
        · have := ih (hsplit ▸ List.mem_cons_self)
          simp only [List.mem_cons, not_or]
          exact ⟨fun heq => hc heq.symm, this⟩
        · exact ih (hsplit ▸ List.mem_cons_of_mem _ h)

end Text

namespace Line

theorem joinLines_cons_cons (l m : Line) (ls : List Line) :
    joinLines (l :: m :: ls) = l ++ '\n' :: joinLines (m :: ls) := by
  simp [joinLines, List.intercalate]

/-- A text has the characters of its lines and line feeds between them. -/
theorem mem_of_mem_joinLines {ls : List Line} {c : Char} (hc : c ∈ joinLines ls) :
    c = '\n' ∨ ∃ l ∈ ls, c ∈ l := by
  induction ls with
  | nil => cases hc
  | cons l ls ih =>
    cases ls with
    | nil => exact .inr ⟨l, List.mem_cons_self, by simpa [joinLines] using hc⟩
    | cons m ls =>
      rw [joinLines_cons_cons] at hc
      rcases List.mem_append.mp hc with hc | hc
      · exact .inr ⟨l, List.mem_cons_self, hc⟩
      · rcases List.mem_cons.mp hc with rfl | hc
        · exact .inl rfl
        · obtain hfeed | ⟨k, hk, hck⟩ := ih hc
          · exact .inl hfeed
          · exact .inr ⟨k, List.mem_cons_of_mem _ hk, hck⟩

end Line

/-! ### Tabs -/

/-- No run of spaces is longer than the width. -/
theorem tabsFit_of_le {width : Nat} (h : width ≤ longestRun) (col : Nat) (text : List Char) :
    tabsFit width col text = true := by
  induction text generalizing col with
  | nil => rfl
  | cons c text ih =>
    simp only [tabsFit]
    split
    · rw [ih, Bool.and_true, decide_eq_true_eq]
      omega
    · exact ih _

/-- Tabs can be expanded to a width that is positive and not too large. -/
theorem expandTabs?_isSome {width : Int} {text : List Char}
    (h : '\t' ∈ text → 0 < width ∧ width ≤ longestRun) : (expandTabs? width text).isSome := by
  unfold expandTabs?
  by_cases htab : '\t' ∈ text
  · obtain ⟨hpos, hle⟩ := h htab
    simp [htab, hpos, tabsFit_of_le (show width.toNat ≤ longestRun by omega)]
  · simp [htab]

/-- Other newlines bring no tabs along. -/
theorem tab_of_normalizeNewlines {text : List Char} :
    '\t' ∈ normalizeNewlines text → '\t' ∈ text := by
  fun_induction normalizeNewlines text with
  | case1 => exact id
  | case2 rest ih => simpa using ih
  | case3 rest _ ih => simpa using ih
  | case4 c rest _ _ ih => simpa using Or.imp_right ih

/-- The lines of a text are among its pieces; the last one may be left out. -/
theorem rawLines_subset (s : List Char) : rawLines s ⊆ Text.splitOn '\n' s := by
  unfold rawLines
  dsimp only
  split
  · exact List.dropLast_subset _
  · exact fun _ h => h

/-- A text can be split into lines if its tabs can be expanded. -/
theorem splitLines?_isSome {width : Int} {text : List Char}
    (h : '\t' ∈ text → 0 < width ∧ width ≤ longestRun) : (splitLines? width text).isSome := by
  have hmapM : ∀ ls : List (List Char),
      (∀ l ∈ ls, '\t' ∈ l → 0 < width ∧ width ≤ longestRun) → (ls.mapM (cleanLine? width)).isSome := by
    intro ls
    induction ls with
    | nil => exact fun _ => rfl
    | cons l ls ih =>
      intro hls
      have hspaced : '\t' ∈ l.map (fun c => if c = '\x0b' || c = '\x0c' then ' ' else c) →
          0 < width ∧ width ≤ longestRun := by
        intro htab
        obtain ⟨c, hc, heq⟩ := List.mem_map.mp htab
        refine hls l List.mem_cons_self ?_
        split at heq
        · cases heq
        · exact heq ▸ hc
      obtain ⟨x, hx⟩ := Option.isSome_iff_exists.mp (expandTabs?_isSome hspaced)
      obtain ⟨xs, hxs⟩ := Option.isSome_iff_exists.mp
        (ih fun l hl => hls l (List.mem_cons_of_mem _ hl))
      rw [List.mapM_cons, cleanLine?, hx, hxs]
      rfl
  unfold splitLines?
  refine hmapM _ fun l hl htab => h (tab_of_normalizeNewlines ?_)
  have hmem := Text.mem_of_mem_splitOn (rawLines_subset _ hl) htab
  revert hmem
  split
  · rename_i hmark
    rw [hmark]
    exact List.mem_cons_of_mem _
  · exact id

/-! ## Cutting lines -/

/-- Every line of `short` is the line of `long` at the same place, without
    some of the characters it starts with. -/
def Pared (short long : List Line) : Prop :=
  ∀ (k : Nat) (x : Line), short[k]? = some x → ∃ y : Line, long[k]? = some y ∧ x <:+ y

namespace Pared

variable {a b c : List Line}

/-- A part of a part is a part. -/
theorem trans (hab : Pared a b) (hbc : Pared b c) : Pared a c := by
  intro k x hx
  obtain ⟨y, hy, hxy⟩ := hab k x hx
  obtain ⟨z, hz, hyz⟩ := hbc k y hy
  exact ⟨z, hz, hxy.trans hyz⟩

/-- The first of some lines are a part of them. -/
theorem of_start (h : a <+: b) : Pared a b := by
  obtain ⟨t, rfl⟩ := h
  intro k x hx
  refine ⟨x, ?_, List.suffix_rfl⟩
  rw [List.getElem?_append_left (List.getElem?_eq_some_iff.mp hx).1]
  exact hx

/-- So are all of them, each without as many characters. -/
theorem map_drop (n : Nat) (a : List Line) : Pared (a.map (·.drop n)) a := by
  intro k x hx
  obtain ⟨y, hy, rfl⟩ := by simpa using hx
  exact ⟨y, hy, List.drop_suffix n y⟩

/-- By the line: a shorter first line, and a part of the others. -/
theorem cons {x y : Line} (hxy : x <:+ y) (h : Pared a b) : Pared (x :: a) (y :: b) := by
  intro k z hz
  cases k with
  | zero =>
    obtain rfl : x = z := by simpa using hz
    exact ⟨y, rfl, hxy⟩
  | succ k => exact h k z (by simpa using hz)

/-- A part has no more lines. -/
theorem length_le (h : Pared a b) : a.length ≤ b.length := by
  by_contra hlt
  obtain ⟨y, hy, -⟩ := h b.length _ (List.getElem?_eq_getElem (by omega))
  simp at hy

end Pared

namespace Extract

/-- Blank lines at the end are dropped, and nothing else. -/
theorem trimEnd_isStart (ls : List Line) : trimEnd ls <+: ls := by
  have h := List.dropWhile_suffix (l := ls.reverse) Text.isBlank
  simpa [trimEnd] using List.reverse_prefix.mpr h

theorem trimEnd_pared (ls : List Line) : Pared (trimEnd ls) ls :=
  .of_start (trimEnd_isStart ls)

variable (k : Nat) (first : Line) (rest : List Line)

/-- An indented block is a part of the lines that it is cut out of. -/
theorem indented_pared : Pared (indented first rest).lines (first :: rest) :=
  (trimEnd_pared _).trans <| (Pared.map_drop _ _).trans <|
    .cons List.suffix_rfl (.of_start (List.takeWhile_prefix _))

/-- So is a block of known indentation. -/
theorem known_pared : Pared (known k first rest).lines (first :: rest) :=
  (trimEnd_pared _).trans <| (Pared.map_drop _ _).trans <|
    .cons List.suffix_rfl (.of_start (List.takeWhile_prefix _))

/-- So is one whose first line alone is known to be indented. -/
theorem firstKnown_pared : Pared (firstKnown k first rest).lines (first :: rest) :=
  (trimEnd_pared _).trans <| .cons (List.drop_suffix k first) <|
    (Pared.map_drop _ _).trans (.of_start (List.takeWhile_prefix _))

/-- An extract that did not end well stops before a line that is not blank,
    among the lines it was cut from. -/
def Stops (e : Extract) (rest : List Line) : Prop :=
  e.blankFinish = false → ∃ x, rest[e.extra]? = some x ∧ Text.isBlank x = false

/-- Behind the lines that agree stands what is left when they are dropped. -/
theorem drop_takeWhile_length {α : Type} (p : α → Bool) (ls : List α) :
    ls.drop (ls.takeWhile p).length = ls.dropWhile p := by
  calc ls.drop (ls.takeWhile p).length
      = (ls.takeWhile p ++ ls.dropWhile p).drop (ls.takeWhile p).length := by
        rw [List.takeWhile_append_dropWhile]
    _ = ls.dropWhile p := List.drop_left

/-- A longest run ends where something that does not go on with it follows. -/
theorem takeWhile_append_of_head {α : Type} {p : α → Bool} {tail : List α}
    (htail : ∀ a ∈ tail.head?, p a = false) (ls : List α) :
    (ls ++ tail).takeWhile p = ls.takeWhile p := by
  have hnone : tail.takeWhile p = [] := by
    cases tail with
    | nil => rfl
    | cons a tail => rw [List.takeWhile_cons_of_neg (by simp [htail a rfl])]
  rw [List.takeWhile_append]
  split
  · rename_i hall
    rw [hnone, List.append_nil, (List.takeWhile_prefix p).eq_of_length hall]
  · rfl

/-- The line after the longest run of lines of `p`. -/
theorem takeWhile_next {p : Line → Bool} (hp : ∀ l, Text.isBlank l = true → p l = true)
    {rest : List Line} (h : rest.drop (rest.takeWhile p).length ≠ []) :
    ∃ x, rest[(rest.takeWhile p).length]? = some x ∧ Text.isBlank x = false := by
  obtain ⟨x, more, hx⟩ := List.exists_cons_of_ne_nil h
  refine ⟨x, by rw [← List.head?_drop, hx]; rfl, ?_⟩
  have hnot := List.head?_dropWhile_not p rest
  rw [← drop_takeWhile_length, hx] at hnot
  cases hb : Text.isBlank x with
  | false => rfl
  | true => simp [hp x hb] at hnot

/-- Behind an indented block no line is in it any more. -/
theorem indented_stops : (indented first rest).Stops rest := by
  intro h
  simp only [indented, finish, Bool.or_eq_false_iff, List.isEmpty_eq_false_iff] at h
  exact takeWhile_next (fun l hl => by simp [inBlock, hl]) h.1

/-- Nor is one behind a block of known indentation. -/
theorem known_stops : (known k first rest).Stops rest := by
  intro h
  simp only [known, finish, Bool.or_eq_false_iff, List.isEmpty_eq_false_iff] at h
  exact takeWhile_next (fun l hl => by simp [inKnown, hl]) h.1

/-- Nor is one behind a block whose first line is known. -/
theorem firstKnown_stops : (firstKnown k first rest).Stops rest := by
  intro h
  simp only [firstKnown, finish, Bool.or_eq_false_iff, List.isEmpty_eq_false_iff] at h
  exact takeWhile_next (fun l hl => by simp [inBlock, hl]) h.1

end Extract

/-! ## Bodies below bodies -/

namespace Body

/-- The line of a body that has a number. -/
def line? (b : Body) (n : Nat) : Option Line :=
  if b.offset < n then b.lines[n - b.offset - 1]? else none

/-- A body without its first lines. -/
def drop (b : Body) (k : Nat) : Body := ⟨b.offset + k, b.lines.drop k⟩

/-- The text of a body from a line on. -/
def textFrom (b : Body) (n : Nat) : List Char :=
  Line.joinLines (b.lines.drop (n - b.offset - 1))

/-- A body's lines have the numbers from its offset on. -/
theorem line?_of_getElem? {o k : Nat} {ls : List Line} {l : Line} (h : ls[k]? = some l) :
    (⟨o, ls⟩ : Body).line? (o + 1 + k) = some l := by
  have : o + 1 + k - o - 1 = k := by omega
  simp only [line?, this, h]
  simp; omega

@[simp] theorem line?_first (o : Nat) (l : Line) (rest : List Line) :
    (⟨o, l :: rest⟩ : Body).line? (o + 1) = some l := by
  simp [line?]

@[simp] theorem line?_second (o : Nat) (l next : Line) (rest : List Line) :
    (⟨o, l :: next :: rest⟩ : Body).line? (o + 1 + 1) = some next := by
  rw [line?, if_pos (show o < o + 1 + 1 by omega), show o + 1 + 1 - o - 1 = 1 by omega]
  rfl

@[simp] theorem line?_third (o : Nat) (l next third : Line) (rest : List Line) :
    (⟨o, l :: next :: third :: rest⟩ : Body).line? (o + 1 + 1 + 1) = some third := by
  rw [line?, if_pos (show o < o + 1 + 1 + 1 by omega), show o + 1 + 1 + 1 - o - 1 = 2 by omega]
  rfl

/-- A line with a number is within the body. -/
theorem range_of_line? {b : Body} {n : Nat} {l : Line} (h : b.line? n = some l) :
    b.offset + 1 ≤ n ∧ n ≤ b.offset + b.lines.length := by
  unfold line? at h
  split at h
  · have := (List.getElem?_eq_some_iff.mp h).1
    omega
  · cases h

/-- What is left of a body keeps its lines' numbers. -/
theorem line?_of_drop {b : Body} {k n : Nat} {l : Line} (h : (b.drop k).line? n = some l) :
    b.line? n = some l := by
  have hrange := range_of_line? h
  simp only [drop] at hrange
  simp only [line?, drop, List.getElem?_drop] at h ⊢
  split at h
  · rw [if_pos (by omega), ← h]
    congr 1
    omega
  · cases h

/-- And what stands from a line on that is left. -/
theorem textFrom_drop {b : Body} {k n : Nat} (h : b.offset + k < n) :
    (b.drop k).textFrom n = b.textFrom n := by
  simp only [textFrom, drop, List.drop_drop]
  congr 2
  omega

/-- The lines of `c` are lines of `b` with the same numbers, without some of
    the characters they start with. -/
structure Below (c b : Body) : Prop where
  start : b.offset ≤ c.offset
  finish : c.offset + c.lines.length ≤ b.offset + b.lines.length
  lines : ∀ n l, c.line? n = some l → ∃ l', b.line? n = some l' ∧ l <:+ l'

namespace Below

variable {b c d : Body}

/-- A body is below itself. -/
theorem refl (b : Body) : b.Below b :=
  ⟨Nat.le_refl _, Nat.le_refl _, fun _ l h => ⟨l, h, List.suffix_rfl⟩⟩

/-- Below is below over a third body. -/
theorem trans (hdc : d.Below c) (hcb : c.Below b) : d.Below b where
  start := hcb.start.trans hdc.start
  finish := hdc.finish.trans hcb.finish
  lines n l h := by
    obtain ⟨l', hl', hsuf⟩ := hdc.lines n l h
    obtain ⟨l'', hl'', hsuf'⟩ := hcb.lines n l' hl'
    exact ⟨l'', hl'', hsuf.trans hsuf'⟩

/-- A part of some lines is below these. -/
theorem of_pared {o : Nat} {short long : List Line} (h : Pared short long) :
    (⟨o, short⟩ : Body).Below ⟨o, long⟩ where
  start := Nat.le_refl o
  finish := Nat.add_le_add_left h.length_le o
  lines n l hl := by
    simp only [line?] at hl ⊢
    split at hl
    · rename_i hn
      rw [if_pos hn]
      exact h _ l hl
    · cases hl

/-- The rest of a body lies below it, as far as it has lines. -/
theorem of_drop {k : Nat} (h : c.Below (b.drop k)) (hk : k ≤ b.lines.length) : c.Below b where
  start := by
    have := h.start
    simp only [drop] at this
    omega
  finish := by
    have := h.finish
    simp only [drop, List.length_drop] at this
    omega
  lines n l hl := by
    obtain ⟨l', hl', hsuf⟩ := h.lines n l hl
    exact ⟨l', line?_of_drop hl', hsuf⟩

end Below

end Body

end MarkupLint
