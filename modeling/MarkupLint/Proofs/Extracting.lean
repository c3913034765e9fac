import Mathlib.Data.List.Forall2
import MarkupLint.Proofs.Lines

/-! # Extracts are as long as they can be and lose nothing

    An extract goes from its first line to the first line after it that is
    neither blank nor indented far enough, and holds those lines without some
    of the characters they start with (`Extract.Cuts`).  Lines that lose their
    common indentation all lose the same, and one of them all it has
    (`Extract.Dedents`), so they stand to one another as before. -/

namespace MarkupLint

/-! ## Indentation -/

namespace Line

/-- A line indented by some columns starts with as many spaces. -/
theorem replicate_prefix_of_le {n : Nat} {l : Line} (h : n ≤ l.indent) :
    List.replicate n ' ' <+: l := by
  induction n generalizing l with
  | zero => exact List.nil_prefix
  | succ n ih =>
    cases l with
    | nil => cases h
    | cons c l =>
      by_cases hc : c = ' '
      · subst hc
        rw [List.replicate_succ, List.cons_prefix_cons]
        exact ⟨rfl, ih (Nat.le_of_succ_le_succ h)⟩
      · rw [Line.indent, List.takeWhile_cons_of_neg (by simpa using hc)] at h
        cases h

/-- Without some of its indentation a line keeps the rest. -/
theorem indent_drop {n : Nat} {l : Line} (h : n ≤ l.indent) :
    l.indent = n + Line.indent (l.drop n) := by
  obtain ⟨rest, rfl⟩ := replicate_prefix_of_le h
  have hdrop : (List.replicate n ' ' ++ rest).drop n = rest :=
    List.drop_left' List.length_replicate
  rw [hdrop, Line.indent, Line.indent, List.takeWhile_append_of_pos, List.length_append,
    List.length_replicate]
  intro c hc
  rw [List.eq_of_mem_replicate hc]
  rfl

end Line

namespace Extract

variable {lines long pared : List Line} {l : Line} {start k : Nat}

/-! ## Lines dedented together -/

/-- Lines without their common indentation. -/
structure Dedents (long pared : List Line) (n : Nat) : Prop where
  /-- Every line loses `n` characters. -/
  dropped : pared = long.map (·.drop n)
  /-- Those of a line that is not blank are spaces, so its indentation is less
      by `n`. -/
  spaces : ∀ l ∈ long, Text.isBlank l = false →
    List.replicate n ' ' <+: l ∧ l.indent = n + Line.indent (l.drop n)
  /-- One line that is not blank keeps no indentation, if there is any. -/
  attained : (∃ l ∈ long, Text.isBlank l = false) →
    ∃ l ∈ long, Text.isBlank l = false ∧ Line.indent (l.drop n) = 0

/-- The common indentation is the least among the lines that are not blank. -/
theorem commonIndent_spec (hsome : ∃ l ∈ long, Text.isBlank l = false) :
    (∃ l ∈ long, Text.isBlank l = false ∧ l.indent = commonIndent long) ∧
      ∀ l ∈ long, Text.isBlank l = false → commonIndent long ≤ l.indent := by
  have hmem : ∀ l ∈ long, Text.isBlank l = false →
      l.indent ∈ (long.filter (!Text.isBlank ·)).map Line.indent := fun l hl hblank =>
    List.mem_map_of_mem (List.mem_filter.mpr ⟨hl, by simp [hblank]⟩)
  unfold commonIndent
  cases hmin : ((long.filter (!Text.isBlank ·)).map Line.indent).min? with
  | none =>
    obtain ⟨l, hl, hblank⟩ := hsome
    have hindent := hmem l hl hblank
    rw [List.min?_eq_none_iff.mp hmin] at hindent
    cases hindent
  | some n =>
    obtain ⟨hattained, hleast⟩ := List.min?_eq_some_iff.mp hmin
    obtain ⟨l, hl, hindent⟩ := List.mem_map.mp hattained
    obtain ⟨hl, hblank⟩ := List.mem_filter.mp hl
    exact ⟨⟨l, hl, by simpa using hblank, hindent⟩, fun l hl hblank => hleast _ (hmem l hl hblank)⟩

theorem dedent_dedents (long : List Line) : Dedents long (dedent long) (commonIndent long) where
  dropped := rfl
  spaces l hl hblank :=
    have hle := (commonIndent_spec ⟨l, hl, hblank⟩).2 l hl hblank
    ⟨Line.replicate_prefix_of_le hle, Line.indent_drop hle⟩
  attained hsome := by
    obtain ⟨l, hl, hblank, hindent⟩ := (commonIndent_spec hsome).1
    have hrest := Line.indent_drop hindent.ge
    exact ⟨l, hl, hblank, by omega⟩

/-! ## Lines cut out together -/

/-- The index of the first line after an extract. -/
def stop (e : Extract) (start : Nat) : Nat := start + 1 + e.extra

/-- An extract is cut out of lines from `start` on, as far as they are indented
    by `k` columns; `pared` are its lines with the blank ones at the end. -/
structure Cuts (e : Extract) (lines : List Line) (start k : Nat) (pared : List Line) : Prop where
  /-- Every line after the first is blank or indented by `k` columns. -/
  inside : ∀ i, start < i → i < e.stop start →
    ∃ l, lines[i]? = some l ∧ (Text.isBlank l = true ∨ k ≤ l.indent)
  /-- The line where the extract ends, if there is one, is neither. -/
  outside : e.stop start = lines.length ∨
    ∃ l, lines[e.stop start]? = some l ∧ Text.isBlank l = false ∧ l.indent < k
  /-- What is left of each line is its end. -/
  kept : List.Forall₂ (· <:+ ·) pared (lines.extract start (e.stop start))
  /-- The extract goes up to the last line of which something is left. -/
  trimmed : e.lines <+: pared ∧ (∀ l ∈ pared.drop e.lines.length, Text.isBlank l = true) ∧
    ∀ l ∈ e.lines.getLast?, Text.isBlank l = false
  /-- It ends well if the text ends with it or its last line was blank. -/
  finish : e.blankFinish = true ↔ e.stop start = lines.length ∨
    ∃ l, lines[e.stop start - 1]? = some l ∧ Text.isBlank l = true

theorem trimEnd_spec (ls : List Line) :
    trimEnd ls <+: ls ∧ (∀ l ∈ ls.drop (trimEnd ls).length, Text.isBlank l = true) ∧
      ∀ l ∈ (trimEnd ls).getLast?, Text.isBlank l = false := by
  have hparts : trimEnd ls ++ (ls.reverse.takeWhile Text.isBlank).reverse = ls := by
    rw [trimEnd, ← List.reverse_append, List.takeWhile_append_dropWhile, List.reverse_reverse]
  refine ⟨trimEnd_isStart ls, fun l hl => ?_, fun l hl => ?_⟩
  · have hrest := congrArg (List.drop (trimEnd ls).length) hparts
    rw [List.drop_left] at hrest
    rw [← hrest, List.mem_reverse] at hl
    exact List.all_eq_true.mp List.all_takeWhile l hl
  · rw [trimEnd, List.getLast?_reverse] at hl
    have hnot := List.head?_dropWhile_not Text.isBlank ls.reverse
    rw [hl] at hnot
    simpa using hnot

/-- The lines that go on with a first one are those up to where they end. -/
theorem extract_takeWhile (p : Line → Bool) (lines : List Line) (i : Nat) :
    lines.extract i (i + ((lines.drop i).takeWhile p).length) = (lines.drop i).takeWhile p := by
  rw [List.extract_eq_take_drop, Nat.add_sub_cancel_left]
  exact (List.prefix_iff_eq_take.mp (List.takeWhile_prefix p)).symm

theorem extract_cons (hstart : start < lines.length) (n : Nat) :
    lines.extract start (start + 1 + n) = lines[start] :: lines.extract (start + 1) (start + 1 + n) := by
  rw [List.extract_eq_take_drop, List.extract_eq_take_drop, List.drop_eq_getElem_cons hstart,
    Nat.add_sub_cancel_left, Nat.add_assoc, Nat.add_sub_cancel_left, Nat.add_comm 1,
    List.take_succ_cons]

/-- A line and those that go on with it stand in the lines as they are. -/
theorem extract_run (hstart : start < lines.length) (p : Line → Bool) :
    lines.extract start (start + 1 + ((lines.drop (start + 1)).takeWhile p).length)
      = lines[start] :: (lines.drop (start + 1)).takeWhile p := by
  rw [extract_cons hstart, extract_takeWhile]

/-- The longest run of lines that go on with the first is cut out. -/
theorem finish_cuts (hstart : start < lines.length) (k : Nat) {pared : List Line} :
    let taken := (lines.drop (start + 1)).takeWhile (inKnown k)
    List.Forall₂ (· <:+ ·) pared (lines[start] :: taken) →
      (finish lines[start] taken ((lines.drop (start + 1)).drop taken.length) pared).Cuts
        lines start k pared := by
  intro taken hkept
  obtain ⟨after, hafter⟩ : ∃ after, after = (lines.drop (start + 1)).drop taken.length := ⟨_, rfl⟩
  have hrun : lines.drop start = (lines[start] :: taken) ++ after := by
    rw [List.drop_eq_getElem_cons hstart, hafter, drop_takeWhile_length, List.cons_append,
      List.takeWhile_append_dropWhile]
  have hat : ∀ j, lines[start + j]? = ((lines[start] :: taken) ++ after)[j]? := fun j => by
    rw [← hrun, List.getElem?_drop]
  have hlength : lines.length = start + 1 + taken.length + after.length := by
    have := congrArg List.length hrun
    rw [List.length_drop, List.length_append, List.length_cons] at this
    omega
  have hstop : start + 1 + taken.length = start + (lines[start] :: taken).length := by
    rw [List.length_cons]
    omega
  have hlast : lines[start + 1 + taken.length - 1]? = some (taken.getLastD lines[start]) := by
    have hindex : start + 1 + taken.length - 1 = start + taken.length := by omega
    rw [hindex, hat, List.getElem?_append_left (by simp), List.getLastD_eq_getLast?,
      ← List.getLast?_cons, List.getLast?_eq_getElem?]
    rfl
  rw [← hafter]
  exact {
    inside := fun i hi hlt => by
      obtain ⟨j, rfl⟩ := Nat.exists_eq_add_of_lt hi
      have hj : j < taken.length := by
        simp only [stop, finish] at hlt
        omega
      refine ⟨taken[j], ?_, ?_⟩
      · rw [Nat.add_assoc, hat, List.cons_append, List.getElem?_cons_succ,
          List.getElem?_append_left hj, List.getElem?_eq_getElem hj]
      · have hgoes := List.all_eq_true.mp List.all_takeWhile _ (List.getElem_mem hj)
        simpa [inKnown] using hgoes
    outside := by
      cases hcase : after with
      | nil =>
        rw [hcase, List.length_nil] at hlength
        exact .inl hlength.symm
      | cons x more =>
        have hx : lines[start + 1 + taken.length]? = some x := by
          rw [hstop, hat, hcase, List.getElem?_append_right (Nat.le_refl _), Nat.sub_self]
          rfl
        have hnot := List.head?_dropWhile_not (inKnown k) (lines.drop (start + 1))
        rw [← drop_takeWhile_length, ← hafter, hcase] at hnot
        simp only [List.head?_cons, inKnown, Bool.or_eq_false_iff,
          decide_eq_false_iff_not, Nat.not_le] at hnot
        exact .inr ⟨x, hx, hnot⟩
    kept := by
      have hrange : lines.extract start (start + 1 + taken.length) = lines[start] :: taken :=
        extract_run hstart _
      simpa only [stop, finish, hrange] using hkept
    trimmed := trimEnd_spec pared
    finish := by
      simp only [finish, stop, hlast, Bool.or_eq_true, List.isEmpty_iff, Option.some.injEq,
        exists_eq_left', hlength, Nat.left_eq_add, List.length_eq_zero_iff] }

/-- What is left of lines that lose some of their first characters. -/
theorem forall₂_map_drop (n : Nat) (ls : List Line) :
    List.Forall₂ (· <:+ ·) (ls.map (·.drop n)) ls := by
  rw [List.forall₂_map_left_iff, List.forall₂_same]
  exact fun l _ => List.drop_suffix n l

/-- **An extract is as long as it can be and loses nothing.**  Cut out of lines
    from any of them on, it ends at the first line after that which is neither
    blank nor indented (by `k` columns if so much is known), and holds what is
    left of the lines before, up to the last one that is not blank.  Indented
    lines all lose their common indentation; where `k` columns are known, each
    line loses those; and where they are known of the first line only, it loses
    them, and the others their common indentation. -/
theorem extracts_maximal (hstart : start < lines.length) (k : Nat) :
    let rest := lines.drop (start + 1)
    (let e := indented lines[start] rest
      ∃ pared, e.Cuts lines start 1 pared ∧
        ∃ n, Dedents (lines.extract start (e.stop start)) pared n) ∧
    (let e := known k lines[start] rest
      ∃ pared, e.Cuts lines start k pared ∧
        pared = (lines.extract start (e.stop start)).map (·.drop k) ∧
        ∀ l ∈ lines.extract (start + 1) (e.stop start), Text.isBlank l = false →
          List.replicate k ' ' <+: l ∧ l.indent = k + Line.indent (l.drop k)) ∧
    (let e := firstKnown k lines[start] rest
      ∃ pared, e.Cuts lines start 1 (lines[start].drop k :: pared) ∧
        ∃ n, Dedents (lines.extract (start + 1) (e.stop start)) pared n) := by
  intro rest
  refine ⟨?_, ?_, ?_⟩
  · let taken := rest.takeWhile inBlock
    refine ⟨dedent (lines[start] :: taken), finish_cuts hstart 1 (forall₂_map_drop _ _),
      commonIndent (lines[start] :: taken), ?_⟩
    show Dedents (lines.extract start (start + 1 + taken.length)) _ _
    rw [extract_run hstart]
    exact dedent_dedents _
  · let taken := rest.takeWhile (inKnown k)
    refine ⟨(lines[start] :: taken).map (List.drop k), finish_cuts hstart k (forall₂_map_drop _ _),
      congrArg _ (extract_run hstart _).symm, ?_⟩
    show ∀ l ∈ lines.extract (start + 1) (start + 1 + taken.length), _
    rw [extract_takeWhile]
    intro l hl hblank
    have hgoes := List.all_eq_true.mp List.all_takeWhile l hl
    have hle : k ≤ l.indent := by simpa [inKnown, hblank] using hgoes
    exact ⟨Line.replicate_prefix_of_le hle, Line.indent_drop hle⟩
  · let taken := rest.takeWhile inBlock
    refine ⟨dedent taken,
      finish_cuts hstart 1 (.cons (List.drop_suffix k _) (forall₂_map_drop _ _)),
      commonIndent taken, ?_⟩
    show Dedents (lines.extract (start + 1) (start + 1 + taken.length)) _ _
    rw [extract_takeWhile]
    exact dedent_dedents _

/-- The second item of a list, with a blank line in it that has spaces. -/
theorem extracts_maximal_item :
    let lines : List Line := ["- a", "- b", "     c", " ", "   d", "", "e"].map String.toList
    let e := firstKnown 2 "- b".toList (lines.drop 2)
    e.stop 1 = 6 ∧ e.lines = ["b", "  c", "", "d"].map String.toList ∧
      ∃ pared, e.Cuts lines 1 1 ("b".toList :: pared) ∧
        ∃ n, Dedents (lines.extract 2 6) pared n := by
  intro lines e
  have hstart : 1 < lines.length := by decide
  exact ⟨by decide, by decide, (extracts_maximal hstart 2).2.2⟩

end Extract

end MarkupLint
