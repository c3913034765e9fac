import MarkupLint.Proofs.Prose
import MarkupLint.Proofs.Reading

/-! # Texts with an outline

    An outline is rendered line by line, with one adornment for the titles of
    each depth (`Outline.lines`).  The lines of the text are those that were
    rendered (`Outline.splitLines?_text`), and read one by one they are
    headings and paragraphs again, in the same order
    (`Outline.blocks_lines`). -/

namespace MarkupLint

open Line (Prose Tidy)


/-! ## Outlines -/

/-- Sections beside one another: none, or the first of them, with its title,
    its paragraphs and the sections in it, and then those after it. -/
inductive Sections where
  | none
  | cons (title : Line) (paragraphs : List Line) (inner after : Sections)
  deriving DecidableEq, Repr

/-- Paragraphs, and sections after them. -/
structure Outline where
  paragraphs : List Line
  sections : Sections
  deriving DecidableEq, Repr

namespace Sections

/-- How many sections are inside one another. -/
def depth : Sections → Nat
  | none => 0
  | cons _ _ inner after => max (inner.depth + 1) after.depth

/-- The titles, in order. -/
def titles : Sections → List Line
  | none => []
  | cons title _ inner after => title :: (inner.titles ++ after.titles)

/-- The paragraphs, in order. -/
def paragraphs : Sections → List Line
  | none => []
  | cons _ paragraphs inner after => paragraphs ++ (inner.paragraphs ++ after.paragraphs)

end Sections

/-! ## Rendering -/

/-- Each paragraph is followed by a blank line. -/
def paragraphLines (ps : List Line) : List Line := ps.flatMap fun p => [p, []]

namespace Sections

/-- A title stands over as many marks of its depth, and a blank line. -/
def lines (marks : List Char) (depth : Nat) : Sections → List Line
  | none => []
  | cons title paragraphs inner after =>
    title :: List.replicate title.length (marks.getD depth '=') :: [] ::
      (paragraphLines paragraphs ++ (inner.lines marks (depth + 1) ++ after.lines marks depth))

end Sections

namespace Outline

def lines (o : Outline) (marks : List Char) : List Line :=
  paragraphLines o.paragraphs ++ o.sections.lines marks 0

/-- The text: every line ends with a line feed. -/
def text (o : Outline) (marks : List Char) : List Char := (o.lines marks).flatMap (· ++ ['\n'])

/-- Titles and paragraphs are lines of words, and no two titles are equal. -/
structure Valid (o : Outline) : Prop where
  paragraphs : ∀ p ∈ o.paragraphs ++ o.sections.paragraphs, p.isProse = true
  titles : ∀ t ∈ o.sections.titles, t.isProse = true
  nodup : o.sections.titles.Nodup

end Outline

/-- Marks that adorn titles, a different one for every depth. -/
structure Adornments (marks : List Char) : Prop where
  adorn : ∀ m ∈ marks, Pattern.isAdornmentChar m = true
  nodup : marks.Nodup

/-! ## The lines of the text -/

theorem normalizeNewlines_eq {s : List Char} (h : '\r' ∉ s) : normalizeNewlines s = s := by
  induction s with
  | nil => rfl
  | cons c s ih =>
    obtain ⟨hc, hs⟩ := not_or.mp fun hmem => h (List.mem_cons.mpr hmem)
    rw [normalizeNewlines, ih hs]
    · rintro rest rfl
      exact absurd rfl hc
    · rintro rfl
      exact absurd rfl hc

/-- The lines of a text that they are joined to: an empty line at its end is
    the end of the line before it. -/
theorem splitLines?_joinLines {ls : List Line} (h : ∀ l ∈ ls, Line.Clean l) (hne : ls ≠ [])
    (hmark : (Line.joinLines ls).head? ≠ some '\ufeff') (width : Int) :
    splitLines? width (Line.joinLines ls)
      = some (if ls.getLast? = some [] then ls.dropLast else ls) := by
  have hreturn : '\r' ∉ Line.joinLines ls := by
    intro hmem
    obtain hfeed | ⟨l, hl, hmem⟩ := Line.mem_of_mem_joinLines hmem
    · exact absurd hfeed (by decide)
    · exact (h l hl).not_mem (by decide) hmem
  have hpieces : Text.splitOn '\n' (Line.joinLines ls) = ls := by
    rw [Text.splitOn_eq]
    exact List.splitOn_intercalate '\n' (fun l hl => (h l hl).not_mem (by decide)) hne
  have hclean : ∀ ls : List Line, (∀ l ∈ ls, Line.Clean l) → ls.mapM (cleanLine? width) = some ls := by
    intro ls h
    induction ls with
    | nil => rfl
    | cons l ls ih =>
      obtain ⟨hl, hls⟩ := List.forall_mem_cons.mp h
      rw [List.mapM_cons, hl.cleanLine?_eq, ih hls]
      rfl
  unfold splitLines?
  rw [normalizeNewlines_eq hreturn]
  dsimp only
  split
  · rename_i heq
    exact absurd (by rw [heq]; rfl) hmark
  · simp only [rawLines, hpieces]
    split
    · exact hclean _ fun l hl => h l (List.dropLast_subset _ hl)
    · exact hclean _ h

/-- A text in which every line ends with a line feed. -/
theorem Line.joinLines_concat_nil (ls : List Line) :
    joinLines (ls ++ [[]]) = ls.flatMap (· ++ ['\n']) := by
  induction ls with
  | nil => rfl
  | cons l ls ih =>
    obtain ⟨m, more, hmore⟩ := List.exists_cons_of_ne_nil (List.append_ne_nil_of_right_ne_nil ls
      (List.cons_ne_nil ([] : Line) []))
    rw [List.flatMap_cons, ← ih, List.cons_append, hmore, joinLines_cons_cons, List.append_assoc,
      List.singleton_append]

theorem Line.joinLines_concat_nil_of_ne_nil {ls : List Line} (h : ls ≠ []) :
    joinLines (ls ++ [[]]) = joinLines ls ++ ['\n'] := by
  induction ls with
  | nil => exact absurd rfl h
  | cons l ls ih =>
    cases ls with
    | nil => simp [joinLines, List.intercalate]
    | cons m ls =>
      rw [List.cons_append, List.cons_append, joinLines_cons_cons, ← List.cons_append,
        ih (List.cons_ne_nil m ls), joinLines_cons_cons, List.append_assoc, List.cons_append]

/-- The last line of a text may end with a line feed or without. -/
theorem splitLines?_of_clean {ls : List Line} (h : ∀ l ∈ ls, Line.Clean l)
    (hlast : ∃ l ∈ ls.getLast?, l ≠ []) (hmark : (Line.joinLines ls).head? ≠ some '\ufeff')
    {ending : List Char} (hending : ending = [] ∨ ending = ['\n']) (width : Int) :
    splitLines? width (Line.joinLines ls ++ ending) = some ls := by
  obtain ⟨l, hl, hnil⟩ := hlast
  have hne : ls ≠ [] := by
    rintro rfl
    cases hl
  rcases hending with rfl | rfl
  · have hfull : ls.getLast? ≠ some [] := by
      rw [show ls.getLast? = some l from hl]
      exact fun heq => hnil (Option.some.inj heq)
    rw [List.append_nil, splitLines?_joinLines h hne hmark, if_neg hfull]
  · have hclean : ∀ l ∈ ls ++ [[]], Line.Clean l :=
      List.forall_mem_append.mpr ⟨h, List.forall_mem_singleton.mpr .nil⟩
    have hmark' : (Line.joinLines (ls ++ [[]])).head? ≠ some '\ufeff' := by
      rw [Line.joinLines_concat_nil_of_ne_nil hne]
      cases htext : Line.joinLines ls with
      | nil => exact fun heq => absurd (Option.some.inj heq) (by decide)
      | cons c more =>
        rw [htext] at hmark
        exact hmark
    rw [← Line.joinLines_concat_nil_of_ne_nil hne, splitLines?_joinLines hclean (by simp) hmark',
      List.getLast?_concat, if_pos rfl, List.dropLast_concat]

/-- No text of tidy lines starts with a byte order mark. -/
theorem head?_joinLines_of_tidy {ls : List Line} (h : ∀ l ∈ ls, Tidy l) :
    (Line.joinLines ls).head? ≠ some '\ufeff' := by
  intro heq
  obtain hfeed | ⟨l, hl, hmem⟩ := Line.mem_of_mem_joinLines (List.mem_of_head? heq)
  · exact absurd hfeed (by decide)
  · exact (h l hl).not_mem (by decide) hmem

theorem splitLines?_of_tidy {ls : List Line} (h : ∀ l ∈ ls, Tidy l) (width : Int) :
    splitLines? width (ls.flatMap (· ++ ['\n'])) = some ls := by
  have hall : ∀ l ∈ ls ++ [[]], Tidy l :=
    List.forall_mem_append.mpr ⟨h, List.forall_mem_singleton.mpr .nil⟩
  rw [← Line.joinLines_concat_nil, splitLines?_joinLines (fun l hl => (hall l hl).clean) (by simp)
    (head?_joinLines_of_tidy hall), List.getLast?_concat, if_pos rfl, List.dropLast_concat]

/-- By the parts of an outline: all its lines are tidy. -/
theorem tidy_paragraphLines {ps : List Line} (h : ∀ p ∈ ps, Prose p) :
    ∀ l ∈ paragraphLines ps, Tidy l := by
  intro l hl
  obtain ⟨p, hp, hmem⟩ := List.mem_flatMap.mp hl
  simp only [List.mem_cons, List.not_mem_nil, or_false] at hmem
  rcases hmem with rfl | rfl
  · exact (h l hp).tidy
  · exact .nil

namespace Adornments

variable {marks : List Char} (h : Adornments marks)
include h

theorem isAdornmentChar_getD (depth : Nat) : Pattern.isAdornmentChar (marks.getD depth '=') = true := by
  rw [List.getD_eq_getElem?_getD]
  cases hmark : marks[depth]? with
  | none => decide
  | some m => exact h.adorn m (List.mem_of_getElem? hmark)

theorem tidy_replicate (depth count : Nat) : Tidy (List.replicate count (marks.getD depth '=')) := by
  have hmark := h.isAdornmentChar_getD depth
  simp only [Pattern.isAdornmentChar, Bool.and_eq_true, decide_eq_true_eq] at hmark
  refine ⟨fun c hc => ?_, fun hlast => ?_⟩
  · rw [List.eq_of_mem_replicate hc]
    exact ⟨by simpa using Nat.le_of_lt hmark.1.1, hmark.1.2⟩
  · rw [← List.eq_of_mem_replicate (List.mem_of_getLast? hlast)] at hmark
    exact absurd hmark.1.1 (by decide)

end Adornments

/-- Sections whose titles and paragraphs are lines of words. -/
structure Sections.Worded (ss : Sections) : Prop where
  titles : ∀ t ∈ ss.titles, Prose t
  paragraphs : ∀ p ∈ ss.paragraphs, Prose p

theorem Sections.Worded.uncons {title : Line} {ps : List Line} {inner after : Sections}
    (h : (cons title ps inner after).Worded) :
    Prose title ∧ (∀ p ∈ ps, Prose p) ∧ inner.Worded ∧ after.Worded := by
  obtain ⟨htitles, hparagraphs⟩ := h
  obtain ⟨htitle, htitles⟩ := List.forall_mem_cons.mp htitles
  obtain ⟨hinner, hafter⟩ := List.forall_mem_append.mp htitles
  obtain ⟨hps, hparagraphs⟩ := List.forall_mem_append.mp hparagraphs
  obtain ⟨hinner', hafter'⟩ := List.forall_mem_append.mp hparagraphs
  exact ⟨htitle, hps, ⟨hinner, hinner'⟩, ⟨hafter, hafter'⟩⟩

theorem Sections.Worded.tidy {marks : List Char} (hmarks : Adornments marks) {ss : Sections}
    (h : ss.Worded) (depth : Nat) : ∀ l ∈ ss.lines marks depth, Tidy l := by
  induction ss generalizing depth with
  | none => exact List.forall_mem_nil _
  | cons title ps inner after ihInner ihAfter =>
    obtain ⟨htitle, hps, hinner, hafter⟩ := h.uncons
    refine List.forall_mem_cons.mpr ⟨htitle.tidy, List.forall_mem_cons.mpr
      ⟨hmarks.tidy_replicate depth _, List.forall_mem_cons.mpr ⟨⟨List.forall_mem_nil _, nofun⟩, ?_⟩⟩⟩
    exact List.forall_mem_append.mpr ⟨tidy_paragraphLines hps,
      List.forall_mem_append.mpr ⟨ihInner hinner _, ihAfter hafter _⟩⟩

theorem Outline.Valid.worded {o : Outline} (h : o.Valid) :
    (∀ p ∈ o.paragraphs, Prose p) ∧ o.sections.Worded := by
  obtain ⟨hps, hparagraphs⟩ := List.forall_mem_append.mp h.paragraphs
  exact ⟨fun p hp => Line.prose_of_isProse (hps p hp),
    fun t ht => Line.prose_of_isProse (h.titles t ht),
    fun p hp => Line.prose_of_isProse (hparagraphs p hp)⟩

/-- The lines of the text are those that were rendered. -/
theorem Outline.splitLines?_text {marks : List Char} (hmarks : Adornments marks) {o : Outline}
    (h : o.Valid) (width : Int) : splitLines? width (o.text marks) = some (o.lines marks) := by
  obtain ⟨hps, hsections⟩ := h.worded
  exact splitLines?_of_tidy (List.forall_mem_append.mpr
    ⟨tidy_paragraphLines hps, hsections.tidy hmarks 0⟩) width

/-! ## The blocks of the lines -/

/-- Paragraphs, the first of them on line `n`. -/
def paragraphBlocks : Nat → List Line → List Block
  | _, [] => []
  | n, p :: ps => .paragraph n p none :: paragraphBlocks (n + 2) ps

namespace Sections

/-- How many lines are rendered. -/
def height : Sections → Nat
  | none => 0
  | cons _ paragraphs inner after => 3 + 2 * paragraphs.length + (inner.height + after.height)

/-- A title with its adornment, on line `n`. -/
def heading (marks : List Char) (depth n : Nat) (title : Line) : Heading where
  text := title
  markup := title ++ '\n' :: List.replicate title.length (marks.getD depth '=')
  style := ⟨marks.getD depth '=', Option.none⟩
  line := n
  shortage := Option.none

/-- The headings and paragraphs of sections that start on line `n`. -/
def blocks (marks : List Char) (depth n : Nat) : Sections → List Block
  | none => []
  | cons title paragraphs inner after =>
    let below := n + 3 + 2 * paragraphs.length
    .heading (heading marks depth n title) :: (paragraphBlocks (n + 3) paragraphs ++
      (inner.blocks marks (depth + 1) below ++ after.blocks marks depth (below + inner.height)))

end Sections

/-- A blank line is no block. -/
theorem Reader.blocks_blank (how : Manner) (n : Nat) (rest : List Line) :
    blocks how n ([] :: rest) = blocks how (n + 1) rest := by
  have hblock : block how n [] rest = ([], 0) := by simp [block, Text.isBlank]
  rw [blocks_cons, hblock]
  rfl

theorem blocks_paragraphLines {ps : List Line} (h : ∀ p ∈ ps, Prose p) (how : Reader.Manner)
    (n : Nat) (rest : List Line) :
    Reader.blocks how n (paragraphLines ps ++ rest)
      = paragraphBlocks n ps ++ Reader.blocks how (n + 2 * ps.length) rest := by
  induction ps generalizing n with
  | nil => rfl
  | cons p ps ih =>
    obtain ⟨hp, hps⟩ := List.forall_mem_cons.mp h
    have hlines : paragraphLines (p :: ps) ++ rest = p :: [] :: (paragraphLines ps ++ rest) := rfl
    have hheight : n + 2 * (p :: ps).length = n + 2 + 2 * ps.length := by
      rw [List.length_cons]
      omega
    rw [hlines, Reader.blocks_cons, hp.block_paragraph, List.drop_zero, Reader.blocks_blank]
    dsimp only
    rw [ih hps, paragraphBlocks, hheight]
    rfl

section Titles

variable {how : Reader.Manner} (htitles : how.titles = true)
  (hwidth : ∀ l, Prose l → how.width l = l.length)
include htitles hwidth

/-- By the sections: a heading takes two lines, and a blank line is no
    block. -/
theorem Sections.Worded.blocks_lines {marks : List Char} (hmarks : Adornments marks) {ss : Sections}
    (h : ss.Worded) (depth n : Nat) (rest : List Line) :
    Reader.blocks how n (ss.lines marks depth ++ rest)
      = ss.blocks marks depth n ++ Reader.blocks how (n + ss.height) rest := by
  induction ss generalizing depth n rest with
  | none => rfl
  | cons title ps inner after ihInner ihAfter =>
    obtain ⟨htitle, hps, hinner, hafter⟩ := h.uncons
    have hheading := htitle.block_heading (hmarks.isAdornmentChar_getD depth) htitles
      (hwidth title htitle)
    simp only [lines, List.cons_append, List.append_assoc]
    rw [Reader.blocks_cons, hheading, List.drop_one, List.tail_cons, Reader.blocks_blank]
    dsimp only
    rw [show n + 1 + 1 + 1 = n + 3 from rfl, blocks_paragraphLines hps, ihInner hinner, ihAfter hafter]
    simp only [blocks, heading, height, List.cons_append, List.nil_append, List.append_assoc,
      Nat.add_assoc]

/-- The lines of an outline are read as its headings and paragraphs. -/
theorem Outline.blocks_lines {marks : List Char} (hmarks : Adornments marks) {o : Outline}
    (h : o.Valid) :
    Reader.blocks how 1 (o.lines marks)
      = paragraphBlocks 1 o.paragraphs
        ++ o.sections.blocks marks 0 (1 + 2 * o.paragraphs.length) := by
  obtain ⟨hps, hsections⟩ := h.worded
  have hblocks := hsections.blocks_lines htitles hwidth hmarks 0 (1 + 2 * o.paragraphs.length) []
  rw [List.append_nil, Reader.blocks, List.append_nil] at hblocks
  rw [lines, blocks_paragraphLines hps, hblocks]

end Titles

end MarkupLint
