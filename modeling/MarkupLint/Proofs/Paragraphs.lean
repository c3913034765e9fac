import Mathlib.Data.List.TakeWhile
import MarkupLint.Body.Reader
import MarkupLint.Proofs.Lines

/-! # Paragraphs

    A line that starts no other construct starts text (`startsText`).  Text
    is a paragraph up to the next blank line, unless its second line is an
    adornment or is indented, or its last character is a colon
    (`block_of_isParagraph`). -/

namespace MarkupLint.Reader

/-- Whether a line starts nothing but text. -/
def startsText (l : Line) : Bool :=
  Pattern.isPlain l && !(Pattern.options? l).isSome && !Pattern.isLineBlock l

theorem block_of_startsText {l : Line} (h : startsText l = true) (how : Manner) (n : Nat)
    (rest : List Line) : block how n l rest = text how n l rest := by
  simp only [startsText, Pattern.isPlain, Pattern.isExplicit, Pattern.isAnonymous, Bool.and_eq_true,
    Bool.not_eq_true', Bool.or_eq_false_iff, Option.isSome_eq_false_iff, Option.isNone_iff_eq_none] at h
  obtain ⟨⟨⟨⟨⟨⟨⟨⟨⟨⟨⟨⟨hblank, hindent⟩, hbullet⟩, henumerator⟩, hfield⟩, hexplicit⟩, hanonymous⟩,
    hdoctest⟩, hgrid⟩, hsimple⟩, hadornment⟩, hoptions⟩, hbar⟩ := h
  simp [block, hblank, hindent, hbullet, henumerator, hfield, hexplicit, hanonymous, hdoctest, hgrid,
    hsimple, hadornment, hoptions, hbar]

/-- Such a line goes on with no indented block. -/
theorem not_inBlock_of_startsText {l : Line} (h : startsText l = true) :
    Extract.inBlock l = false := by
  have hplain : Pattern.isPlain l = true := (Bool.and_eq_true_iff.mp (Bool.and_eq_true_iff.mp h).1).1
  rw [Extract.inBlock]
  cases hbad : Text.isBlank l || l.isIndented with
  | false => rfl
  | true => simp [Pattern.isPlain, hbad] at hplain

/-- The lines of a paragraph: the first starts nothing but text, and the
    others go on with it. -/
structure IsParagraph (first : Line) (lines : List Line) : Prop where
  starts : startsText first = true
  goOn : ∀ x ∈ lines, Text.isBlank x = false ∧ x.isIndented = false
  untitled : ∀ x ∈ lines.head?, Pattern.isAdornment x = false

/-- White space adorns nothing. -/
theorem not_isAdornment_of_isBlank {l : Line} (h : Text.isBlank l = true) :
    Pattern.isAdornment l = false := by
  cases l with
  | nil => rfl
  | cons c l =>
    have hc : Text.isBlankChar c = true := (List.all_eq_true.mp h) c List.mem_cons_self
    have hnot : ¬(0x21 ≤ c.toNat ∧ c.toNat ≤ 0x7E) := by
      intro hrange
      simp only [Text.isBlankChar, if_pos (show c.toNat < 0x80 by omega), Bool.or_eq_true, beq_iff_eq,
        decide_eq_true_eq] at hc
      omega
    simp [Pattern.isAdornment, Pattern.isAdornmentChar, hnot]

/-- What does not end with a colon announces nothing. -/
theorem announcement_eq {text : List Char} (h : text.getLast? ≠ some ':') :
    announcement text = (text, false) := by
  rw [← List.head?_reverse] at h
  unfold announcement
  split
  · rename_i heq
    rw [heq] at h
    exact absurd rfl h
  · rfl

/-- A paragraph before a blank line or the end of the text. -/
theorem block_of_isParagraph {first : Line} {lines rest : List Line} (h : IsParagraph first lines)
    (hcolon : (Line.joinLines (first :: lines)).getLast? ≠ some ':')
    (hrest : ∀ x ∈ rest.head?, Text.isBlank x = true) (how : Manner) (n : Nat) :
    block how n first (lines ++ rest)
      = ([.paragraph n (Line.joinLines (first :: lines)) none], lines.length) := by
  -- The next line is neither an adornment nor the start of a definition.
  have hnext : ∀ x ∈ (lines ++ rest).head?,
      Pattern.isAdornment x = false ∧ (!Text.isBlank x && x.isIndented) = false := by
    intro x hx
    cases lines with
    | nil => exact ⟨not_isAdornment_of_isBlank (hrest x hx), by rw [hrest x hx]; rfl⟩
    | cons y lines =>
      obtain rfl := Option.some.inj hx
      exact ⟨h.untitled y rfl, by rw [(h.goOn y List.mem_cons_self).2, Bool.and_false]⟩
  have htaken : (lines ++ rest).takeWhile (fun x : Line => !Text.isBlank x && !x.isIndented) = lines := by
    rw [Extract.takeWhile_append_of_head fun x hx => by rw [hrest x hx]; rfl]
    refine List.takeWhile_eq_self_iff.mpr fun x hx => ?_
    rw [(h.goOn x hx).1, (h.goOn x hx).2]
    rfl
  have hparagraph : paragraph n first (lines ++ rest)
      = ([.paragraph n (Line.joinLines (first :: lines)) none], lines.length) := by
    unfold paragraph
    simp only [htaken, List.drop_left, announcement_eq hcolon, Bool.false_eq_true, if_false]
    cases rest with
    | nil => rfl
    | cons x rest => simp only [hrest x rfl, if_true]
  rw [block_of_startsText h.starts, ← hparagraph]
  generalize lines ++ rest = following at hnext
  cases following with
  | nil => rfl
  | cons x following =>
    obtain ⟨hadornment, hindented⟩ := hnext x rfl
    simp only [text, hadornment, hindented, Bool.false_eq_true, if_false]

end MarkupLint.Reader
