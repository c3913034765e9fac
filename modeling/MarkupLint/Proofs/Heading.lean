import MarkupLint.Parse.Body
import MarkupLint.Proofs.Reading

/-! # Where titles are found

    Where no titles are allowed, no block of a body is one: what looks like
    a title there is a complaint.  Where they are, the style of a title is
    made of the characters of its adornment. -/

namespace MarkupLint

/-- The title that a block is. -/
def Block.heading? : Block → Option Heading
  | .heading h => some h
  | _ => none

/-- The characters of a style adorn lines. -/
def TitleStyle.IsAdornment (style : TitleStyle) : Prop :=
  Pattern.isAdornmentChar style.underline = true ∧
    ∀ c ∈ style.overline, Pattern.isAdornmentChar c = true

/-- A title has a style that adorns lines. -/
def Block.Adorned (block : Block) : Prop :=
  ∀ h, block.heading? = some h → h.style.IsAdornment

/-! ## Readers that find no title -/

namespace Reader

/-- None of the blocks is a title. -/
def Untitled (bs : List Block) : Prop := ∀ b ∈ bs, b.heading? = none

namespace Untitled

/-- No blocks, no titles. -/
theorem nil : Untitled [] := fun _ h => by cases h

theorem cons {b : Block} {bs : List Block} (hb : b.heading? = none) (hbs : Untitled bs) :
    Untitled (b :: bs) :=
  List.forall_mem_cons.mpr ⟨hb, hbs⟩

theorem one {b : Block} (hb : b.heading? = none) : Untitled [b] := .cons hb .nil

theorem append {bs cs : List Block} (hbs : Untitled bs) (hcs : Untitled cs) :
    Untitled (bs ++ cs) :=
  List.forall_mem_append.mpr ⟨hbs, hcs⟩

end Untitled

/-- A complaint about an unindented line is no title. -/
theorem unindentUnless_untitled (finished : Bool) (what : String) (line : Nat) :
    Untitled (unindentUnless finished what line) := by
  cases finished with
  | true => exact .nil
  | false => exact .one rfl

/-- What follows an announcement is no title. -/
theorem literalAfter_untitled (n : Nat) (ls : List Line) : Untitled (literalAfter n ls).1 := by
  simp only [literalAfter]
  split
  · exact .one rfl
  · split
    · exact .cons rfl (unindentUnless_untitled _ _ _)
    · split
      · refine .append ?_ (.one rfl)
        split
        · exact .one rfl
        · exact .nil
      · exact .one rfl

/-- A paragraph, with a literal block or without, holds no title. -/
theorem paragraph_untitled (n : Nat) (l : Line) (rest : List Line) :
    Untitled (paragraph n l rest).1 := by
  simp only [paragraph]
  split
  · exact .cons rfl (literalAfter_untitled _ _)
  · exact .one rfl

/-- A list is no title if its block is none. -/
theorem listReading_untitled {α : Type} (what : String) (n : Nat) {block : List α → Block}
    (hblock : ∀ items, (block items).heading? = none) (found : List α × Nat × Bool) :
    Untitled (listReading what n block found).1 :=
  .cons (hblock _) (unindentUnless_untitled _ _ _)

/-- A grid table, malformed or not, is no title. -/
theorem gridTable_untitled (n : Nat) (l : Line) (rest : List Line) :
    Untitled (gridTable n l rest).1 := by
  simp only [gridTable]
  split
  · exact .one rfl
  · exact .one rfl

section NoTitles

variable {how : Manner} (htitles : how.titles = false)
include htitles

/-- An adornment line where no sections may start. -/
theorem adornment_untitled (n : Nat) (l : Line) (rest : List Line) :
    Untitled (adornment how n l rest).1 := by
  simp only [adornment, htitles, Bool.not_false, if_true]
  split
  · exact paragraph_untitled n l rest
  · split
    · exact .cons rfl (paragraph_untitled n l rest)
    · exact .one rfl

/-- What is read from an underlined text there is a complaint. -/
theorem underlined_untitled {n : Nat} {title underline : Line} {reading : Reading}
    {complaints : List Block} (h : underlined how n title underline = (some reading, complaints)) :
    Untitled reading.1 := by
  simp only [underlined, htitles, Bool.false_eq_true, if_false] at h
  split at h
  · cases h
  · cases h
    refine .append ?_ (.one rfl)
    intro b hb
    obtain ⟨p, -, rfl⟩ := List.mem_map.mp hb
    rfl

/-- An underlined text that is read as text is not complained about. -/
theorem underlined_complaints_untitled {n : Nat} {title underline : Line} {reading : Option Reading}
    {complaints : List Block} (h : underlined how n title underline = (reading, complaints)) :
    Untitled complaints := by
  simp only [underlined, htitles, Bool.false_eq_true, if_false] at h
  split at h
  · cases h
    exact .nil
  · cases h
    exact .nil

/-- Text where no sections may start. -/
theorem text_untitled (n : Nat) (l : Line) (rest : List Line) :
    Untitled (text how n l rest).1 := by
  simp only [text]
  split
  · exact paragraph_untitled n l _
  · split
    · split
      · rename_i h
        exact underlined_untitled htitles h
      · rename_i h
        exact (underlined_complaints_untitled htitles h).append (paragraph_untitled n l _)
    · split
      · exact listReading_untitled _ _ (fun _ => rfl) _
      · exact paragraph_untitled n l _

end NoTitles

/-- What holds of blocks without a title holds of what a construct gives if
    it holds for adornment lines and for text. -/
theorem block_of_untitled {P : List Block → Prop} (huntitled : ∀ bs, Untitled bs → P bs)
    {how : Manner} {n : Nat} {l : Line} {rest : List Line}
    (hadornment : Pattern.isAdornment l = true → P (adornment how n l rest).1)
    (htext : P (text how n l rest).1) : P (block how n l rest).1 := by
  have hstarts := block_starts how n l rest
  generalize block how n l rest = reading at hstarts ⊢
  cases hstarts with
  | blank => exact huntitled _ .nil
  | blockQuote | lineBlock => exact huntitled _ (.cons rfl (unindentUnless_untitled _ _ _))
  | explicitBlock | anonymousTarget =>
    exact huntitled _ (.cons rfl (unindentUnless_untitled _ _ _))
  | bulletList | enumeratedList | fieldList | optionList =>
    exact huntitled _ (listReading_untitled _ _ (fun _ => rfl) _)
  | paragraph => exact huntitled _ (paragraph_untitled n l rest)
  | doctest | simpleTable | stuckList => exact huntitled _ (.one rfl)
  | gridTable => exact huntitled _ (gridTable_untitled n l rest)
  | adornment h => exact hadornment h
  | text => exact htext

/-- No construct is a title where no sections may start. -/
theorem block_untitled {how : Manner} (htitles : how.titles = false) (n : Nat) (l : Line)
    (rest : List Line) : Untitled (block how n l rest).1 :=
  block_of_untitled (fun _ h => h) (fun _ => adornment_untitled htitles n l rest)
    (text_untitled htitles n l rest)

/-- **A body where no sections may start has no titles.** -/
theorem blocks_untitled {how : Manner} (htitles : how.titles = false) (n : Nat) (ls : List Line) :
    Untitled (blocks how n ls) := by
  fun_induction blocks how n ls with
  | case1 => exact .nil
  | case2 n l rest found taken hblock ih =>
    have hfound := block_untitled htitles n l rest
    rw [hblock] at hfound
    exact hfound.append ih

/-! ## The styles of titles -/

/-- The titles among the blocks have styles that adorn lines. -/
def Adorned (bs : List Block) : Prop := ∀ b ∈ bs, b.Adorned

/-- Where there is no title, every title has a style that adorns lines. -/
theorem Untitled.adorned {bs : List Block} (h : Untitled bs) : Adorned bs := by
  intro b hb head hhead
  rw [h b hb] at hhead
  cases hhead

theorem Adorned.one {head : Heading} (h : head.style.IsAdornment) : Adorned [.heading head] := by
  intro b hb head' hhead
  obtain rfl := List.mem_singleton.mp hb
  cases hhead
  exact h

theorem Adorned.append {bs cs : List Block} (hbs : Adorned bs) (hcs : Adorned cs) :
    Adorned (bs ++ cs) :=
  List.forall_mem_append.mpr ⟨hbs, hcs⟩

/-- An adornment line starts with the character that it consists of. -/
theorem head_adorns {l : Line} (h : Pattern.isAdornment l = true) :
    ∃ c, l.head? = some c ∧ Pattern.isAdornmentChar c = true := by
  cases l with
  | nil => cases h
  | cons c rest =>
    simp only [Pattern.isAdornment, Bool.and_eq_true] at h
    exact ⟨c, rfl, h.1⟩

theorem headD_adorns {l : Line} (h : Pattern.isAdornment l = true) :
    Pattern.isAdornmentChar (l.headD ' ') = true := by
  obtain ⟨c, hc, hadorns⟩ := head_adorns h
  rwa [List.headD_eq_head?_getD, hc]

/-- The title that an underlined text is has a style that adorns lines. -/
theorem underlined_adorned (how : Manner) (n : Nat) (title : Line) {underline : Line}
    (hline : Pattern.isAdornment underline = true) :
    (∀ reading ∈ (underlined how n title underline).1, Adorned reading.1) ∧
      Adorned (underlined how n title underline).2 := by
  cases htitles : how.titles with
  | false =>
    refine ⟨fun reading hreading => ?_, ?_⟩
    · exact (underlined_untitled htitles (Prod.ext hreading rfl)).adorned
    · exact (underlined_complaints_untitled htitles (Prod.ext rfl rfl)).adorned
  | true =>
    simp only [underlined, htitles, if_true]
    split
    · refine ⟨fun _ h => ?_, Untitled.adorned (.one rfl)⟩
      cases h
    · refine ⟨fun reading hreading => ?_, Untitled.nil.adorned⟩
      obtain rfl := Option.some.inj hreading
      exact .one ⟨headD_adorns hline, fun _ h => by cases h⟩

/-- An adornment line that is read as text is no title. -/
theorem shortOverline_untitled (n : Nat) (l : Line) (rest : List Line) :
    Untitled (shortOverline n l rest).1 :=
  .cons rfl (paragraph_untitled n l rest)

/-- So does the title between two adornment lines. -/
theorem overlined_adorned (how : Manner) (n : Nat) {overline : Line}
    (hline : Pattern.isAdornment overline = true) (title : Line) (rest : List Line) :
    Adorned (overlined how n overline title rest).1 := by
  have htext := (shortOverline_untitled n overline (title :: rest)).adorned
  cases rest with
  | nil =>
    simp only [overlined]
    split
    · exact htext
    · exact (Untitled.one rfl).adorned
  | cons underline more =>
    simp only [overlined]
    split
    · split
      · exact htext
      · exact (Untitled.one rfl).adorned
    rename_i hunder
    split
    · split
      · exact htext
      · exact (Untitled.one rfl).adorned
    split
    · exact htext
    · obtain ⟨c, hc, hadorns⟩ := head_adorns hline
      refine .one ⟨headD_adorns (by simpa using hunder), fun d hd => ?_⟩
      obtain rfl : d = c := Option.some.inj ((Option.mem_def.mp hd).symm.trans hc)
      exact hadorns

/-- What an adornment line starts has styles that adorn lines. -/
theorem adornment_adorned (how : Manner) (n : Nat) {l : Line}
    (hline : Pattern.isAdornment l = true) (rest : List Line) :
    Adorned (adornment how n l rest).1 := by
  cases htitles : how.titles with
  | false => exact (adornment_untitled htitles n l rest).adorned
  | true =>
    have halone : ∀ rest : List Line, Adorned
        (if decide (l.length < 4) = true then paragraph n l rest else ([.transition n], 0)).1 := by
      intro rest
      split
      · exact (paragraph_untitled n l rest).adorned
      · exact (Untitled.one rfl).adorned
    cases rest with
    | nil =>
      simp only [adornment, htitles, Bool.not_true, Bool.false_eq_true, if_false]
      exact halone []
    | cons next more =>
      simp only [adornment, htitles, Bool.not_true, Bool.false_eq_true, if_false]
      split
      · exact halone (next :: more)
      split
      · split
        · exact (shortOverline_untitled n l (next :: more)).adorned
        · exact (Untitled.one rfl).adorned
      · exact overlined_adorned how n hline next more

/-- What text starts has styles that adorn lines. -/
theorem text_adorned (how : Manner) (n : Nat) (l : Line) (rest : List Line) :
    Adorned (text how n l rest).1 := by
  cases rest with
  | nil => exact (paragraph_untitled n l []).adorned
  | cons next more =>
    simp only [text]
    split
    · rename_i hnext
      obtain ⟨hreading, hcomplaints⟩ := underlined_adorned how n l hnext
      split
      · rename_i reading complaints heq
        exact hreading reading (by rw [heq]; rfl)
      · rename_i complaints heq
        rw [heq] at hcomplaints
        exact hcomplaints.append (paragraph_untitled n l _).adorned
    · split
      · exact (listReading_untitled _ _ (fun _ => rfl) _).adorned
      · exact (paragraph_untitled n l _).adorned

/-- The titles of a construct have styles that adorn lines. -/
theorem block_adorned (how : Manner) (n : Nat) (l : Line) (rest : List Line) :
    Adorned (block how n l rest).1 :=
  block_of_untitled (fun _ h => h.adorned) (fun hline => adornment_adorned how n hline rest)
    (text_adorned how n l rest)

/-- **The titles of a body have styles that adorn lines.** -/
theorem blocks_adorned (how : Manner) (n : Nat) (ls : List Line) : Adorned (blocks how n ls) := by
  fun_induction blocks how n ls with
  | case1 => exact Untitled.nil.adorned
  | case2 n l rest found taken hblock ih =>
    have hfound := block_adorned how n l rest
    rw [hblock] at hfound
    exact hfound.append ih

end Reader

end MarkupLint
