import MarkupLint.Conventions
import MarkupLint.Document.Names
import MarkupLint.Proofs.Paragraphs
import MarkupLint.Proofs.Plain

/-! # Lines of words

    A line of lower-case words is read as nothing but text: no construct of a
    body starts with it, and it holds no inline markup.  It is as wide as it
    is long, and a name as it stands. -/

namespace MarkupLint

namespace Line

/-- A line of words of lower-case letters, with single spaces between them. -/
def isProse (l : Line) : Bool :=
  (Text.splitOn ' ' l).all fun w => !w.isEmpty && w.all Char.isLower

/-- Such a line, letter by letter. -/
inductive Prose : Line → Prop
  | last {c : Char} (lower : c.isLower = true) : Prose [c]
  | letter {c : Char} {l : Line} (lower : c.isLower = true) (rest : Prose l) : Prose (c :: l)
  | space {c : Char} {l : Line} (lower : c.isLower = true) (rest : Prose l) : Prose (c :: ' ' :: l)

/-- By induction on the length, as a space is read with the letter before
    it. -/
theorem prose_of_isProse {l : Line} (h : l.isProse = true) : Prose l := by
  induction hn : l.length using Nat.strongRecOn generalizing l with
  | ind n ih =>
    subst hn
    cases l with
    | nil => cases h
    | cons c l =>
      simp only [isProse, Text.splitOn] at h
      split at h
      · cases h
      cases l with
      | nil =>
        simp only [Text.splitOn, List.all_cons, List.all_nil, Bool.and_true, Bool.and_eq_true] at h
        exact .last h.2
      | cons b l =>
        by_cases hb : b = ' '
        · subst hb
          simp only [Text.splitOn, if_true, List.all_cons, List.all_nil, Bool.and_true,
            Bool.and_eq_true] at h
          refine .space h.1.2 (ih l.length ?_ h.2 rfl)
          simp only [List.length_cons]
          omega
        · have hsplit := Text.splitOn_ne_nil ' ' (b :: l)
          cases hpieces : Text.splitOn ' ' (b :: l) with
          | nil => exact absurd hpieces hsplit
          | cons w ws =>
            simp only [hpieces, List.all_cons, Bool.and_eq_true] at h
            obtain ⟨⟨-, hc, hw⟩, hws⟩ := h
            refine .letter hc (ih (b :: l).length (Nat.lt_succ_self _) ?_ rfl)
            have hne : w ≠ [] := by
              rintro rfl
              simp only [Text.splitOn, if_neg hb] at hpieces
              split at hpieces <;> cases hpieces
            simp only [isProse, hpieces, List.all_cons, Bool.and_eq_true]
            exact ⟨⟨by simpa using hne, hw⟩, hws⟩

/-! ## Letters -/

/-- The lower-case letters. -/
def letters : List Char := (List.range' 97 26).map Char.ofNat

/-- A small letter is one of twenty-six. -/
theorem mem_letters {c : Char} (h : c.isLower = true) : c ∈ letters := by
  have hrange : 97 ≤ c.toNat ∧ c.toNat ≤ 122 := by
    obtain ⟨hge, hle⟩ := (Bool.and_eq_true _ _).mp h
    exact ⟨of_decide_eq_true hge, of_decide_eq_true hle⟩
  refine List.mem_map.mpr ⟨c.toNat, List.mem_range'_1.mpr ⟨hrange.1, by omega⟩, Char.ofNat_toNat c⟩

/-- What all letters are, a letter is. -/
theorem of_letters {c : Char} {P : Char → Prop} [DecidablePred P]
    (h : letters.all (fun c => decide (P c)) = true) (hc : c.isLower = true) : P c :=
  of_decide_eq_true (List.all_eq_true.mp h c (mem_letters hc))

/-- A small letter is no other character. -/
theorem ne_of_isLower {c x : Char} (hc : c.isLower = true) (hx : x.isLower = false) : c ≠ x := by
  rintro rfl
  rw [hc] at hx
  cases hx

/-- Letters are printable. -/
theorem printable_of_isLower {c : Char} (hc : c.isLower = true) :
    ' '.toNat ≤ c.toNat ∧ c.toNat ≤ '~'.toNat :=
  of_letters (P := fun c => ' '.toNat ≤ c.toNat ∧ c.toNat ≤ '~'.toNat) (by decide) hc

theorem isAlpha_of_isLower {c : Char} (hc : c.isLower = true) : c.isAlpha = true :=
  (Bool.or_eq_true _ _).mpr (.inr hc)

theorem lowerChar_of_isLower {c : Char} (hc : c.isLower = true) : Text.lowerChar c = c :=
  of_letters (P := fun c => Text.lowerChar c = c) (by decide) hc

/-- The upper-case letters. -/
def capitals : List Char := (List.range' 65 26).map Char.ofNat

/-- What all letters are in either case, a letter is. -/
theorem of_isAlpha {c : Char} {P : Char → Prop} [DecidablePred P]
    (h : (capitals ++ letters).all (fun c => decide (P c)) = true) (hc : c.isAlpha = true) : P c := by
  obtain ⟨hcapitals, hletters⟩ := (Bool.and_eq_true _ _).mp (List.all_append.symm.trans h)
  rcases (Bool.or_eq_true _ _).mp hc with hupper | hlower
  · have hrange : 65 ≤ c.toNat ∧ c.toNat ≤ 90 := of_decide_eq_true hupper
    have hmem : c ∈ capitals := List.mem_map.mpr
      ⟨c.toNat, List.mem_range'_1.mpr ⟨hrange.1, by omega⟩, Char.ofNat_toNat c⟩
    exact of_decide_eq_true (List.all_eq_true.mp hcapitals c hmem)
  · exact of_letters hletters hlower

/-- A letter is no other character. -/
theorem ne_of_isAlpha {c x : Char} (hc : c.isAlpha = true) (hx : x.isAlpha = false) : c ≠ x := by
  rintro rfl
  rw [hc] at hx
  cases hx

theorem isBlankChar_of_isAlpha {c : Char} (hc : c.isAlpha = true) : Text.isBlankChar c = false :=
  of_isAlpha (P := fun c => Text.isBlankChar c = false) (by decide) hc

theorem isAlphanum_of_isAlpha {c : Char} (hc : c.isAlpha = true) : c.isAlphanum = true := by
  rw [Char.isAlphanum, hc, Bool.true_or]

/-- A letter is no mark of inline markup. -/
theorem isPlain_of_isAlpha {c : Char} (hc : c.isAlpha = true) : Inline.isPlain c = true :=
  of_isAlpha (P := fun c => Inline.isPlain c = true) (by decide) hc

/-- A letter is printable. -/
theorem printable_of_isAlpha {c : Char} (hc : c.isAlpha = true) :
    ' '.toNat ≤ c.toNat ∧ c.toNat ≤ '~'.toNat :=
  of_isAlpha (P := fun c => ' '.toNat ≤ c.toNat ∧ c.toNat ≤ '~'.toNat) (by decide) hc

/-- So is a digit. -/
theorem printable_of_isDigit {c : Char} (hc : c.isDigit = true) :
    ' '.toNat ≤ c.toNat ∧ c.toNat ≤ '~'.toNat := by
  obtain ⟨hlow, hhigh⟩ := Char.isDigit_iff_toNat.mp hc
  exact ⟨Nat.le_trans (by decide) hlow, Nat.le_trans hhigh (by decide)⟩

theorem isBlankChar_of_isLower {c : Char} (hc : c.isLower = true) : Text.isBlankChar c = false :=
  isBlankChar_of_isAlpha (isAlpha_of_isLower hc)

/-- No construct but text starts with a letter. -/
theorem startsText_of_isAlpha {c : Char} (hc : c.isAlpha = true) (more : Line) :
    Reader.startsText (c :: more) = true := by
  have hne : ∀ {x : Char}, x.isAlpha = false → c ≠ x := ne_of_isAlpha hc
  have hblank : Text.isBlank (c :: more) = false := by
    rw [Text.isBlank, List.all_cons, isBlankChar_of_isAlpha hc, Bool.false_and]
  have hadornment : Pattern.isAdornment (c :: more) = false := by
    rw [Pattern.isAdornment, Pattern.isAdornmentChar, isAlphanum_of_isAlpha hc]
    simp
  have hindent : Line.isIndented (c :: more) = false := by
    simp [Line.isIndented, Line.indent, hne (x := ' ') (by decide)]
  have hdigit : c.isDigit = false := of_isAlpha (P := fun c => c.isDigit = false) (by decide) hc
  have hbullet : Pattern.bullet? (c :: more) = none := by
    simp [Pattern.bullet?, hne (x := '-') (by decide), hne (x := '+') (by decide),
      hne (x := '*') (by decide), hne (x := '\u2022') (by decide), hne (x := '\u2023') (by decide),
      hne (x := '\u2043') (by decide)]
  have hmark : ∀ {x : Char} (mark : List Char), x.isAlpha = false →
      Pattern.marker? (x :: mark) (c :: more) = none := fun mark hx => by
    simp [Pattern.marker?, Text.dropStart?, Ne.symm (hne hx)]
  have hsequence : Pattern.sequence? (c :: more) = none := by
    simp [Pattern.sequence?, hne (x := '#') (by decide), hdigit]
  have henumerator : Pattern.enumeratorParts? (c :: more) = none := by
    simp [Pattern.enumeratorParts?, hne (x := '(') (by decide), hsequence]
  have hfield : Pattern.field? (c :: more) = none := by
    simp [Pattern.field?, hne (x := ':') (by decide)]
  have hname : Pattern.optionName? true (c :: more) = none := by
    unfold Pattern.optionName?
    split
    · rename_i heq
      exact absurd (List.cons.inj heq).1 (hne (by decide))
    · rename_i heq
      exact absurd (List.cons.inj heq).1 (hne (by decide))
    · rename_i heq
      exact absurd (List.cons.inj heq).1 (hne (by decide))
    · rfl
  have hgrid : Pattern.isGridBorder (c :: more) = false := by
    simp [Pattern.isGridBorder, hne (x := '+') (by decide), hne (x := '-') (by decide)]
  have hsimple : Pattern.isSimpleBorder (c :: more) = false := by
    simp [Pattern.isSimpleBorder, hne (x := '=') (by decide)]
  have hdoctest : Pattern.isDoctest (c :: more) = false := by
    rw [Pattern.isDoctest, hmark _ (by decide)]
    rfl
  have hbar : Pattern.isLineBlock (c :: more) = false := by
    rw [Pattern.isLineBlock, hmark _ (by decide)]
    rfl
  simp [Reader.startsText, Pattern.isPlain, Pattern.isExplicit, Pattern.isAnonymous, hblank, hindent,
    hbullet, henumerator, hfield, Pattern.options?, hname, hdoctest, hbar, hgrid, hsimple, hadornment,
    hmark _ (show ('.' : Char).isAlpha = false by decide),
    hmark _ (show ('_' : Char).isAlpha = false by decide)]

namespace Prose

variable {l : Line}

/-- Such a line starts with a letter. -/
theorem start (h : Prose l) : ∃ c rest, l = c :: rest ∧ c.isLower = true := by
  cases h with
  | last lower => exact ⟨_, _, rfl, lower⟩
  | letter lower _ => exact ⟨_, _, rfl, lower⟩
  | space lower _ => exact ⟨_, _, rfl, lower⟩

/-- There is a word in a line of words. -/
theorem ne_nil (h : Prose l) : l ≠ [] := by
  obtain ⟨c, rest, rfl, -⟩ := h.start
  exact List.cons_ne_nil c rest

/-- And it ends with one. -/
theorem stop (h : Prose l) : ∃ c rest, l.reverse = c :: rest ∧ c.isLower = true := by
  induction h with
  | last lower => exact ⟨_, [], rfl, lower⟩
  | letter _ _ ih =>
    obtain ⟨c, rest, hrest, hc⟩ := ih
    exact ⟨c, rest ++ _, by rw [List.reverse_cons, hrest]; rfl, hc⟩
  | space _ _ ih =>
    obtain ⟨c, rest, hrest, hc⟩ := ih
    exact ⟨c, rest ++ _ ++ _, by rw [List.reverse_cons, List.reverse_cons, hrest]; rfl, hc⟩

/-- It has letters and blanks only. -/
theorem forall_mem (h : Prose l) : ∀ c ∈ l, c.isLower = true ∨ c = ' ' := by
  induction h with
  | last lower => exact List.forall_mem_singleton.mpr (.inl lower)
  | letter lower _ ih => exact List.forall_mem_cons.mpr ⟨.inl lower, ih⟩
  | space lower _ ih => exact List.forall_mem_cons.mpr ⟨.inl lower, List.forall_mem_cons.mpr ⟨.inr rfl, ih⟩⟩

/-! ## Reading -/

/-- No construct but text starts with a letter and goes on with words. -/
theorem startsText (h : Prose l) : Reader.startsText l = true := by
  obtain ⟨c, more, rfl, hc⟩ := h.start
  exact startsText_of_isAlpha (isAlpha_of_isLower hc) more

/-- A line of words before a blank line is a paragraph. -/
theorem block_paragraph (h : Prose l) (how : Reader.Manner) (n : Nat) (rest : List Line) :
    Reader.block how n l ([] :: rest) = ([.paragraph n l none], 0) := by
  have hlast : (joinLines [l]).getLast? ≠ some ':' := by
    obtain ⟨c, more, hreverse, hc⟩ := h.stop
    rw [joinLines, List.intercalate_singleton, ← List.head?_reverse, hreverse]
    exact fun heq => ne_of_isLower hc (by decide) (Option.some.inj heq)
  have hparagraph : Reader.IsParagraph l [] :=
    { starts := h.startsText
      goOn := List.forall_mem_nil _
      untitled := by simp }
  have hblock : Reader.block how n l ([] ++ [] :: rest) = _ :=
    Reader.block_of_isParagraph hparagraph hlast (by simp [Text.isBlank]) how n
  rwa [joinLines, List.intercalate_singleton] at hblock

/-- Such a line has as many columns as characters. -/
theorem width_eq (h : Prose l) (conventions : Conventions) : conventions.width l = l.length := by
  refine conventions.width_printable l fun c hc => ?_
  rcases h.forall_mem c hc with hlower | rfl
  · exact printable_of_isLower hlower
  · decide

/-- A line of words above an adornment of its length is a title. -/
theorem block_heading (h : Prose l) {m : Char} (hm : Pattern.isAdornmentChar m = true)
    {how : Reader.Manner} (htitles : how.titles = true) (hwidth : how.width l = l.length) (n : Nat)
    (rest : List Line) :
    Reader.block how n l (List.replicate l.length m :: rest)
      = ([.heading ⟨l, l ++ '\n' :: List.replicate l.length m, ⟨m, none⟩, n, none⟩], 1) := by
  have hunder : Pattern.isAdornment (List.replicate l.length m) = true := by
    obtain ⟨c, more, rfl, -⟩ := h.start
    simp [List.replicate_succ, Pattern.isAdornment, hm]
  have hhead : (List.replicate l.length m).headD ' ' = m := by
    obtain ⟨c, more, rfl, -⟩ := h.start
    rfl
  rw [Reader.block_of_startsText h.startsText]
  simp only [Reader.text, hunder, if_true, Reader.underlined, List.length_replicate, hwidth, htitles,
    Nat.lt_irrefl, decide_false, Bool.false_and, Bool.false_eq_true, if_false, hhead]

/-! ## Names -/

/-- Such a line is the name that it gives. -/
theorem normalizeName_eq (h : Prose l) : normalizeName (String.ofList l) = String.ofList l := by
  have hwords : ∀ word, [' '].intercalate (Text.wordsBy.go Text.isBlankChar word l)
      = word.reverse ++ l ∧ Text.wordsBy.go Text.isBlankChar word l ≠ [] := by
    induction h with
    | last lower =>
      intro word
      simp [Text.wordsBy.go, isBlankChar_of_isLower lower, List.intercalate]
    | @letter c l lower _ ih =>
      intro word
      obtain ⟨hjoin, hne⟩ := ih (c :: word)
      simp only [Text.wordsBy.go, isBlankChar_of_isLower lower, Bool.false_eq_true, if_false]
      exact ⟨by rw [hjoin]; simp, hne⟩
    | @space c l lower _ ih =>
      intro word
      obtain ⟨hjoin, hne⟩ := ih []
      have hblank : Text.isBlankChar ' ' = true := by decide
      simp only [Text.wordsBy.go, isBlankChar_of_isLower lower, hblank, Bool.false_eq_true, if_false,
        if_true, List.isEmpty_cons]
      refine ⟨?_, List.cons_ne_nil _ _⟩
      obtain ⟨w, ws, hws⟩ := List.exists_cons_of_ne_nil hne
      rw [hws] at hjoin ⊢
      simp only [List.reverse_nil, List.nil_append] at hjoin
      simp [List.intercalate, List.intersperse, ← hjoin]
  have hcollapse : Text.collapse l = l := by
    rw [Text.collapse, Text.words, Text.wordsBy, (hwords []).1]
    rfl
  have hlower : Text.lower l = l := by
    refine (List.map_congr_left fun c hc => ?_).trans (List.map_id l)
    rcases h.forall_mem c hc with hlower | rfl
    · exact lowerChar_of_isLower hlower
    · decide
  rw [normalizeName, collapseName, String.toList_ofList, hcollapse, Text.lowerString,
    String.toList_ofList, hlower]

/-! ## Inline markup -/

/-- No character of it is a mark of inline markup. -/
theorem plain (h : Prose l) : ∀ c ∈ l, Inline.isPlain c = true := by
  intro c hc
  rcases h.forall_mem c hc with hlower | rfl
  · exact isPlain_of_isAlpha (isAlpha_of_isLower hlower)
  · decide

end Prose

/-! ## Lines of a text -/

/-- A line that is read as it stands: no character of it ends a line or
    stands for spaces, and it does not end with one. -/
structure Clean (l : Line) : Prop where
  kept : ∀ c ∈ l, c ∉ ['\t', '\n', '\r', '\x0b', '\x0c']
  stop : l.getLast? ≠ some ' '

namespace Clean

variable {l : Line}

theorem nil : Clean [] := ⟨List.forall_mem_nil _, nofun⟩

/-- A clean line has none of the characters that cleaning is about. -/
theorem not_mem (h : Clean l) {c : Char} (hc : c ∈ ['\t', '\n', '\r', '\x0b', '\x0c']) : c ∉ l :=
  fun hmem => h.kept c hmem hc

/-- So cleaning leaves it as it is. -/
theorem cleanLine?_eq (h : Clean l) (width : Int) : cleanLine? width l = some l := by
  have hspaced : (l.map fun c => if c = '\x0b' || c = '\x0c' then ' ' else c) = l := by
    refine (List.map_congr_left fun c hc => if_neg fun hform => ?_).trans (List.map_id l)
    simp only [Bool.or_eq_true, decide_eq_true_eq] at hform
    rcases hform with rfl | rfl
    · exact h.not_mem (by decide) hc
    · exact h.not_mem (by decide) hc
  have htab : l.contains '\t' = false := by
    rw [Bool.eq_false_iff, Ne, List.contains_iff_mem]
    exact h.not_mem (by decide)
  have hstop := h.stop
  have hright : Text.dropRightWhile (· == ' ') l = l := by
    rw [Text.dropRightWhile]
    rw [← List.head?_reverse] at hstop
    cases hreverse : l.reverse with
    | nil => rw [List.reverse_eq_nil_iff.mp hreverse]; rfl
    | cons c rest =>
      rw [hreverse] at hstop
      rw [List.dropWhile_cons_of_neg, ← hreverse, List.reverse_reverse]
      simpa using hstop
  rw [cleanLine?, hspaced, expandTabs?, htab]
  show some _ = _
  rw [hright]

end Clean

/-- A line of printable characters that does not end with a space. -/
structure Tidy (l : Line) : Prop where
  printable : ∀ c ∈ l, ' '.toNat ≤ c.toNat ∧ c.toNat ≤ '~'.toNat
  stop : l.getLast? ≠ some ' '

namespace Tidy

variable {l : Line}

/-- A tidy line has printable characters only. -/
theorem not_mem (h : Tidy l) {c : Char} (hc : c.toNat < ' '.toNat ∨ '~'.toNat < c.toNat) : c ∉ l := by
  intro hmem
  obtain ⟨hlow, hhigh⟩ := h.printable c hmem
  omega

theorem nil : Tidy [] := ⟨List.forall_mem_nil _, nofun⟩

/-- So it is clean. -/
theorem clean (h : Tidy l) : Clean l where
  kept c hc hmem := by
    have hsmall : ['\t', '\n', '\r', '\x0b', '\x0c'].all (·.toNat < ' '.toNat) = true := by decide
    exact h.not_mem (.inl (of_decide_eq_true (List.all_eq_true.mp hsmall c hmem))) hc
  stop := h.stop

end Tidy

/-- A line of words is tidy. -/
theorem Prose.tidy {l : Line} (h : Prose l) : Tidy l where
  printable c hc := by
    rcases h.forall_mem c hc with hlower | rfl
    · exact printable_of_isAlpha (isAlpha_of_isLower hlower)
    · decide
  stop := by
    obtain ⟨c, rest, hreverse, hc⟩ := h.stop
    rw [← List.head?_reverse, hreverse]
    exact fun heq => ne_of_isLower hc (by decide) (Option.some.inj heq)

end Line

end MarkupLint
