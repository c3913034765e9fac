import MarkupLint.Construct.Invocation
import MarkupLint.Proofs.Words

/-! # How many arguments a directive gets

    The arguments of a directive are counted as the words of the text,
    divided by any white space.  Where there are too many, and the last may
    hold white space, the text is cut at spaces and line feeds alone
    (`argumentFields`).  So the number of arguments is right unless other
    white space is what divides the words, or the number that is allowed is
    more than a 64-bit integer holds (`readArguments_count`). -/

namespace MarkupLint

namespace Text

variable {p q : Char → Bool}

/-- Only the characters of the text decide where it is divided. -/
theorem wordsBy_go_congr {s : List Char} (h : ∀ c ∈ s, p c = q c) (word : List Char) :
    wordsBy.go p word s = wordsBy.go q word s := by
  induction s generalizing word with
  | nil => rfl
  | cons c s ih =>
    obtain ⟨hc, hs⟩ := List.forall_mem_cons.mp h
    simp only [wordsBy.go, hc, ih hs]

theorem wordsBy_congr {s : List Char} (h : ∀ c ∈ s, p c = q c) : wordsBy p s = wordsBy q s :=
  wordsBy_go_congr h []

@[simp] theorem wordsBy_nil (p : Char → Bool) : wordsBy p [] = [] := rfl

theorem wordsBy_gap {c : Char} (hc : p c = true) (s : List Char) :
    wordsBy p (c :: s) = wordsBy p s :=
  wordsBy_go_append hc [] [] s

/-- Gaps at the start divide nothing. -/
@[simp] theorem wordsBy_dropWhile (p : Char → Bool) (s : List Char) :
    wordsBy p (s.dropWhile p) = wordsBy p s := by
  induction s with
  | nil => rfl
  | cons c s ih =>
    by_cases hc : p c = true
    · rw [List.dropWhile_cons_of_pos hc, ih, wordsBy_gap hc]
    · rw [List.dropWhile_cons_of_neg hc]

/-- A text that starts with no gap starts with its first word. -/
theorem wordsBy_cons {c : Char} (hc : p c = false) (s : List Char) :
    wordsBy p (c :: s) =
      (c :: s).takeWhile (!p ·) :: wordsBy p ((c :: s).dropWhile (!p ·)) := by
  let word := (c :: s).takeWhile (!p ·)
  have hword : ∀ b ∈ word, p b = false := fun b hb => by
    simpa using List.mem_takeWhile_imp hb
  have hne : word ≠ [] := by simp [word, hc]
  have hgo : wordsBy p (word ++ (c :: s).dropWhile (!p ·)) =
      wordsBy.go p word.reverse ((c :: s).dropWhile (!p ·)) := by
    rw [wordsBy, wordsBy_go_solid [] hword, List.append_nil]
  rw [List.takeWhile_append_dropWhile] at hgo
  rw [hgo]
  cases hrest : (c :: s).dropWhile (!p ·) with
  | nil => simp [wordsBy.go, hne, word]
  | cons b rest =>
    have hb : p b = true := by
      have hstop := List.head?_dropWhile_not (!p ·) (c :: s)
      rw [hrest] at hstop
      simpa using hstop
    have hempty : word.reverse.isEmpty = false := by simpa using hne
    rw [wordsBy_gap hb, wordsBy.go, if_pos hb, hempty, List.reverse_reverse]
    rfl

end Text

/-- The runs of a text between the gaps that arguments are cut at. -/
def argumentFields (s : List Char) : List (List Char) := Text.wordsBy isArgumentGap s

theorem argumentFields_dropWhile (s : List Char) :
    argumentFields (s.dropWhile isArgumentGap) = argumentFields s :=
  Text.wordsBy_dropWhile _ s

/-- The gaps are white space. -/
theorem isBlankChar_of_isArgumentGap {c : Char} (h : isArgumentGap c = true) :
    Text.isBlankChar c = true := by
  rcases Bool.or_eq_true_iff.mp h with hspace | hline
  · exact decide_eq_true_eq.mp hspace ▸ rfl
  · exact decide_eq_true_eq.mp hline ▸ rfl

/-- Where all white space is spaces and line feeds, the fields are the
    words. -/
theorem argumentFields_eq_words {s : List Char}
    (h : ∀ c ∈ s, Text.isBlankChar c = true → isArgumentGap c = true) :
    argumentFields s = Text.words s :=
  Text.wordsBy_congr fun c hc =>
    Bool.eq_iff_iff.mpr ⟨isBlankChar_of_isArgumentGap, h c hc⟩

/-- What is left of a text behind the gaps that it starts with: nothing, or
    its first field with what follows that. -/
theorem argument_cases (s : List Char) :
    s.dropWhile isArgumentGap = [] ∧ argumentFields s = [] ∨
      ∃ c rest, s.dropWhile isArgumentGap = c :: rest ∧ isArgumentGap c = false ∧
        argumentFields s = (c :: rest).takeWhile (!isArgumentGap ·) ::
          argumentFields ((c :: rest).dropWhile (!isArgumentGap ·)) := by
  cases hrest : s.dropWhile isArgumentGap with
  | nil => exact .inl ⟨rfl, by rw [← argumentFields_dropWhile, hrest]; rfl⟩
  | cons c rest =>
    have hc : isArgumentGap c = false := by
      have hstop := List.head?_dropWhile_not isArgumentGap s
      rw [hrest] at hstop
      simpa using hstop
    refine .inr ⟨c, rest, rfl, hc, ?_⟩
    rw [← argumentFields_dropWhile, hrest]
    exact Text.wordsBy_cons hc rest

/-- A text with a word has a field. -/
theorem argumentFields_ne_nil {s : List Char} (h : Text.words s ≠ []) : argumentFields s ≠ [] := by
  intro hnone
  rcases argument_cases s with ⟨hnil, _⟩ | ⟨c, rest, _, _, hfields⟩
  · have hblank : ∀ c ∈ s, Text.isBlankChar c = true := fun c hc =>
      isBlankChar_of_isArgumentGap (List.dropWhile_eq_nil_iff.mp hnil c hc)
    have hwords := Text.words_blank_append hblank []
    rw [List.append_nil] at hwords
    exact h hwords
  · rw [hfields] at hnone
    cases hnone

/-! ## Cutting a text -/

theorem splitArguments_eq_nil {s : List Char} (h : s.dropWhile isArgumentGap = []) (count : Nat) :
    splitArguments count s = [] := by
  cases count with
  | zero => simp [splitArguments, h]
  | succ count => simp [splitArguments, h]

/-- An argument that is not the last one allowed is the first field. -/
theorem splitArguments_succ {c : Char} {s rest : List Char}
    (h : s.dropWhile isArgumentGap = c :: rest) (count : Nat) :
    splitArguments (count + 1) s = (c :: rest).takeWhile (!isArgumentGap ·) ::
      splitArguments count ((c :: rest).dropWhile (!isArgumentGap ·)) := by
  have hparts := List.takeWhile_append_dropWhile (p := (!isArgumentGap ·)) (l := c :: rest)
  rw [splitArguments, h]
  split
  · have hdrop : ((c :: rest).takeWhile (!isArgumentGap ·)
        ++ (c :: rest).dropWhile (!isArgumentGap ·)).drop
          ((c :: rest).takeWhile (!isArgumentGap ·)).length
        = (c :: rest).dropWhile (!isArgumentGap ·) := List.drop_left
    rw [hparts] at hdrop
    rw [hdrop]
  · rename_i hwhole
    have hdrop : (c :: rest).dropWhile (!isArgumentGap ·) = [] := by
      have hlength := congrArg List.length hparts
      rw [List.length_append] at hlength
      exact List.length_eq_zero_iff.mp (by omega)
    rw [hdrop, splitArguments_eq_nil rfl, List.isEmpty_cons]
    rw [hdrop, List.append_nil] at hparts
    rw [hparts]
    rfl

/-- As many arguments are cut from a text as it has fields, but no more than
    asked for. -/
theorem length_splitArguments (count : Nat) (s : List Char) :
    (splitArguments count s).length = min (count + 1) (argumentFields s).length := by
  induction count generalizing s with
  | zero =>
    rcases argument_cases s with ⟨hnil, hfields⟩ | ⟨c, rest, hrest, _, hfields⟩
    · rw [splitArguments_eq_nil hnil, hfields]
      rfl
    · simp [splitArguments, hrest, hfields]
  | succ count ih =>
    rcases argument_cases s with ⟨hnil, hfields⟩ | ⟨c, rest, hrest, _, hfields⟩
    · rw [splitArguments_eq_nil hnil, hfields]
      rfl
    · rw [splitArguments_succ hrest, hfields, List.length_cons, List.length_cons, ih]
      omega

theorem ne_nil_of_mem_splitArguments {count : Nat} {s a : List Char}
    (h : a ∈ splitArguments count s) : a ≠ [] := by
  induction count generalizing s with
  | zero =>
    rcases argument_cases s with ⟨hnil, _⟩ | ⟨c, rest, hrest, hc, _⟩
    · rw [splitArguments_eq_nil hnil] at h
      cases h
    · have hlast : a = Text.dropRightWhile isArgumentGap (c :: rest) := by
        simpa [splitArguments, hrest] using h
      rintro rfl
      -- the first character is no gap, so taking gaps off the end leaves it
      have hall := List.dropWhile_eq_nil_iff.mp (List.reverse_eq_nil_iff.mp hlast.symm)
      exact absurd (hall c (List.mem_reverse.mpr List.mem_cons_self)) (by simp [hc])
  | succ count ih =>
    rcases argument_cases s with ⟨hnil, _⟩ | ⟨c, rest, hrest, hc, _⟩
    · rw [splitArguments_eq_nil hnil] at h
      cases h
    · rw [splitArguments_succ hrest] at h
      rcases List.mem_cons.mp h with rfl | h
      · simp [hc]
      · exact ih h

/-! ## The count -/

/-- How many arguments are cut from a text if the number that is allowed is
    `allowed`: a number that a 64-bit integer does not hold is taken for a
    negative one, but the least negative one for the greatest. -/
theorem length_splitArguments_wrapWord {allowed : Int} (hpos : 0 < allowed)
    (hle : allowed ≤ 2 * Text.wordLimit - 2) (s : List Char) :
    ((splitArguments (Text.wrapWord (Text.wrapWord allowed - 1)).toNat s).length : Int) =
      min (if allowed ≤ Text.wordLimit then allowed else 1) (argumentFields s).length := by
  have hcount : ((Text.wrapWord (Text.wrapWord allowed - 1)).toNat : Int) =
      if allowed ≤ Text.wordLimit then allowed - 1 else 0 := by
    simp only [Text.wrapWord, Text.wordSize, Text.wordLimit, Int.bmod_def] at hle ⊢
    omega
  have hlength := length_splitArguments (Text.wrapWord (Text.wrapWord allowed - 1)).toNat s
  split at hcount
  · omega
  · omega

/-- The number of arguments that is allowed, as a 64-bit integer holds it, is
    no more than that number. -/
theorem wrapWord_le {n : Int} (h : 0 ≤ n) : Text.wrapWord n ≤ n := by
  simp only [Text.wrapWord, Text.wordSize, Int.bmod_def]
  omega

/-- **A directive gets as many arguments as it declares.**  If the arguments
    of a directive that takes some can be read, none of them is empty and
    there are no more than it allows.  There are as few as it requires
    exactly if the words are few enough to be the arguments, or the text has
    enough fields and a 64-bit integer holds how many arguments are allowed.
    One argument is always there if it is required, and all are if the text
    has no white space but spaces and line feeds. -/
theorem readArguments_count {spec : DirectiveSpec}
    (hrequired : 0 ≤ spec.required ∧ spec.required < Text.wordLimit)
    (hoptional : 0 ≤ spec.optional ∧ spec.optional < Text.wordLimit)
    (htakes : spec.takesArguments = true) {lines : List Line}
    {arguments : List (List Char)} (h : readArguments spec lines = .ok arguments) :
    (∀ a ∈ arguments, a ≠ []) ∧ (arguments.length : Int) ≤ spec.required + spec.optional ∧
      (spec.required ≤ arguments.length ↔
        (Text.words (Line.joinLines lines)).length ≤ Text.wrapWord (spec.required + spec.optional) ∨
          spec.required ≤ (argumentFields (Line.joinLines lines)).length ∧
            (spec.required + spec.optional ≤ Text.wordLimit ∨ spec.required ≤ 1)) ∧
      ((spec.required ≤ 1 ∨ spec.required + spec.optional ≤ Text.wordLimit ∧
          ∀ c ∈ Line.joinLines lines, Text.isBlankChar c = true → isArgumentGap c = true) →
        spec.required ≤ arguments.length) := by
  obtain ⟨hrequired, hfits⟩ := hrequired
  obtain ⟨hoptional, hfits'⟩ := hoptional
  have hpos : 0 < spec.required + spec.optional := by
    rcases Bool.or_eq_true_iff.mp htakes with hsome | hsome
    · have hsome := decide_eq_true_eq.mp hsome
      omega
    · have hsome := decide_eq_true_eq.mp hsome
      omega
  have hwrap := wrapWord_le (Int.le_of_lt hpos)
  simp only [readArguments] at h
  split at h
  · cases h
  rename_i hmany
  split at h
  · rename_i hover
    split at h
    · cases h
      have hlength := length_splitArguments_wrapWord hpos (by omega) (Line.joinLines lines)
      have hfield : 0 < (Text.words (Line.joinLines lines)).length →
          0 < (argumentFields (Line.joinLines lines)).length := fun hword =>
        List.length_pos_iff.mpr (argumentFields_ne_nil (List.length_pos_iff.mp hword))
      refine ⟨fun a => ne_nil_of_mem_splitArguments, ?_, ?_, ?_⟩
      · split at hlength <;> omega
      · split at hlength <;> omega
      · rintro (hone | ⟨hheld, hgaps⟩)
        · split at hlength <;> omega
        · rw [argumentFields_eq_words hgaps, if_pos hheld] at hlength
          omega
    · cases h
  · cases h
    exact ⟨fun a ha => (Text.isWord_of_mem_words ha).ne_nil, by omega, by omega, fun _ => by omega⟩

/-- Three words for one argument and one that may hold white space. -/
theorem readArguments_count_title :
    let spec : DirectiveSpec := { required := 1, optional := 1, finalWhitespace := true }
    let lines : List Line := ["a b".toList, "c".toList]
    readArguments spec lines = .ok ["a".toList, "b\nc".toList] ∧
      spec.required ≤ (["a".toList, "b\nc".toList] : List Line).length := by
  intro spec lines
  have h : readArguments spec lines = .ok ["a".toList, "b\nc".toList] := by decide +kernel
  exact ⟨h, (readArguments_count (by decide) (by decide) rfl h).2.2.2 (.inl (by decide))⟩

/-- No-break spaces divide words, but no arguments are cut at them. -/
theorem readArguments_too_few :
    ¬∀ (spec : DirectiveSpec) (lines : List Line) (arguments : List (List Char)),
      0 ≤ spec.required → 0 ≤ spec.optional → spec.takesArguments = true →
      readArguments spec lines = .ok arguments → spec.required ≤ arguments.length := by
  intro hall
  have h := hall { required := 2, finalWhitespace := true } ["a\u00a0b\u00a0c".toList]
    ["a\u00a0b\u00a0c".toList] (by decide) (by decide) rfl (by decide +kernel)
  exact absurd h (by decide)

end MarkupLint
