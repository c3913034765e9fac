import Mathlib.Data.List.TakeWhile
import MarkupLint.Body.Line

/-! # Words of a text

    Where white space stands, a text can be cut without cutting a word:
    the words of the parts are the words of the text (`words_append_cons`,
    `words_intercalate`).  A word is the only word of itself
    (`IsWord.words_eq`). -/

namespace MarkupLint.Text

variable {c : Char} {s t w : List Char}

/-- White space ends the present word. -/
theorem wordsBy_go_append {p : Char → Bool} (hc : p c = true) (word s t : List Char) :
    wordsBy.go p word (s ++ c :: t) = wordsBy.go p word s ++ wordsBy.go p [] t := by
  induction s generalizing word with
  | nil =>
    simp only [List.nil_append, wordsBy.go, hc, if_true]
    split
    · rfl
    · rfl
  | cons b s ih =>
    simp only [List.cons_append, wordsBy.go, ih]
    split
    · split
      · rfl
      · rfl
    · rfl

@[simp] theorem words_nil : words [] = [] := rfl

/-- White space divides words. -/
theorem words_append_cons (hc : isBlankChar c = true) (s t : List Char) :
    words (s ++ c :: t) = words s ++ words t :=
  wordsBy_go_append hc [] s t

/-- White space in front is no word. -/
theorem words_cons (hc : isBlankChar c = true) (t : List Char) : words (c :: t) = words t :=
  words_append_cons hc [] t

/-- White space has no words. -/
theorem words_blank_append (hs : ∀ c ∈ s, isBlankChar c = true) (t : List Char) :
    words (s ++ t) = words t := by
  induction s with
  | nil => rfl
  | cons c s ih =>
    obtain ⟨hc, hs⟩ := List.forall_mem_cons.mp hs
    rw [List.cons_append, words_cons hc, ih hs]

/-- Nor is white space behind. -/
theorem words_append_blank (s : List Char) (ht : ∀ c ∈ t, isBlankChar c = true) :
    words (s ++ t) = words s := by
  cases t with
  | nil => rw [List.append_nil]
  | cons c t =>
    obtain ⟨hc, ht⟩ := List.forall_mem_cons.mp ht
    have hnone := words_blank_append ht []
    rw [List.append_nil] at hnone
    rw [words_append_cons hc, hnone, words_nil, List.append_nil]

/-- Cutting white space off takes no word away. -/
theorem words_dropWhile {p : Char → Bool} (hp : ∀ c, p c = true → isBlankChar c = true)
    (s : List Char) : words (s.dropWhile p) = words s := by
  have hstart : ∀ c ∈ s.takeWhile p, isBlankChar c = true := fun c hc =>
    hp c (List.mem_takeWhile_imp hc)
  rw [← words_blank_append hstart, List.takeWhile_append_dropWhile]

/-- At neither end. -/
theorem words_dropRightWhile {p : Char → Bool} (hp : ∀ c, p c = true → isBlankChar c = true)
    (s : List Char) : words (dropRightWhile p s) = words s := by
  have hstop : ∀ c ∈ (s.reverse.takeWhile p).reverse, isBlankChar c = true := fun c hc =>
    hp c (List.mem_takeWhile_imp (List.mem_reverse.mp hc))
  rw [← words_append_blank _ hstop, dropRightWhile, ← List.reverse_append,
    List.takeWhile_append_dropWhile, List.reverse_reverse]

/-- Texts joined by white space have their words, one after the other. -/
theorem words_intercalate (hc : isBlankChar c = true) (ls : List (List Char)) :
    words ([c].intercalate ls) = ls.flatMap words := by
  induction ls with
  | nil => rfl
  | cons l ls ih =>
    cases ls with
    | nil => simp [List.intercalate]
    | cons m ls =>
      have hjoin : [c].intercalate (l :: m :: ls) = l ++ c :: [c].intercalate (m :: ls) := by
        simp [List.intercalate]
      rw [hjoin, words_append_cons hc, ih, List.flatMap_cons (x := l)]

/-- A text that starts and ends with no white space has none at its ends. -/
theorem trim_cons_append {a b : Char} (ha : isBlankChar a = false) (hb : isBlankChar b = false)
    (s : List Char) : trim (a :: s ++ [b]) = a :: s ++ [b] := by
  have hleft : (a :: s ++ [b]).dropWhile isBlankChar = a :: s ++ [b] :=
    List.dropWhile_cons_of_neg (by simp [ha])
  have hreverse : (a :: s ++ [b]).reverse = b :: (a :: s).reverse := List.reverse_append
  rw [trim, hleft, dropRightWhile, hreverse, List.dropWhile_cons_of_neg (by simp [hb]), ← hreverse,
    List.reverse_reverse]

/-! ## One word -/

/-- A word: characters, none of which is white space. -/
structure IsWord (w : List Char) : Prop where
  ne_nil : w ≠ []
  solid : ∀ c ∈ w, isBlankChar c = false

/-- The characters of the present word stay together. -/
theorem wordsBy_go_solid {p : Char → Bool} (word : List Char) (hw : ∀ c ∈ w, p c = false)
    (t : List Char) : wordsBy.go p word (w ++ t) = wordsBy.go p (w.reverse ++ word) t := by
  induction w generalizing word with
  | nil => rfl
  | cons c w ih =>
    obtain ⟨hc, hw⟩ := List.forall_mem_cons.mp hw
    simp only [List.cons_append, wordsBy.go, hc, Bool.false_eq_true, if_false, ih _ hw,
      List.reverse_cons, List.append_assoc, List.nil_append]

/-- A word has itself as its only word. -/
theorem IsWord.words_eq (h : IsWord w) : words w = [w] := by
  have hgo := wordsBy_go_solid (p := isBlankChar) [] h.solid []
  rw [List.append_nil, List.append_nil] at hgo
  rw [words, wordsBy, hgo, wordsBy.go, if_neg (by simpa using h.ne_nil), List.reverse_reverse]

/-- The words of a text are words. -/
theorem isWord_of_mem_words (h : w ∈ words s) : IsWord w := by
  have hgo : ∀ (s word : List Char), (∀ c ∈ word, isBlankChar c = false) →
      ∀ w ∈ wordsBy.go isBlankChar word s, IsWord w := by
    intro s
    induction s with
    | nil =>
      intro word hword w hw
      simp only [wordsBy.go] at hw
      split at hw
      · cases hw
      · rename_i hne
        obtain rfl := List.mem_singleton.mp hw
        exact ⟨by simpa using hne, fun c hc => hword c (List.mem_reverse.mp hc)⟩
    | cons b s ih =>
      intro word hword
      simp only [wordsBy.go]
      by_cases hb : isBlankChar b = true
      · rw [if_pos hb]
        split
        · exact ih [] (List.forall_mem_nil _)
        · rename_i hne
          refine List.forall_mem_cons.mpr ⟨⟨by simpa using hne, fun c hc => ?_⟩,
            ih [] (List.forall_mem_nil _)⟩
          exact hword c (List.mem_reverse.mp hc)
      · rw [if_neg hb]
        exact ih _ (List.forall_mem_cons.mpr ⟨Bool.eq_false_iff.mpr hb, hword⟩)
  exact hgo s [] (List.forall_mem_nil _) w h

/-- Words joined by white space are the words of what they make up. -/
theorem flatMap_words (ws : List (List Char)) (h : ∀ w ∈ ws, IsWord w) : ws.flatMap words = ws := by
  induction ws with
  | nil => rfl
  | cons w ws ih =>
    obtain ⟨hw, hws⟩ := List.forall_mem_cons.mp h
    rw [List.flatMap_cons, hw.words_eq, ih hws, List.singleton_append]

end MarkupLint.Text
