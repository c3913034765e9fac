import MarkupLint.Proofs.Applying
import MarkupLint.Proofs.Bullets
import MarkupLint.Proofs.Roles

/-! # Words in markup

    Words of letters, some of them in markup, stand in a text with single
    spaces between them.  Every mark is a token of its own, next to the token
    of its word (`MarkedWord.tokensFrom_raw`), so what a mark starts ends with
    the next mark: the pieces of the text are the words in markup, in order
    (`MarkedWord.pieces_text`).

    Every word in markup is then a node with the word in it, and the plain
    text between two of them is one leaf, character by character
    (`Parse.inlineParse_markedWords`).  Text in backquotes is a title
    reference, as long as no other role was made the default one
    (`Site.Referring`). -/

namespace MarkupLint.Inline

/-- The ways to mark a single word that stand for nothing but themselves. -/
inductive Markup where
  | emphasis | strong | literal | interpreted
  deriving DecidableEq, Repr

namespace Markup

/-- What stands before and after the word. -/
def mark : Markup → List Char
  | emphasis => ['*']
  | strong => ['*', '*']
  | literal => ['\x60', '\x60']
  | interpreted => ['\x60']

def token : Markup → TokenKind
  | emphasis => .emphasis
  | strong => .strong
  | literal => .literal
  | interpreted => .backquote

def form : Markup → List Char → Form
  | emphasis => .emphasis
  | strong => .strong
  | literal => .literal
  | interpreted => .interpreted []

end Markup

/-- A word, in markup or as it is. -/
structure MarkedWord where
  markup : Option Markup
  word : List Char
  deriving DecidableEq, Repr

namespace MarkedWord

/-- The word as it is written. -/
def raw (m : MarkedWord) : List Char :=
  match m.markup with
  | none => m.word
  | some k => k.mark ++ (m.word ++ k.mark)

/-- The words with single spaces between them. -/
def text (ms : List MarkedWord) : List Char := [' '].intercalate (ms.map raw)

/-- What stands before further words. -/
def gap (ms : List MarkedWord) : List Char := if ms.isEmpty then [] else [' ']

theorem text_cons (m : MarkedWord) (ms : List MarkedWord) :
    text (m :: ms) = m.raw ++ (gap ms ++ text ms) := by
  cases ms with
  | nil => simp [text, gap]
  | cons n ms => simp [text, gap, List.intercalate]

/-- Only a space stands after a word. -/
theorem head?_gap (ms : List MarkedWord) : ∀ c ∈ (gap ms ++ text ms).head?, c = ' ' := by
  cases ms with
  | nil => exact fun _ h => nomatch h
  | cons m ms => exact fun c h => (Option.some.inj h).symm

variable {m : MarkedWord} {ms : List MarkedWord}

/-! ## Tokens -/

/-- The tokens of a word at a position. -/
def tokens (m : MarkedWord) (p : Nat) : List Token :=
  match m.markup with
  | none => [⟨.word, p, m.word⟩]
  | some k =>
    [⟨k.token, p, k.mark⟩, ⟨.word, p + k.mark.length, m.word⟩,
      ⟨k.token, p + k.mark.length + m.word.length, k.mark⟩]

def gapTokens (ms : List MarkedWord) (p : Nat) : List Token :=
  if ms.isEmpty then [] else [⟨.space, p, [' ']⟩]

def textTokens (p : Nat) : List MarkedWord → List Token
  | [] => []
  | m :: ms =>
    m.tokens p ++ (gapTokens ms (p + m.raw.length)
      ++ textTokens (p + m.raw.length + (gap ms).length) ms)

/-- A letter is part of a word, and no mark and no space. -/
theorem letter {c : Char} (hc : c.isAlpha = true) :
    isPlain c = true ∧ Text.isWordChar c = true ∧ Text.isBlankChar c = false :=
  ⟨Line.isPlain_of_isAlpha hc, Line.of_isAlpha (P := fun c => Text.isWordChar c = true) (by decide) hc,
    Line.isBlankChar_of_isAlpha hc⟩

/-- A mark is a token where neither a mark nor a role name follows. -/
theorem tokensFrom_mark (k : Markup) {tail : List Char}
    (htail : ∀ c ∈ tail.head?, c ≠ '*' ∧ c ≠ '\x60') (p : Nat) :
    tokensFrom p (k.mark ++ tail)
      = ⟨k.token, p, k.mark⟩ :: tokensFrom (p + k.mark.length) tail := by
  have hstart : ∀ x : Char, x = '*' ∨ x = '\x60' → Text.dropStart? [x] tail = none := by
    intro x hx
    cases tail with
    | nil => rfl
    | cons c tail =>
      obtain ⟨hstar, hquote⟩ := htail c rfl
      refine if_neg fun heq => ?_
      rcases hx with rfl | rfl
      · exact hstar heq.symm
      · exact hquote heq.symm
  have hstar := hstart '*' (.inl rfl)
  have hquote := hstart '\x60' (.inr rfl)
  cases k with
  | emphasis =>
    have htoken : tokenAt '*' ([] ++ tail) = (.emphasis, ([] : List Char).length + 1) := by
      unfold tokenAt
      simp [Text.startsWith, Text.dropStart?, hstar]
    exact tokensFrom_cons htoken p
  | strong =>
    have htoken : tokenAt '*' (['*'] ++ tail) = (.strong, ['*'].length + 1) := by
      unfold tokenAt
      simp [Text.startsWith, Text.dropStart?]
    exact tokensFrom_cons htoken p
  | literal =>
    have htoken : tokenAt '\x60' (['\x60'] ++ tail) = (.literal, ['\x60'].length + 1) := by
      unfold tokenAt
      simp [Text.startsWith, Text.dropStart?]
    exact tokensFrom_cons htoken p
  | interpreted =>
    have htoken : tokenAt '\x60' ([] ++ tail) = (.backquote, ([] : List Char).length + 1) :=
      tokenAt_backquote fun heq => (htail _ heq).2 rfl
    exact tokensFrom_cons htoken p

/-- A word is a token where its letters end. -/
theorem tokensFrom_word {word tail : List Char} (hword : Line.isLettered word = true)
    (htail : ∀ c ∈ tail.head?, Text.isWordChar c = false) (p : Nat) :
    tokensFrom p (word ++ tail) = ⟨.word, p, word⟩ :: tokensFrom (p + word.length) tail := by
  have hletters : ∀ c ∈ word, Text.isWordChar c = true := fun c hc =>
    (letter (Line.isAlpha_of_isLettered hword c hc)).2.1
  obtain ⟨c, more, rfl, hc⟩ := Line.start_of_isLettered hword
  obtain ⟨hplain, hfirst, -⟩ := letter hc
  have htoken : tokenAt c (more ++ tail) = (.word, more.length + 1) := by
    rw [tokenAt_of_isPlain hplain, if_pos hfirst, ← List.cons_append,
      Extract.takeWhile_append_of_head htail, List.takeWhile_eq_self_iff.mpr hletters, List.length_cons]
  exact tokensFrom_cons htoken p

theorem tokensFrom_raw (hm : Line.isLettered m.word = true) {tail : List Char}
    (htail : ∀ c ∈ tail.head?, c = ' ') (p : Nat) :
    tokensFrom p (m.raw ++ tail) = m.tokens p ++ tokensFrom (p + m.raw.length) tail := by
  have hspace : ∀ c ∈ tail.head?, Text.isWordChar c = false := fun c hc => by
    rw [htail c hc]
    decide
  cases hmarkup : m.markup with
  | none =>
    simp only [raw, tokens, hmarkup]
    exact tokensFrom_word hm hspace p
  | some k =>
    have hopen : ∀ c ∈ (m.word ++ (k.mark ++ tail)).head?, c ≠ '*' ∧ c ≠ '\x60' := by
      obtain ⟨c, more, hword, hc⟩ := Line.start_of_isLettered hm
      rw [hword]
      rintro d hd
      obtain rfl := Option.some.inj hd
      exact ⟨Line.ne_of_isAlpha hc (by decide), Line.ne_of_isAlpha hc (by decide)⟩
    have hword : ∀ c ∈ (k.mark ++ tail).head?, Text.isWordChar c = false := by
      cases k <;> exact fun c hc => Option.some.inj hc ▸ by decide
    have hclose : ∀ c ∈ tail.head?, c ≠ '*' ∧ c ≠ '\x60' := fun c hc => by
      rw [htail c hc]
      decide
    simp only [raw, tokens, hmarkup]
    rw [List.append_assoc, List.append_assoc, tokensFrom_mark k hopen, tokensFrom_word hm hword,
      tokensFrom_mark k hclose]
    simp only [List.length_append, List.cons_append, List.nil_append, Nat.add_assoc]

/-- Neither a word nor a mark starts with a space. -/
theorem head?_raw (hm : Line.isLettered m.word = true) (tail : List Char) :
    ∀ c ∈ (m.raw ++ tail).head?, Text.isPatternSpace c = false := by
  obtain ⟨first, more, hword, hfirst⟩ := Line.start_of_isLettered hm
  cases hmarkup : m.markup with
  | none =>
    simp only [raw, hmarkup, hword]
    intro c hc
    rw [← Option.some.inj hc]
    exact Line.of_isAlpha (P := fun c => Text.isPatternSpace c = false) (by decide) hfirst
  | some k =>
    simp only [raw, hmarkup]
    cases k <;> exact fun c hc => Option.some.inj hc ▸ by decide

/-- The tokens of the text are those of its words and the spaces between them. -/
theorem tokensFrom_text (h : ∀ m ∈ ms, Line.isLettered m.word = true) (p : Nat) :
    tokensFrom p (text ms) = textTokens p ms := by
  induction ms generalizing p with
  | nil => rw [textTokens]; exact tokensFrom.eq_1 p
  | cons m ms ih =>
    obtain ⟨hm, hms⟩ := List.forall_mem_cons.mp h
    rw [text_cons, tokensFrom_raw hm (head?_gap ms), textTokens, ← ih hms]
    congr 1
    cases ms with
    | nil => rfl
    | cons n ms =>
      have htail := head?_raw (hms n List.mem_cons_self) (gap ms ++ text ms)
      rw [← text_cons] at htail
      have htoken : tokenAt ' ' ([] ++ text (n :: ms)) = (.space, ([] : List Char).length + 1) := by
        rw [tokenAt_of_isPlain (by decide), if_neg (by decide), if_pos (by decide), List.nil_append,
          List.takeWhile_cons_of_pos (by decide)]
        cases hrest : text (n :: ms) with
        | nil => rfl
        | cons c rest =>
          rw [List.takeWhile_cons_of_neg (by simp [htail c (by rw [hrest]; rfl)])]
          rfl
      exact tokensFrom_cons htoken _

end MarkedWord

/-! ## Where marks stand -/

namespace Scan

variable {u v tail : List Char}

/-- A mark before a letter, at the start of the text or after a space. -/
theorem startOk_letter {c : Char} (hu : ∀ b ∈ u.getLast?, b = ' ') (hc : c.isAlpha = true)
    (rest : List Char) :
    Scan.startOk ⟨(u ++ (v ++ c :: rest)).toArray⟩ u.length (u.length + v.length) = true := by
  have hafter : Scan.after? ⟨(u ++ (v ++ c :: rest)).toArray⟩ (u.length + v.length) = some c := by
    rw [← List.append_assoc, ← List.length_append, after?_append]
    rfl
  have hblank := Line.isBlankChar_of_isAlpha hc
  rw [startOk, hafter, before?_append]
  cases hlast : u.getLast? with
  | none => simp [hblank]
  | some b =>
    obtain rfl := hu b hlast
    -- No quote and no bracket is a space.
    have hquotes : matchingQuotes ' ' c = false := by
      have hinitial : Text.Punctuation.isInitialQuote ' ' = false := by decide +kernel
      simp [matchingQuotes, quotePairs, hinitial]
    have hspace : mayPrecede ' ' = true := by decide
    simp [hblank, hquotes, hspace]

theorem endsAt_space (htail : ∀ c ∈ tail.head?, c = ' ') :
    Scan.endsAt ⟨(u ++ (v ++ tail)).toArray⟩ (u.length + v.length) = true := by
  rw [endsAt, ← List.append_assoc, ← List.length_append, after?_append]
  cases hhead : tail.head? with
  | none => rfl
  | some c =>
    obtain rfl := htail c hhead
    decide

/-- A mark after a letter, at the end of the text or before a space. -/
theorem endOk_letter {c : Char} (hu : u.getLast? = some c) (hc : c.isAlpha = true)
    (htail : ∀ c ∈ tail.head?, c = ' ') :
    Scan.endOk ⟨(u ++ (v ++ tail)).toArray⟩ u.length (u.length + v.length) = true := by
  rw [endOk, before?_append, hu, endsAt_space htail]
  simp [Line.isBlankChar_of_isAlpha hc]

theorem spaceBefore_letter {c : Char} (hu : u.getLast? = some c) (hc : c.isAlpha = true)
    (rest : List Char) : Scan.spaceBefore ⟨(u ++ rest).toArray⟩ u.length = false := by
  rw [spaceBefore, before?_append, hu]
  simp [Line.ne_of_isAlpha hc (x := ' ') (by decide), Line.ne_of_isAlpha hc (x := '\n') (by decide),
    Line.ne_of_isAlpha hc (x := '\t') (by decide)]

end Scan

namespace Source

variable {x : Source} {k p : Nat} {u : Markup} {word : List Char}

/-- From the token at an index on, which starts at a position, a word between
    two marks; a space follows or nothing. -/
structure MarkAt (x : Source) (k p : Nat) (u : Markup) (word : List Char) : Prop where
  opening : x.tokens[k]? = some ⟨u.token, p, u.mark⟩
  closing : x.tokens[k + 2]? = some ⟨u.token, p + u.mark.length + word.length, u.mark⟩
  space : ∀ t, x.tokens[k + 3]? = some t → t.kind = .space

/-- What a mark starts ends with the next one, if markup may end there. -/
theorem enclosed_eq {kind : TokenKind} (hclose : x.is (k + 2) kind = true)
    (hstart : x.scan.startOk (x.start k) (x.stop k) = true)
    (hend : x.scan.endOk (x.start (k + 2)) (x.stop (k + 2)) = true) (what : String)
    (form : List Char → Form) :
    x.enclosed k kind what form
      = (some ⟨x.start k, x.stop (k + 2), form (x.scan.slice (x.stop k) (x.start (k + 2)))⟩, k + 3) := by
  have hfind : x.findEnd k kind = some (k + 2) :=
    search_first (lt_size_of_is hclose) (by simp [hclose, hend])
  unfold enclosed
  dsimp only
  rw [hstart, hfind]
  rfl

namespace MarkAt

/-- Where markup may start and end, the word is a piece. -/
theorem dispatch_eq (h : x.MarkAt k p u word) (hescape : '\\' ∉ word)
    (hstart : x.scan.startOk p (p + u.mark.length) = true)
    (hspace : x.scan.spaceBefore (p + u.mark.length + word.length) = false)
    (hend : x.scan.endOk (p + u.mark.length + word.length)
      (p + u.mark.length + word.length + u.mark.length) = true)
    (hslice : x.scan.slice (p + u.mark.length) (p + u.mark.length + word.length) = word) :
    x.dispatch k ⟨u.token, p, u.mark⟩
      = (some ⟨p, p + u.mark.length + word.length + u.mark.length, u.form word⟩, k + 3) := by
  have hfirst : x.start k = p := by simp [start, h.opening]
  have hinner : x.stop k = p + u.mark.length := by simp [stop, h.opening, Token.stop]
  have hlast : x.start (k + 2) = p + u.mark.length + word.length := by simp [start, h.closing]
  have hstop : x.stop (k + 2) = p + u.mark.length + word.length + u.mark.length := by
    simp [stop, h.closing, Token.stop]
  have hclose : x.is (k + 2) u.token = true := by simp [is, h.closing]
  have hfound : ∀ what form, x.enclosed k u.token what form
      = (some ⟨p, p + u.mark.length + word.length + u.mark.length, form word⟩, k + 3) := by
    intro what form
    rw [enclosed_eq hclose (by rwa [hfirst, hinner]) (by rwa [hlast, hstop]), hfirst, hinner, hlast,
      hstop, hslice]
  cases u with
  | emphasis =>
    have hpiece := hfound "emphasis" fun s => .emphasis (unescape s)
    rw [unescape_of_not_mem hescape] at hpiece
    exact hpiece
  | strong =>
    have hpiece := hfound "strong" fun s => .strong (unescape s)
    rw [unescape_of_not_mem hescape] at hpiece
    exact hpiece
  | literal => exact hfound _ _
  | interpreted =>
    have hafter : ∀ kind : TokenKind, kind ≠ .space → x.is (k + 3) kind = false := by
      intro kind hkind
      unfold is
      split
      · rename_i t ht
        rw [h.space t ht]
        exact decide_eq_false (Ne.symm hkind)
      · rfl
    have htrailer : x.trailer (k + 2) = ([], none, k + 3) := by
      simp [trailer, mark?, hafter .role (by decide), hafter .underscore (by decide)]
    have hends : x.scan.endsAt (p + 1 + word.length + 1) = true := by
      unfold Scan.endOk at hend
      split at hend
      · cases hend
      · exact (Bool.and_eq_true_iff.mp hend).2
    have hclosing : x.is (k + 2) .backquote = true := hclose
    have hstart' : x.scan.startOk p (p + 1) = true := hstart
    have hspace' : x.scan.spaceBefore (p + 1 + word.length) = false := hspace
    have hslice' : x.scan.slice (p + 1) (p + 1 + word.length) = word := hslice
    show x.interpreted k k = (some ⟨p, p + 1 + word.length + 1, .interpreted [] word⟩, k + 3)
    unfold interpreted
    dsimp only
    rw [hfirst, hinner, show Markup.interpreted.mark.length = 1 from rfl, hstart',
      search_first (k := k + 2) (lt_size_of_is hclose)
        (a := (⟨p, p + 1 + word.length + 1, .interpreted [] word⟩, k + 3))]
    · rfl
    · rw [hlast]
      simp [hclosing, hspace', htrailer, hends, hslice', Markup.mark]

end MarkAt

/-- The scan passes over a space. -/
theorem piecesFrom_space {t : Token} (ht : x.tokens[k]? = some t) (hkind : t.kind = .space)
    (flushed : Nat) : x.piecesFrom [] k flushed = x.piecesFrom [] (k + 1) flushed := by
  obtain ⟨hk, rfl⟩ := Array.getElem?_eq_some_iff.mp ht
  have hdispatch : x.dispatch k x.tokens[k] = (none, k + 1) := by rw [dispatch, hkind]
  rw [piecesFrom, dif_pos hk]
  dsimp only
  rw [List.find?_nil]
  dsimp only
  rw [hdispatch]
  dsimp only
  rw [Nat.max_self, ite_self]

end Source

/-! ## Pieces -/

namespace MarkedWord

variable {m : MarkedWord} {ms : List MarkedWord}

/-- The piece that a word at a position is, if it is in markup. -/
def piece? (m : MarkedWord) (p : Nat) : Option Piece :=
  m.markup.map fun k => ⟨p, p + m.raw.length, k.form m.word⟩

def textPieces (p : Nat) : List MarkedWord → List Piece
  | [] => []
  | m :: ms => (m.piece? p).toList ++ textPieces (p + m.raw.length + (gap ms).length) ms

section Scanning

variable {x : Source} {before tail : List Char} {ts after : List Token} {flushed : Nat}

/-- A token that is no markup is passed alone if a space is behind it. -/
theorem stretch_of_space {k : Nat} {t : Token} (ht : x.tokens[k]? = some t)
    (hplain : t.kind.isPlain = true) (hspace : ∀ t, x.tokens[k + 1]? = some t → t.kind = .space) :
    x.Stretch k (k + 1) := by
  have hnext : ∀ kind : TokenKind, kind ≠ .space → x.is (k + 1) kind = false := by
    intro kind hkind
    rw [Source.is]
    split
    · rename_i t ht
      rw [hspace t ht]
      exact decide_eq_false (Ne.symm hkind)
    · rfl
  exact {
    plain := fun j t' hkj hj ht' => by
      obtain rfl : j = k := by omega
      rwa [← Option.some.inj (ht.symm.trans ht')]
    word := hnext .word (by decide)
    punct := hnext .punct (by decide)
    underscore := hnext .underscore (by decide) }

/-- The scan goes on after a word in markup, with a piece. -/
theorem piecesFrom_mark {u : Markup} {word : List Char} {k : Nat} (hword : Line.isLettered word = true)
    (hbefore : ∀ b ∈ before.getLast?, b = ' ') (htail : ∀ c ∈ tail.head?, c = ' ')
    (hscan : x.scan = ⟨(before ++ (u.mark ++ (word ++ (u.mark ++ tail)))).toArray⟩)
    (hmark : x.MarkAt k before.length u word) (hflushed : flushed ≤ before.length) :
    x.piecesFrom [] k flushed
      = ⟨before.length, before.length + u.mark.length + word.length + u.mark.length, u.form word⟩ ::
        x.piecesFrom [] (k + 3) (before.length + u.mark.length + word.length + u.mark.length) := by
  obtain ⟨c, more, hcons, hc⟩ := Line.start_of_isLettered hword
  have hescape : '\\' ∉ word := fun hmem =>
    Line.ne_of_isAlpha (Line.isAlpha_of_isLettered hword _ hmem) (by decide) rfl
  have hstart : x.scan.startOk before.length (before.length + u.mark.length) = true := by
    rw [hscan, hcons]
    exact Scan.startOk_letter hbefore hc _
  -- The last letter of the word stands before the mark that ends the markup.
  obtain ⟨last, hlast, hletter⟩ : ∃ c, (before ++ (u.mark ++ word)).getLast? = some c ∧
      c.isAlpha = true := by
    have hne : word ≠ [] := by simp [hcons]
    refine ⟨word.getLast hne, ?_, Line.isAlpha_of_isLettered hword _ (List.getLast_mem hne)⟩
    rw [List.getLast?_append_of_ne_nil _ (by simp [hne]), List.getLast?_append_of_ne_nil _ hne,
      List.getLast?_eq_getLast_of_ne_nil hne]
  have hlength : (before ++ (u.mark ++ word)).length = before.length + u.mark.length + word.length := by
    simp only [List.length_append, Nat.add_assoc]
  have hback : x.scan = ⟨(before ++ (u.mark ++ word) ++ (u.mark ++ tail)).toArray⟩ := by
    rw [hscan]
    simp only [List.append_assoc]
  have hslice : x.scan.slice (before.length + u.mark.length)
      (before.length + u.mark.length + word.length) = word := by
    rw [hscan, ← List.append_assoc, ← List.length_append]
    exact Scan.slice_append _ _ _
  have hdispatch := hmark.dispatch_eq hescape hstart
    (by rw [hback, ← hlength]; exact Scan.spaceBefore_letter hlast hletter _)
    (by rw [hback, ← hlength]; exact Scan.endOk_letter hlast hletter htail) hslice
  obtain ⟨hk, htoken⟩ := Array.getElem?_eq_some_iff.mp hmark.opening
  rw [Source.piecesFrom, dif_pos hk]
  dsimp only
  rw [htoken, List.find?_nil]
  dsimp only
  rw [if_neg (Nat.not_lt.mpr hflushed), hdispatch]
  simp

/-- The scan goes on after a word, with a piece if it is in markup. -/
theorem piecesFrom_word (hm : Line.isLettered m.word = true) (hbefore : ∀ b ∈ before.getLast?, b = ' ')
    (htail : ∀ c ∈ tail.head?, c = ' ')
    (hscan : x.scan = ⟨(before ++ (m.raw ++ tail)).toArray⟩)
    (htokens : x.tokens.toList = ts ++ (m.tokens before.length ++ after))
    (hafter : ∀ t ∈ after.head?, t.kind = .space) (hflushed : flushed ≤ before.length) :
    ∃ flushed' ≤ before.length + m.raw.length, x.piecesFrom [] ts.length flushed
      = (m.piece? before.length).toList ++
        x.piecesFrom [] (ts.length + (m.tokens before.length).length) flushed' := by
  have hat : ∀ d, x.tokens[ts.length + d]? = (m.tokens before.length ++ after)[d]? := by
    intro d
    rw [← Array.getElem?_toList, htokens, List.getElem?_append_right (Nat.le_add_right _ d),
      Nat.add_sub_cancel_left]
  have hspace : ∀ t, after[0]? = some t → t.kind = .space := fun t ht =>
    hafter t (List.head?_eq_getElem?.trans ht)
  cases hmarkup : m.markup with
  | none =>
    simp only [tokens, hmarkup, List.singleton_append] at hat
    have hstretch : x.Stretch ts.length (ts.length + 1) :=
      stretch_of_space (hat 0) rfl fun t ht => hspace t ((hat 1).symm.trans ht)
    have hsize : ts.length + 1 ≤ x.tokens.size := by
      rw [← Array.length_toList, htokens]
      simp [tokens, hmarkup]
    refine ⟨flushed, by omega, ?_⟩
    rw [hstretch.skip (Nat.le_succ _) hsize]
    simp [piece?, tokens, hmarkup]
  | some u =>
    simp only [tokens, hmarkup, List.cons_append, List.nil_append] at hat
    have hmark : x.MarkAt ts.length before.length u m.word :=
      { opening := hat 0
        closing := hat 2
        space := fun t ht => hspace t ((hat 3).symm.trans ht) }
    have htext : x.scan = ⟨(before ++ (u.mark ++ (m.word ++ (u.mark ++ tail)))).toArray⟩ := by
      rw [hscan, raw, hmarkup]
      simp only [List.append_assoc]
    have hstop : before.length + u.mark.length + m.word.length + u.mark.length
        = before.length + m.raw.length := by
      simp only [raw, hmarkup, List.length_append]
      omega
    refine ⟨before.length + m.raw.length, Nat.le_refl _, ?_⟩
    rw [piecesFrom_mark hm hbefore htail htext hmark hflushed, hstop]
    simp [piece?, tokens, hmarkup]

/-- By the words: each is passed with the space behind it. -/
theorem piecesFrom_text (before : List Char) (ts : List Token) (flushed : Nat)
    (h : ∀ m ∈ ms, Line.isLettered m.word = true)
    (hbefore : ms ≠ [] → ∀ b ∈ before.getLast?, b = ' ')
    (hscan : x.scan = ⟨(before ++ text ms).toArray⟩)
    (htokens : x.tokens.toList = ts ++ textTokens before.length ms) (hflushed : flushed ≤ before.length) :
    x.piecesFrom [] ts.length flushed = textPieces before.length ms := by
  induction ms generalizing before ts flushed with
  | nil =>
    rw [Source.piecesFrom, dif_neg]
    · rfl
    · rw [← Array.length_toList, htokens]
      simp [textTokens]
  | cons m ms ih =>
    obtain ⟨hm, hms⟩ := List.forall_mem_cons.mp h
    have hafter : ∀ t ∈ (gapTokens ms (before.length + m.raw.length) ++ textTokens
        (before.length + m.raw.length + (gap ms).length) ms).head?, t.kind = .space := by
      cases ms with
      | nil => exact fun _ ht => by cases ht
      | cons n ms => exact fun t ht => Option.some.inj ht ▸ rfl
    rw [text_cons] at hscan
    obtain ⟨flushed', hle, hword⟩ := piecesFrom_word hm (hbefore (List.cons_ne_nil m ms))
      (head?_gap ms) hscan htokens hafter hflushed
    have hlength : (before ++ (m.raw ++ gap ms)).length = before.length + m.raw.length + (gap ms).length := by
      simp only [List.length_append, Nat.add_assoc]
    have hrest := ih (before ++ (m.raw ++ gap ms))
      (ts ++ (m.tokens before.length ++ gapTokens ms (before.length + m.raw.length))) flushed' hms
      (fun hne b hb => by
        obtain ⟨n, ms, rfl⟩ := List.exists_cons_of_ne_nil hne
        simpa [gap] using hb.symm)
      (by rw [hscan]; simp only [List.append_assoc])
      (by rw [htokens, textTokens, hlength]; simp only [List.append_assoc])
      (by rw [hlength]; omega)
    rw [hword, textPieces, ← hlength, ← hrest]
    congr 1
    cases ms with
    | nil => simp [gapTokens]
    | cons n ms =>
      refine (Source.piecesFrom_space (t := ⟨.space, before.length + m.raw.length, [' ']⟩) ?_ rfl _).trans ?_
      · rw [← Array.getElem?_toList, htokens, ← List.length_append, textTokens, ← List.append_assoc,
          List.getElem?_append_right (Nat.le_refl _), Nat.sub_self]
        rfl
      · simp [gapTokens, Nat.add_assoc]

end Scanning

/-- The text has letters, marks and spaces. -/
theorem mem_text (h : ∀ m ∈ ms, Line.isLettered m.word = true) {c : Char} (hc : c ∈ text ms) :
    c.isAlpha = true ∨ c ∈ [' ', '*', '\x60'] := by
  induction ms with
  | nil => cases hc
  | cons m ms ih =>
    obtain ⟨hm, hms⟩ := List.forall_mem_cons.mp h
    have hword : ∀ c ∈ m.word, c.isAlpha = true := Line.isAlpha_of_isLettered hm
    have hmark : ∀ k : Markup, ∀ c ∈ k.mark, c ∈ [' ', '*', '\x60'] := by
      rintro (_ | _ | _ | _) <;> simp [Markup.mark]
    have hgap : ∀ c ∈ gap ms, c ∈ [' ', '*', '\x60'] := by
      cases ms with
      | nil => exact List.forall_mem_nil _
      | cons n ms => exact List.forall_mem_singleton.mpr (by decide)
    rw [text_cons, List.mem_append, List.mem_append] at hc
    rcases hc with hc | hc | hc
    · cases hmarkup : m.markup with
      | none => exact .inl (hword c (by simpa [raw, hmarkup] using hc))
      | some k =>
        simp only [raw, hmarkup, List.mem_append] at hc
        rcases hc with hc | hc | hc
        · exact .inr (hmark k c hc)
        · exact .inl (hword c hc)
        · exact .inr (hmark k c hc)
    · exact .inr (hgap c hc)
    · exact ih hms hc

/-- The pieces of the text are its words in markup. -/
theorem pieces_text (h : ∀ m ∈ ms, Line.isLettered m.word = true) :
    pieces (text ms) = textPieces 0 ms := by
  have hcolon : ':' ∉ text ms := fun hmem => (mem_text h hmem).elim (by decide) (by decide)
  have hpieces := piecesFrom_text (x := Source.ofChars (text ms)) [] [] 0 h (fun _ _ hb => nomatch hb) rfl (by
      simp only [Source.ofChars, Inline.tokens, List.length_nil, List.nil_append]
      exact tokensFrom_text h 0) (Nat.le_refl 0)
  rw [pieces, uris, urisFrom_eq_nil hcolon]
  exact hpieces

end MarkedWord

end MarkupLint.Inline

/-! ## Nodes -/

namespace MarkupLint

open Inline (Markup MarkedWord)

namespace Inline

/-- The kind of the node that a word in markup becomes. -/
def Markup.kind : Markup → Kind
  | emphasis => .emphasis
  | strong => .strong
  | literal => .literal
  | interpreted => .titleReference

namespace MarkedWord

/-- Plain text is a leaf, if there is any. -/
def leaves (plain : List Char) : List Tree := if plain.isEmpty then [] else [.leaf plain]

/-- The nodes of words that follow some plain text: one for each word in
    markup, and leaves that hold the text between them. -/
def trees (line : Nat) (plain : List Char) : List MarkedWord → List Tree
  | [] => leaves plain
  | m :: ms =>
    match m.markup with
    | none => trees line (plain ++ (m.word ++ gap ms)) ms
    | some k =>
      leaves plain ++ .node { kind := k.kind, line := line } [.leaf m.word]
        :: trees line (gap ms) ms

end MarkedWord

end Inline

/-- Where text in backquotes is a title reference: no other role is the
    default one, and the name means that role. -/
structure Site.Referring (site : Site) (s : ParseState) : Prop where
  usual : s.doc.defaultRole = ""
  undefined : s.roles.get? "title-reference" = none
  role : site.env.role? "title-reference" = some (.generic .titleReference)

namespace Site.Referring

variable {site : Site} {s : ParseState}

theorem withForest (h : site.Referring s) (g : Forest) : site.Referring (s.withForest g) :=
  ⟨h.usual, h.undefined, h.role⟩

/-- The standard roles will do. -/
theorem of_standard (env : Environment) (henv : site.env = env.surroundings)
    (hstandard : env.constructs = .standard) (husual : s.doc.defaultRole = "") (hnone : s.roles = []) :
    site.Referring s where
  usual := husual
  undefined := by rw [hnone]; rfl
  role := by
    have hrole : Constructs.standard.role? "title-reference" = some (.generic .titleReference) := by
      rfl
    rw [henv, Environment.surroundings, hstandard]
    exact hrole

end Site.Referring

namespace Parse.InlineSite

open Build (Made)

variable {x : InlineSite} {s : ParseState} {scan : Inline.Scan} {word : List Char}

/-- A word in markup becomes a node. -/
theorem piece_markup (scan : Inline.Scan) (start stop : Nat) (k : Markup) (hne : word ≠ [])
    (hescape : '\\' ∉ word) (hsite : x.site.Referring s) (hs : s.doc.forest.WellFormed) :
    ∃ g i label, x.piece scan ⟨start, stop, k.form word⟩ s
        = .ok ⟨[i], [], String.ofList word⟩ (s.withForest g) ∧
      Made s.doc.forest g [i] [.node label [.leaf word]] ∧
      (label.line = 0 ∨ label.line = x.line) ∧
      { label with line := x.line } = { kind := k.kind, line := x.line : Node } := by
  have htext : String.ofList word ≠ "" := fun heq =>
    hne (String.ofList_inj.mp (heq.trans String.ofList_nil.symm))
  have hmake : ∀ kind : Kind, ∀ line : Int, ∃ g i,
      Build.textElement { kind := kind, line := line } (String.ofList word) s.doc
        = .ok i { s.doc with forest := g } ∧
      Made s.doc.forest g [i] [.node { kind := kind, line := line } [.leaf word]] := by
    intro kind line
    obtain ⟨g, i, helement, hmade⟩ :=
      Build.textElement_made { kind := kind, line := line } (String.ofList word) hs
    rw [if_neg htext] at hmade
    exact ⟨g, i, helement, hmade⟩
  have hone : ∀ kind : Kind, ∃ g i, Parse.build (do
        return ⟨[← Build.textElement { kind := kind } (String.ofList word)], [], String.ofList word⟩) s
        = .ok (⟨[i], [], String.ofList word⟩ : Inlined) (s.withForest g) ∧
      Made s.doc.forest g [i] [.node { kind := kind } [.leaf word]] := by
    intro kind
    obtain ⟨g, i, helement, hmade⟩ := hmake kind 0
    refine ⟨g, i, build_ok ?_, hmade⟩
    rw [Contract.bind_run, helement]
    rfl
  cases k with
  | emphasis =>
    obtain ⟨g, i, hrun, hmade⟩ := hone .emphasis
    exact ⟨g, i, _, hrun, hmade, .inl rfl, rfl⟩
  | strong =>
    obtain ⟨g, i, hrun, hmade⟩ := hone .strong
    exact ⟨g, i, _, hrun, hmade, .inl rfl, rfl⟩
  | literal =>
    obtain ⟨g, i, hrun, hmade⟩ := hone .literal
    exact ⟨g, i, _, hrun, hmade, .inl rfl, rfl⟩
  | interpreted =>
    -- No role is named, and the usual one for that was not changed.
    obtain ⟨g, i, helement, hmade⟩ := hmake .titleReference x.line
    have hname : roleName [] s = .ok "title-reference" s := by
      show EStateM.Result.ok (if s.doc.defaultRole = "" then "title-reference" else s.doc.defaultRole) s = _
      rw [if_pos hsite.usual]
    have hlower : Text.lowerString "title-reference" = "title-reference" := by decide +kernel
    have hfound : x.site.role? "title-reference" s = .ok (some (.generic .titleReference)) s := by
      unfold Site.role?
      rw [hlower, bind_get, hsite.undefined]
      exact congrArg (EStateM.Result.ok · s) hsite.role
    refine ⟨g, i, _, ?_, hmade, .inr rfl, rfl⟩
    show x.interpret [] (scan.slice start stop) word s = _
    unfold interpret
    refine (bind_ok hname _).trans ((bind_ok hfound _).trans ?_)
    rw [Inline.unescape_of_not_mem hescape]
    refine build_ok ?_
    show (RoleCall.wrap _ _) s.doc = _
    rw [RoleCall.wrap, Contract.bind_run, helement]
    rfl

/-- A leaf for plain text, if there is any. -/
theorem gap_leaves (before after : List Char) {plain : List Char} (hescape : '\\' ∉ plain)
    (hs : s.doc.forest.WellFormed) :
    ∃ g made, Parse.build (gap ⟨(before ++ (plain ++ after)).toArray⟩ before.length
        (before.length + plain.length)) s = .ok made (s.withForest g) ∧
      Made s.doc.forest g made.nodes (MarkedWord.leaves plain) ∧ made.messages = [] := by
  by_cases hplain : plain = []
  · subst hplain
    refine ⟨s.doc.forest, {}, ?_, .nil hs, rfl⟩
    rw [gap_eq, if_neg (by simp)]
    rfl
  · have hlt : before.length < before.length + plain.length :=
      Nat.lt_add_of_pos_right (List.length_pos_of_ne_nil hplain)
    obtain ⟨g, made, hgap, hmade, hmessages, -⟩ := gap_made hlt
      (Inline.Scan.slice_append before plain after) hescape hs
    rw [MarkedWord.leaves, if_neg (by simpa using hplain)]
    exact ⟨g, made, hgap, hmade, hmessages⟩

/-- By the words: those in markup end the plain text before them. -/
theorem assemble_made {ms : List MarkedWord} (h : ∀ m ∈ ms, Line.isLettered m.word = true)
    (before : List Char) {plain : List Char} (hescape : '\\' ∉ plain) (hsite : x.site.Referring s)
    (hs : s.doc.forest.WellFormed) :
    ∃ g made, x.assemble ⟨(before ++ (plain ++ MarkedWord.text ms)).toArray⟩ before.length
        (MarkedWord.textPieces (before.length + plain.length) ms) s = .ok made (s.withForest g) ∧
      Made s.doc.forest g made.nodes (MarkedWord.trees x.line plain ms) ∧ made.messages = [] := by
  induction ms generalizing before plain s with
  | nil =>
    have hsize : (⟨(before ++ (plain ++ MarkedWord.text [])).toArray⟩ : Inline.Scan).chars.size
        = before.length + plain.length := by
      simp [MarkedWord.text]
    unfold assemble
    rw [MarkedWord.textPieces, hsize]
    exact gap_leaves before (MarkedWord.text []) hescape hs
  | cons m ms ih =>
    obtain ⟨hm, hms⟩ := List.forall_mem_cons.mp h
    have hword : '\\' ∉ m.word := fun hmem =>
      Line.ne_of_isAlpha (Line.isAlpha_of_isLettered hm _ hmem) (by decide) rfl
    have hgap : '\\' ∉ MarkedWord.gap ms := by
      cases ms with
      | nil => exact List.not_mem_nil
      | cons n ms => exact fun hmem => absurd (List.mem_singleton.mp hmem) (by decide)
    rw [MarkedWord.text_cons, MarkedWord.textPieces]
    cases hmarkup : m.markup with
    | none =>
      -- The word and the space behind it go on with the plain text.
      have hraw : m.raw = m.word := by rw [MarkedWord.raw, hmarkup]
      have hplain : '\\' ∉ plain ++ (m.word ++ MarkedWord.gap ms) := by
        simp only [List.mem_append, not_or]
        exact ⟨hescape, hword, hgap⟩
      obtain ⟨g, made, hrun, hmade, hmessages⟩ := ih hms before hplain hsite hs
      refine ⟨g, made, ?_, ?_, hmessages⟩
      · simp only [MarkedWord.piece?, hmarkup, Option.map_none, Option.toList_none, List.nil_append, hraw]
        simp only [List.append_assoc, List.length_append, ← Nat.add_assoc] at hrun
        exact hrun
      · simp only [MarkedWord.trees, hmarkup]
        exact hmade
    | some k =>
      -- A leaf for the plain text, the node of the word, and plain text again from the space on.
      have hne : m.word ≠ [] := by
        obtain ⟨c, more, hcons, -⟩ := Line.start_of_isLettered hm
        simp [hcons]
      obtain ⟨g₁, first, hfirst, hmade₁, hnone₁⟩ := gap_leaves before
        (m.raw ++ (MarkedWord.gap ms ++ MarkedWord.text ms)) hescape hs
      obtain ⟨g₂, i, label, hpiece, hmade₂, hline, hlabel⟩ := piece_markup
        ⟨(before ++ (plain ++ (m.raw ++ (MarkedWord.gap ms ++ MarkedWord.text ms)))).toArray⟩
        (before.length + plain.length) (before.length + plain.length + m.raw.length) k
        (s := s.withForest g₁) hne hword (hsite.withForest g₁) hmade₁.wellFormed
      obtain ⟨g₃, hplace, hmade₃⟩ := place_made (x := x) (d := s.doc) hmade₂ hline
      rw [hlabel] at hmade₃
      obtain ⟨g₄, last, hlast, hmade₄, hnone₄⟩ := ih hms (before ++ (plain ++ m.raw))
        (s := s.withForest g₃) hgap (hsite.withForest g₃) hmade₃.wellFormed
      refine ⟨g₄, ⟨first.nodes ++ [i] ++ last.nodes, [] ++ last.messages,
          first.text ++ String.ofList m.word ++ last.text⟩,
        ?_, ?_, by rw [hnone₄]; rfl⟩
      · simp only [MarkedWord.piece?, hmarkup, Option.map_some, Option.toList_some, List.singleton_append]
        simp only [List.append_assoc, List.length_append, ← Nat.add_assoc] at hlast
        unfold assemble
        refine (bind_ok hfirst _).trans ((bind_ok hpiece _).trans ?_)
        exact (bind_ok (build_ok hplace) _).trans ((bind_ok hlast _).trans rfl)
      · simp only [MarkedWord.trees, hmarkup]
        rw [List.append_cons (MarkedWord.leaves plain)]
        exact (hmade₁.append hmade₃).append hmade₄

end Parse.InlineSite

/-- **Words in markup are read as they were written.**  In a text of words of
    letters with single spaces between them, any of them in markup, each word
    in markup becomes one node of its kind that holds the word, in order, and
    the plain text between these is kept in leaves, character by character.
    Nothing is said, and nothing but the nodes of the document changes. -/
theorem Parse.inlineParse_markedWords {ms : List MarkedWord}
    (h : ∀ m ∈ ms, Line.isLettered m.word = true) {site : Site} (line : Nat) {s : ParseState}
    (hsite : site.Referring s) (hs : s.doc.forest.WellFormed) :
    ∃ g made, inlineParse site (MarkedWord.text ms) line s = .ok made (s.withForest g) ∧
      Build.Made s.doc.forest g made.nodes (MarkedWord.trees line [] ms) ∧ made.messages = [] := by
  have hassemble := InlineSite.assemble_made (x := ⟨site, line⟩) h [] List.not_mem_nil hsite hs
  rw [inlineParse, MarkedWord.pieces_text h]
  exact hassemble

/-- Every kind of markup, once next to another and once after plain words. -/
theorem Parse.inlineParse_markedWords_all :
    let ms : List MarkedWord := [⟨none, ['S', 'e', 'e']⟩, ⟨some .emphasis, ['a']⟩,
      ⟨some .interpreted, ['B', 'b']⟩, ⟨none, ['a', 'n', 'd']⟩, ⟨none, ['c']⟩,
      ⟨some .literal, ['d']⟩, ⟨some .strong, ['e']⟩]
    let s : ParseState := { doc := Document.new "d.rst" {} }
    (∀ m ∈ ms, Line.isLettered m.word = true) ∧ Site.standardTop.Referring s ∧
      s.doc.forest.WellFormed ∧
      ∃ g made, inlineParse Site.standardTop (MarkedWord.text ms) 7 s = .ok made (s.withForest g) ∧
        Build.Made s.doc.forest g made.nodes
          [.leaf ['S', 'e', 'e', ' '], .node { kind := .emphasis, line := 7 } [.leaf ['a']],
            .leaf [' '], .node { kind := .titleReference, line := 7 } [.leaf ['B', 'b']],
            .leaf [' ', 'a', 'n', 'd', ' ', 'c', ' '],
            .node { kind := .literal, line := 7 } [.leaf ['d']], .leaf [' '],
            .node { kind := .strong, line := 7 } [.leaf ['e']]] ∧
        made.messages = [] := by
  intro ms s
  have hlettered : ∀ m ∈ ms, Line.isLettered m.word = true := by decide
  have hsite : Site.standardTop.Referring s :=
    .of_standard { constructs := .standard, files := {}, clock := 0 } rfl rfl rfl rfl
  have hs : s.doc.forest.WellFormed := Document.wellFormed_new "d.rst" {}
  exact ⟨hlettered, hsite, hs, inlineParse_markedWords hlettered 7 hsite hs⟩

end MarkupLint
