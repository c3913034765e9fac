import MarkupLint.Body.Pattern
import MarkupLint.Proofs.Lines

/-! # Where blocks stand

    A block reports line numbers.  It is `Placed` in a body if each of them
    is the number of a line of that body, and that line is the one the block
    is about: it carries the marker, the text or the adornment that tells
    the block.  A block that is placed in the rest of a body is placed in
    the whole of it. -/

namespace MarkupLint

/-! ## Placed blocks -/

/-- The line with a number is there and satisfies `p`. -/
def Body.Shows (b : Body) (n : Nat) (p : Line → Prop) : Prop := ∃ l, b.line? n = some l ∧ p l

/-- The complaint is about a line of the body, which it quotes if it quotes
    anything.  Only the complaint about a missing literal block may be about
    a blank line. -/
def Problem.Placed (b : Body) (p : Problem) : Prop :=
  b.Shows p.line fun l =>
    (Text.isBlank l = true → p.text = "Literal block expected; none found.")
      ∧ ∀ quoted ∈ p.literal, l <:+: quoted

/-- The title is the line of the heading, and the lines around it are the
    adornments of its style. -/
structure Heading.Placed (b : Body) (h : Heading) : Prop where
  title : b.Shows h.line fun l =>
    Text.isBlank l = false ∧ (h.text = l ∨ h.text = Text.trim l) ∧ l <:+: h.markup
  underline : b.Shows (h.line + 1) fun l =>
    Pattern.isAdornment l = true ∧ l.head? = some h.style.underline
  overline : ∀ c ∈ h.style.overline, b.Shows (h.line - 1) fun l =>
    Pattern.isAdornment l = true ∧ l.head? = some c
  shortage : ∀ p ∈ h.shortage, p.Placed b

/-- The item starts on a line of `p`, and so does its body. -/
structure ListItem.Placed (p : Line → Prop) (b : Body) (item : ListItem) : Prop where
  marker : b.Shows item.line p
  offset : item.body.offset + 1 = item.line
  below : item.body.Below b

/-- The item starts on a line that gives its head, and so does its body. -/
structure HeadedItem.Placed (p : Line → List Char → Prop) (b : Body) (item : HeadedItem) :
    Prop where
  marker : b.Shows item.line fun l => p l item.head
  offset : item.body.offset + 1 = item.line
  below : item.body.Below b

/-- The term is on the line of the item, and the definition starts on the
    next one, which is indented. -/
structure DefinitionItem.Placed (b : Body) (item : DefinitionItem) : Prop where
  term : b.Shows item.line fun l => Pattern.isPlain l = true ∧ item.term <+: l
  next : b.Shows (item.line + 1) fun l => Text.isBlank l = false ∧ l.isIndented = true
  offset : item.body.offset = item.line
  below : item.body.Below b

/-- The number of the enumerator that a line starts with, if it starts with
    one, fits 64 bits. -/
def Pattern.Countable (l : Line) : Prop :=
  (Pattern.enumeratorParts? l).isSome = true → (Pattern.enumerator? l).isSome = true

instance : DecidablePred Pattern.Countable := fun _ => inferInstanceAs (Decidable (_ → _))

/-- The block stands where its numbers say. -/
def Block.Placed (b : Body) : Block → Prop
  | .problem p => p.Placed b
  | .paragraph line text stray =>
    (b.Shows line fun l => Text.isBlank l = false) ∧ text <+: b.textFrom line ∧
      ∀ n ∈ stray, b.Shows n fun l => Text.isBlank l = false ∧ l.isIndented = true
  | .literal line text =>
    (b.Shows line fun l => Text.isBlank l = false) ∧
      ∃ ls, text = Line.joinLines ls ∧ (⟨line - 1, ls⟩ : Body).Below b
  | .heading h => h.Placed b
  | .transition line => b.Shows line fun l => Pattern.isAdornment l = true
  | .quote line body =>
    (b.Shows line fun l => Text.isBlank l = false ∧ l.isIndented = true) ∧
      body.offset + 1 = line ∧ body.Below b
  | .bulletList line items =>
    (b.Shows line fun l => (Pattern.bullet? l).isSome) ∧
      ∀ item ∈ items, item.Placed (fun l => (Pattern.bullet? l).isSome) b
  | .enumeratedList line _ items =>
    (b.Shows line fun l => (Pattern.enumerator? l).isSome) ∧
      ∀ item ∈ items, item.Placed (fun l => (Pattern.enumerator? l).isSome) b
  | .stuckList line _ => b.Shows line fun l => ¬Pattern.Countable l
  | .fieldList line items =>
    (b.Shows line fun l => (Pattern.field? l).isSome) ∧
      ∀ item ∈ items, item.Placed (fun l name => ∃ k, Pattern.field? l = some (name, k)) b
  | .optionList line items =>
    (b.Shows line fun l => (Pattern.options? l).isSome) ∧
      ∀ item ∈ items, item.Placed
        (fun l name => ∃ mark, Pattern.options? l = some mark ∧ name = Text.trim mark) b
  | .definitionList line items =>
    (b.Shows line fun l => Text.isBlank l = false) ∧ ∀ item ∈ items, item.Placed b
  | .doctest line text =>
    (b.Shows line fun l => Pattern.isDoctest l = true) ∧ text <+: b.textFrom line
  | .lineBlock line lines =>
    (b.Shows line fun l => Pattern.isLineBlock l = true) ∧
      ∀ q ∈ lines, b.Shows q.1 fun l => Text.isBlank l = false ∧ q.2 <:+: l
  | .table line text =>
    (b.Shows line fun l => Pattern.isGridBorder l = true ∨ Pattern.isSimpleBorder l = true) ∧
      text <+: b.textFrom line
  | .explicit line lines markup =>
    (b.Shows line fun l => Pattern.isExplicit l = true) ∧
      (⟨line - 1, lines⟩ : Body).Below b ∧ markup <+: b.textFrom line
  | .anonymousTarget line lines =>
    (b.Shows line fun l => Pattern.isAnonymous l = true) ∧ (⟨line - 1, lines⟩ : Body).Below b

namespace Body

variable {b : Body} {n k : Nat} {p q : Line → Prop}

/-- A line that satisfies more is shown there, too. -/
theorem Shows.imp (h : b.Shows n p) (himp : ∀ l, p l → q l) : b.Shows n q := by
  obtain ⟨l, hl, hp⟩ := h
  exact ⟨l, hl, himp l hp⟩

/-- A line that is shown is one of the body. -/
theorem Shows.exists_line (h : b.Shows n p) : ∃ l, b.line? n = some l := by
  obtain ⟨l, hl, -⟩ := h
  exact ⟨l, hl⟩

/-- A line of the rest of a body is one of the body. -/
theorem Shows.of_drop (h : (b.drop k).Shows n p) : b.Shows n p := by
  obtain ⟨l, hl, hp⟩ := h
  exact ⟨l, line?_of_drop hl, hp⟩

/-- A line of the rest of a body starts the same text in the whole body. -/
theorem Shows.textFrom_drop (h : (b.drop k).Shows n p) : (b.drop k).textFrom n = b.textFrom n := by
  obtain ⟨l, hl, -⟩ := h
  have hrange := range_of_line? hl
  simp only [drop] at hrange
  exact Body.textFrom_drop (by omega)

/-- The lines at the start of a body, under their numbers. -/
theorem shows_of_isStart {o : Nat} {taken ls : List Line} (h : taken <+: ls)
    (hp : ∀ x ∈ taken, p x) (hk : k < taken.length) :
    (⟨o, ls⟩ : Body).Shows (o + 1 + k) p := by
  refine ⟨taken[k], line?_of_getElem? ?_, hp _ (List.getElem_mem hk)⟩
  obtain ⟨t, rfl⟩ := h
  rw [List.getElem?_append_left hk, List.getElem?_eq_getElem hk]

end Body

/-! ## From the rest of a body to the whole -/

section Drop

variable {b : Body} {k : Nat}

/-- A problem in the rest is one in the body. -/
theorem Problem.Placed.of_drop {p : Problem} (h : p.Placed (b.drop k)) : p.Placed b :=
  Body.Shows.of_drop h

/-- A heading in the rest is one in the body. -/
theorem Heading.Placed.of_drop {h : Heading} (hp : h.Placed (b.drop k)) : h.Placed b where
  title := hp.title.of_drop
  underline := hp.underline.of_drop
  overline c hc := (hp.overline c hc).of_drop
  shortage p hps := (hp.shortage p hps).of_drop

variable (hk : k ≤ b.lines.length)
include hk

/-- The line of an item is counted from the same offset. -/
theorem ListItem.Placed.of_drop {p : Line → Prop} {item : ListItem}
    (h : item.Placed p (b.drop k)) : item.Placed p b :=
  ⟨h.marker.of_drop, h.offset, h.below.of_drop hk⟩

/-- So is the line of one with a head. -/
theorem HeadedItem.Placed.of_drop {p : Line → List Char → Prop} {item : HeadedItem}
    (h : item.Placed p (b.drop k)) : item.Placed p b :=
  ⟨h.marker.of_drop, h.offset, h.below.of_drop hk⟩

/-- So are the two lines of a definition. -/
theorem DefinitionItem.Placed.of_drop {item : DefinitionItem} (h : item.Placed (b.drop k)) :
    item.Placed b :=
  ⟨h.term.of_drop, h.next.of_drop, h.offset, h.below.of_drop hk⟩

/-- By the blocks: what each of them names is placed in the whole body. -/
theorem Block.Placed.of_drop {block : Block} (h : block.Placed (b.drop k)) : block.Placed b := by
  cases block with
  | problem p => exact Problem.Placed.of_drop h
  | paragraph line text stray =>
    obtain ⟨hline, htext, hstray⟩ := h
    exact ⟨hline.of_drop, hline.textFrom_drop ▸ htext, fun n hn => (hstray n hn).of_drop⟩
  | literal line text =>
    obtain ⟨hline, ls, htext, hls⟩ := h
    exact ⟨hline.of_drop, ls, htext, hls.of_drop hk⟩
  | heading h' => exact Heading.Placed.of_drop h
  | transition line => exact Body.Shows.of_drop h
  | quote line body =>
    obtain ⟨hline, hoffset, hbelow⟩ := h
    exact ⟨hline.of_drop, hoffset, hbelow.of_drop hk⟩
  | bulletList line items => exact ⟨h.1.of_drop, fun i hi => (h.2 i hi).of_drop hk⟩
  | enumeratedList line start items => exact ⟨h.1.of_drop, fun i hi => (h.2 i hi).of_drop hk⟩
  | stuckList line first => exact Body.Shows.of_drop h
  | fieldList line items => exact ⟨h.1.of_drop, fun i hi => (h.2 i hi).of_drop hk⟩
  | optionList line items => exact ⟨h.1.of_drop, fun i hi => (h.2 i hi).of_drop hk⟩
  | definitionList line items => exact ⟨h.1.of_drop, fun i hi => (h.2 i hi).of_drop hk⟩
  | doctest line text => exact ⟨h.1.of_drop, h.1.textFrom_drop ▸ h.2⟩
  | lineBlock line lines => exact ⟨h.1.of_drop, fun q hq => (h.2 q hq).of_drop⟩
  | table line text => exact ⟨h.1.of_drop, h.1.textFrom_drop ▸ h.2⟩
  | explicit line lines markup =>
    exact ⟨h.1.of_drop, h.2.1.of_drop hk, h.1.textFrom_drop ▸ h.2.2⟩
  | anonymousTarget line lines => exact ⟨h.1.of_drop, h.2.of_drop hk⟩

end Drop

/-! ## Texts of lines -/

/-- The text of the first lines starts the text of all. -/
theorem Line.joinLines_start {a b : List Line} (h : a <+: b) : joinLines a <+: joinLines b := by
  obtain ⟨t, rfl⟩ := h
  induction a with
  | nil => exact List.nil_prefix
  | cons x a ih =>
    cases a with
    | nil =>
      cases t with
      | nil => exact List.prefix_rfl
      | cons y t =>
        refine ⟨['\n'] ++ joinLines (y :: t), ?_⟩
        simp [joinLines, List.intercalate_cons_cons]
    | cons y a =>
      obtain ⟨u, hu⟩ := ih
      refine ⟨u, ?_⟩
      simp only [joinLines, List.cons_append, List.intercalate_cons_cons, List.append_assoc]
        at hu ⊢
      rw [hu]

/-- What is left when the end is dropped starts the text. -/
theorem Text.dropRightWhile_isStart (p : Char → Bool) (s : List Char) :
    Text.dropRightWhile p s <+: s := by
  have h := List.dropWhile_suffix (l := s.reverse) p
  simpa [Text.dropRightWhile] using List.reverse_prefix.mpr h

/-- A text that is trimmed is part of what it was. -/
theorem Text.trim_infix (s : List Char) : Text.trim s <:+: s :=
  (Text.dropRightWhile_isStart _ _).isInfix.trans (List.dropWhile_suffix _).isInfix

/-- What precedes an occurrence starts the text. -/
theorem Text.cut?_isStart {p s before after : List Char}
    (h : Text.cut? p s = some (before, after)) : before <+: s := by
  induction s generalizing before after with
  | nil =>
    simp only [Text.cut?] at h
    split at h
    · obtain ⟨rfl, -⟩ := by simpa using h
      exact List.nil_prefix
    · cases h
  | cons c s ih =>
    simp only [Text.cut?] at h
    split at h
    · obtain ⟨rfl, -⟩ := by simpa using h
      exact List.nil_prefix
    · obtain ⟨⟨front, back⟩, hcut, hpair⟩ := Option.map_eq_some_iff.mp h
      obtain ⟨rfl, -⟩ := by simpa using hpair
      exact List.cons_prefix_cons.mpr ⟨rfl, ih hcut⟩

/-- An adornment is not blank. -/
theorem Pattern.not_isBlank_of_isAdornment {l : Line} (h : Pattern.isAdornment l = true) :
    Text.isBlank l = false := by
  cases l with
  | nil => simp [Pattern.isAdornment] at h
  | cons c rest =>
    simp only [Pattern.isAdornment, Bool.and_eq_true] at h
    have hc : Text.isBlankChar c = false := by
      have hrange := h.1
      simp only [Pattern.isAdornmentChar, Bool.and_eq_true, decide_eq_true_eq] at hrange
      simp only [Text.isBlankChar]
      rw [if_pos (by omega)]
      simp only [Bool.or_eq_false_iff, beq_eq_false_iff_ne, decide_eq_false_iff_not]
      omega
    simp [Text.isBlank, hc]

/-- So it has a first character. -/
theorem Pattern.head?_of_isAdornment {l : Line} (h : Pattern.isAdornment l = true) :
    l.head? = some (l.headD ' ') := by
  cases l with
  | nil => simp [Pattern.isAdornment] at h
  | cons c rest => rfl

end MarkupLint
