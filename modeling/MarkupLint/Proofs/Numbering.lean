import Mathlib.Data.List.SplitBy
import MarkupLint.Proofs.Bullets
import MarkupLint.Calendar.Shown
import MarkupLint.Proofs.Hanging
import MarkupLint.Proofs.Options

/-! # Numbered items become lists

    Items with numbers stand on lines with blank lines between them.  They are
    cut into runs in which each number is the one before it and one more
    (`NumberedItem.runs`), and a list takes exactly one run: it goes on as long
    as it finds the number that it expects (`NumberedItem.collect_run`).

    So reading them gives one list for each run, with one item for each number,
    and one notice for each run that does not start with 1
    (`Document.parse_numberedItems`).  The notice is raised when the list was
    hung up and before its items are read, so its node stands beside the
    list. -/

namespace MarkupLint

/-- An item with a number and a word. -/
structure NumberedItem where
  ordinal : Nat
  word : Line
  deriving DecidableEq, Repr

/-- A number as it is written before an item. -/
def Pattern.EnumeratorForm.mark (form : EnumeratorForm) (k : Nat) : List Char :=
  match form with
  | parens => '(' :: Nat.toDigits 10 k ++ [')']
  | period => Nat.toDigits 10 k ++ ['.']
  | rparen => Nat.toDigits 10 k ++ [')']

namespace NumberedItem

open Pattern (EnumeratorForm)

def line (form : EnumeratorForm) (i : NumberedItem) : Line := form.mark i.ordinal ++ ' ' :: i.word

/-- The lines of items, with blank ones between them. -/
def lines (form : EnumeratorForm) (items : List NumberedItem) : List Line :=
  (items.map (line form)).intersperse []

/-- The lines after an item, if these items follow it. -/
def after (form : EnumeratorForm) : List NumberedItem → List Line
  | [] => []
  | i :: items => [] :: lines form (i :: items)

/-- Whether the number of an item is that of another one and one more. -/
def follows (i j : NumberedItem) : Bool := j.ordinal == i.ordinal + 1

/-- The items cut wherever a number does not go on from the one before it. -/
def runs (items : List NumberedItem) : List (List NumberedItem) := items.splitBy follows

/-- An item with a word of letters and a number that fits 64 bits. -/
structure Fits (i : NumberedItem) : Prop where
  lettered : i.word.isLettered = true
  small : Text.fitsWord i.ordinal = true

variable {form : EnumeratorForm} {i : NumberedItem} {items run rest : List NumberedItem}

theorem lines_cons (form : EnumeratorForm) (i : NumberedItem) (items : List NumberedItem) :
    lines form (i :: items) = i.line form :: after form items := by
  cases items with
  | nil => rfl
  | cons j items => rfl

/-! ## Marks -/

theorem isDigit_of_mem {k : Nat} {c : Char} (h : c ∈ Nat.toDigits 10 k) : c.isDigit = true :=
  Nat.isDigit_of_mem_toDigits (by decide) (by decide) h

theorem start_toDigits (k : Nat) : ∃ d more, Nat.toDigits 10 k = d :: more ∧ d.isDigit = true := by
  obtain ⟨d, more, hdigits⟩ := List.exists_cons_of_ne_nil (Nat.toDigits_ne_nil (n := k) (b := 10))
  exact ⟨d, more, hdigits, isDigit_of_mem (hdigits ▸ List.mem_cons_self)⟩

/-- A number starts with a digit. -/
theorem toDigits_append_ne {k : Nat} {c : Char} (hc : c.isDigit = false) (tail rest : List Char) :
    Nat.toDigits 10 k ++ tail ≠ c :: rest := by
  obtain ⟨d, more, hdigits, hd⟩ := start_toDigits k
  rw [hdigits]
  intro heq
  rw [(List.cons.inj heq).1, hc] at hd
  cases hd

theorem start_line (form : EnumeratorForm) (i : NumberedItem) :
    ∃ c more, i.line form = c :: more ∧ (c = '(' ∨ c.isDigit = true) := by
  obtain ⟨d, more, hdigits, hd⟩ := start_toDigits i.ordinal
  unfold line EnumeratorForm.mark
  rw [hdigits]
  cases form with
  | parens => exact ⟨_, _, rfl, .inl rfl⟩
  | period | rparen => exact ⟨_, _, rfl, .inr hd⟩

/-- The digits of a number, before something else. -/
theorem sequence?_toDigits (k : Nat) {c : Char} (hc : c.isDigit = false) (rest : List Char) :
    Pattern.sequence? (Nat.toDigits 10 k ++ c :: rest) = some (Nat.toDigits 10 k, c :: rest) := by
  have hrun : (Nat.toDigits 10 k ++ c :: rest).takeWhile Char.isDigit = Nat.toDigits 10 k := by
    rw [List.takeWhile_append_of_pos fun _ => isDigit_of_mem, List.takeWhile_cons_of_neg (by simp [hc]),
      List.append_nil]
  have hne : (Nat.toDigits 10 k).isEmpty = false := by simp [Nat.toDigits_ne_nil]
  unfold Pattern.sequence?
  split
  · rename_i heq
    exact absurd heq (toDigits_append_ne (by decide) _ _)
  · simp only [hrun, hne, Bool.false_eq_true, if_false, List.drop_left]

theorem int?_toDigits {k : Nat} (h : Text.fitsWord k = true) :
    Text.int? (Nat.toDigits 10 k) = some k := by
  rw [Text.int?, Text.parseInt_digits (fun _ => isDigit_of_mem) (Text.digitsValue?_toDigits k) h]
  rfl

theorem gap?_space {word : Line} (h : word.isLettered = true) : Pattern.gap? (' ' :: word) = some 1 := by
  obtain ⟨c, more, rfl, hc⟩ := Line.start_of_isLettered h
  have hindent : Line.indent (' ' :: c :: more) = 1 := by
    simp [Line.indent, Line.ne_of_isAlpha hc (x := ' ') (by decide)]
  simp [Pattern.gap?, hindent]

theorem enumeratorParts?_line (form : EnumeratorForm) (h : i.word.isLettered = true) :
    Pattern.enumeratorParts? (i.line form) = some (form, Nat.toDigits 10 i.ordinal, 1) := by
  have hgap := gap?_space h
  -- After the digits, the form is told by the next character.
  have hbare : ∀ c : Char, c.isDigit = false →
      Pattern.enumeratorParts? (Nat.toDigits 10 i.ordinal ++ c :: ' ' :: i.word)
        = match c with
          | '.' => some (.period, Nat.toDigits 10 i.ordinal, 1)
          | ')' => some (.rparen, Nat.toDigits 10 i.ordinal, 1)
          | _ => none := by
    intro c hc
    unfold Pattern.enumeratorParts?
    split
    · rename_i heq
      exact absurd heq (toDigits_append_ne (by decide) _ _)
    · rw [sequence?_toDigits i.ordinal hc]
      split <;> simp_all
  cases form with
  | parens =>
    have hsequence := sequence?_toDigits i.ordinal (c := ')') (by decide) (' ' :: i.word)
    simp [line, EnumeratorForm.mark, Pattern.enumeratorParts?, hsequence, hgap]
  | period =>
    simp only [line, EnumeratorForm.mark, List.append_assoc, List.cons_append, List.nil_append]
    exact hbare '.' (by decide)
  | rparen =>
    simp only [line, EnumeratorForm.mark, List.append_assoc, List.cons_append, List.nil_append]
    exact hbare ')' (by decide)

/-- The enumerator of an item. -/
def enumerator (form : EnumeratorForm) (i : NumberedItem) : Pattern.Enumerator :=
  ⟨some i.ordinal, form, form.mark i.ordinal, (form.mark i.ordinal).length + 1⟩

theorem enumerator?_line (form : EnumeratorForm) (h : i.Fits) :
    Pattern.enumerator? (i.line form) = some (i.enumerator form) := by
  have hhash : Nat.toDigits 10 i.ordinal ≠ ['#'] := fun heq =>
    toDigits_append_ne (c := '#') (by decide) [] [] ((List.append_nil _).trans heq)
  unfold Pattern.enumerator?
  rw [enumeratorParts?_line form h.lettered]
  simp only [Option.bind_some, hhash, if_false, int?_toDigits h.small]
  cases form <;> rfl

/-! ## Lines -/

theorem not_isBlank_line (form : EnumeratorForm) (i : NumberedItem) :
    Text.isBlank (i.line form) = false := by
  obtain ⟨c, more, hline, hc⟩ := i.start_line form
  have hblank : Text.isBlankChar c = false := by
    rcases hc with rfl | hc
    · decide
    · exact Text.not_isBlankChar_of_isDigit hc
  rw [hline, Text.isBlank, List.all_cons, hblank, Bool.false_and]

theorem indent_line (form : EnumeratorForm) (i : NumberedItem) : (i.line form).indent = 0 := by
  obtain ⟨c, more, hline, hc⟩ := i.start_line form
  have hspace : c ≠ ' ' := by
    rintro rfl
    rcases hc with hc | hc <;> exact absurd hc (by decide)
  simp [hline, Line.indent, hspace]

theorem bullet?_line (form : EnumeratorForm) (i : NumberedItem) :
    Pattern.bullet? (i.line form) = none := by
  obtain ⟨c, more, hline, hc⟩ := i.start_line form
  have hne : ∀ {x : Char}, x ≠ '(' → x.isDigit = false → c ≠ x := by
    rintro x hx hdigit rfl
    rcases hc with hc | hc
    · exact hx hc
    · exact Bool.false_ne_true (hdigit.symm.trans hc)
  simp [hline, Pattern.bullet?, hne (x := '-') (by decide) (by decide),
    hne (x := '+') (by decide) (by decide), hne (x := '*') (by decide) (by decide),
    hne (x := '\u2022') (by decide) (by decide), hne (x := '\u2023') (by decide) (by decide),
    hne (x := '\u2043') (by decide) (by decide)]

/-- How many of the lines after an item belong to it, if these items
    follow it. -/
def extra (items : List NumberedItem) : Nat := if items.isEmpty then 0 else 1

theorem drop_after (form : EnumeratorForm) (items : List NumberedItem) :
    (after form items).drop (extra items) = lines form items := by
  cases items with
  | nil => rfl
  | cons i items => rfl

end NumberedItem

/-! ## Reading lists -/

namespace Reader

/-- What an enumerated list reads item by item. -/
def enumeratedItem (first : Pattern.Enumerator) (expected : Option Nat) (n : Nat) (l : Line)
    (rest : List Line) : Option (ListItem × Option Nat × Extract) :=
  match Pattern.enumerator? l with
  | some e =>
    if e.form = first.form && e.ordinal = expected && enumeratorHolds rest then
      let (item, x) := listItem e.width n l rest
      some (item, expected.map (· + 1), x)
    else none
  | none => none

theorem enumeratedList_eq (first : Pattern.Enumerator) (n : Nat) (ls : List Line) :
    enumeratedList first n ls = listReading "Enumerated list" n
      (.enumeratedList n (match first.ordinal with
        | some k => if k = 1 then none else some (k, first.text)
        | none => none))
      (collect (enumeratedItem first) first.ordinal n ls) := rfl

end Reader

namespace NumberedItem

open Pattern (EnumeratorForm)

variable {form : EnumeratorForm} {i : NumberedItem} {items run rest : List NumberedItem}

theorem enumeratorHolds_after (form : EnumeratorForm) (items : List NumberedItem) :
    Reader.enumeratorHolds (after form items) = true := by
  cases items with
  | nil => rfl
  | cons i items => rfl

/-- An item has its word, and the blank line after it. -/
theorem listItem_line (h : i.Fits) (n : Nat) (items : List NumberedItem) :
    Reader.listItem ((form.mark i.ordinal).length + 1) n (i.line form) (after form items)
      = (⟨n, ⟨n - 1, [i.word]⟩⟩, ⟨[i.word], extra items, true⟩) := by
  have hdrop : (i.line form).drop ((form.mark i.ordinal).length + 1) = i.word := by
    rw [line, List.drop_append, List.drop_eq_nil_of_le (Nat.le_succ _), Nat.add_sub_cancel_left]
    rfl
  have hblank : Text.isBlank i.word = false := Line.not_isBlank_of_isLettered h.lettered
  have htrim : ∀ k, Extract.trimEnd ([i.word] ++ List.replicate k []) = [i.word] :=
    Extract.trimEnd_append_replicate fun l hl => Option.some.inj hl ▸ hblank
  rw [Reader.listItem, hdrop, hblank]
  simp only [Bool.false_eq_true, if_false]
  cases items with
  | nil =>
    have hnext : ∀ l ∈ ([] : List Line).head?,
        Extract.inKnown ((form.mark i.ordinal).length + 1) l = false := by
      simp
    rw [after, ← List.nil_append [], Extract.known_append (i.line form) (List.forall_mem_nil _) hnext,
      List.map_singleton, hdrop, Extract.finish]
    have htrim := htrim 0
    rw [List.replicate_zero, List.append_nil] at htrim
    rw [htrim]
    rfl
  | cons j items =>
    have hnext : ∀ l ∈ (lines form (j :: items)).head?,
        Extract.inKnown ((form.mark i.ordinal).length + 1) l = false := by
      intro l hl
      rw [lines_cons] at hl
      obtain rfl := Option.some.inj hl
      rw [Extract.inKnown, not_isBlank_line, indent_line]
      rfl
    rw [after, ← List.singleton_append,
      Extract.known_append (i.line form) (List.forall_mem_singleton.mpr rfl) hnext, List.map_cons,
      List.map_singleton, hdrop, List.drop_nil, Extract.finish]
    have htrim := htrim 1
    rw [List.replicate_one, List.singleton_append] at htrim
    rw [htrim]
    simp [extra, Text.isBlank]

/-- The items as they are read from lines of which the first has number
    `n`. -/
def listItems (n : Nat) : List NumberedItem → List ListItem
  | [] => []
  | i :: items => ⟨n, ⟨n - 1, [i.word]⟩⟩ :: listItems (n + 2) items

theorem enumeratedItem_line (h : i.Fits) {first : Pattern.Enumerator} (hform : first.form = form)
    (n : Nat) (items : List NumberedItem) :
    Reader.enumeratedItem first (some i.ordinal) n (i.line form) (after form items)
      = some (⟨n, ⟨n - 1, [i.word]⟩⟩, some (i.ordinal + 1), ⟨[i.word], extra items, true⟩) := by
  simp [Reader.enumeratedItem, enumerator?_line form h, enumerator, hform, enumeratorHolds_after,
    listItem_line h]

/-- An item with another number than the one that is expected is none of the
    list. -/
theorem enumeratedItem_eq_none (h : i.Fits) (first : Pattern.Enumerator) {k : Nat}
    (hk : i.ordinal ≠ k) (n : Nat) (items : List Line) :
    Reader.enumeratedItem first (some k) n (i.line form) items = none := by
  simp [Reader.enumeratedItem, enumerator?_line form h, enumerator, hk]

/-- By the run: each number is the one that is expected, and what follows the
    run has another one. -/
theorem collect_run (h : ∀ j ∈ i :: run ++ rest, Fits j)
    (hrun : (i :: run).IsChain fun a b => follows a b = true)
    (hrest : ∀ j ∈ rest.head?, follows ((i :: run).getLast (List.cons_ne_nil _ _)) j = false)
    {first : Pattern.Enumerator} (hform : first.form = form) (n : Nat) :
    Reader.collect (Reader.enumeratedItem first) (some i.ordinal) n (lines form (i :: run ++ rest))
      = (listItems n (i :: run), 2 * run.length + 1 + extra rest, true) := by
  induction run generalizing i n with
  | nil =>
    obtain ⟨hi, hothers⟩ := List.forall_mem_cons.mp h
    rw [List.singleton_append, lines_cons, Reader.collect_of_some (enumeratedItem_line hi hform n rest),
      drop_after]
    have hnone : Reader.collect (Reader.enumeratedItem first) (some (i.ordinal + 1))
        (n + 1 + extra rest) (lines form rest) = ([], 0, true) := by
      cases rest with
      | nil => exact Reader.collect_nil _ _
      | cons j rest =>
        have hj : j.ordinal ≠ i.ordinal + 1 := by simpa [follows] using hrest j rfl
        rw [lines_cons]
        exact Reader.collect_of_none (enumeratedItem_eq_none (hothers j List.mem_cons_self) first hj _ _)
    rw [hnone]
    rfl
  | cons j run ih =>
    obtain ⟨hi, hothers⟩ := List.forall_mem_cons.mp h
    obtain ⟨hij, hrun⟩ := List.isChain_cons_cons.mp hrun
    have hj : j.ordinal = i.ordinal + 1 := by simpa [follows] using hij
    rw [List.cons_append, lines_cons, Reader.collect_of_some (enumeratedItem_line hi hform n _),
      drop_after, ← hj]
    dsimp only
    rw [ih hothers hrun (by simpa using hrest)]
    simp [listItems, extra]
    omega

/-! ## Reading the text -/

/-- What is noted about the start of a list, if its first number is not 1. -/
def start? (form : EnumeratorForm) (i : NumberedItem) : Option (Nat × List Char) :=
  if i.ordinal = 1 then none else some (i.ordinal, form.mark i.ordinal)

/-- The lists of runs, the first of them on line `n`. -/
def blocks (form : EnumeratorForm) (n : Nat) : List (List NumberedItem) → List Block
  | [] => []
  | [] :: runs => blocks form n runs
  | (i :: run) :: runs =>
    .enumeratedList n (start? form i) (listItems n (i :: run)) ::
      blocks form (n + 2 * (run.length + 1)) runs

theorem block_run (h : ∀ j ∈ i :: run ++ rest, Fits j)
    (hrun : (i :: run).IsChain fun a b => follows a b = true)
    (hrest : ∀ j ∈ rest.head?, follows ((i :: run).getLast (List.cons_ne_nil _ _)) j = false)
    (how : Reader.Manner) (n : Nat) :
    Reader.block how n (i.line form) (after form (run ++ rest))
      = ([.enumeratedList n (start? form i) (listItems n (i :: run))],
        2 * run.length + extra rest) := by
  have hi : i.Fits := h i List.mem_cons_self
  have hcollect := collect_run h hrun hrest (show (i.enumerator form).form = form from rfl) n
  rw [List.cons_append, lines_cons] at hcollect
  have hindented : (i.line form).isIndented = false := by
    rw [Line.isIndented, indent_line]
    rfl
  simp only [Reader.block, not_isBlank_line, hindented, bullet?_line,
    enumeratorParts?_line form hi.lettered, enumerator?_line form hi, enumeratorHolds_after,
    Bool.false_eq_true, if_false, if_true, Option.isSome_some]
  rw [Reader.enumeratedList_eq, Reader.listReading,
    show (i.enumerator form).ordinal = some i.ordinal from rfl, hcollect]
  have htaken : 2 * run.length + 1 + extra rest - 1 = 2 * run.length + extra rest := by omega
  simp only [Reader.unindentUnless, if_true, htaken]
  rfl

theorem drop_after_run (form : EnumeratorForm) (run rest : List NumberedItem) :
    (after form (run ++ rest)).drop (2 * run.length + extra rest) = lines form rest := by
  induction run with
  | nil =>
    rw [List.nil_append, List.length_nil, Nat.mul_zero, Nat.zero_add]
    exact drop_after form rest
  | cons j run ih =>
    rw [List.cons_append, after, lines_cons, List.length_cons,
      show 2 * (run.length + 1) + extra rest = 2 * run.length + extra rest + 1 + 1 by omega,
      List.drop_succ_cons, List.drop_succ_cons, ih]

/-- By the runs: each is read as one list, and nothing is said. -/
theorem blocks_flatten (form : EnumeratorForm) {rs : List (List NumberedItem)}
    (h : ∀ j ∈ rs.flatten, Fits j) (hne : [] ∉ rs)
    (hrun : ∀ r ∈ rs, r.IsChain fun a b => follows a b = true)
    (hbreak : rs.IsChain fun a b => ∃ ha hb, follows (a.getLast ha) (b.head hb) = false)
    (how : Reader.Manner) (n : Nat) :
    Reader.blocks how n (lines form rs.flatten) = blocks form n rs := by
  induction rs generalizing n with
  | nil => exact Reader.blocks.eq_1 _ _
  | cons r rs ih =>
    obtain ⟨hr, hrs⟩ := List.forall_mem_cons.mp hrun
    obtain ⟨hnil, hfull⟩ := not_or.mp fun hmem => hne (List.mem_cons.mpr hmem)
    obtain ⟨i, run, rfl⟩ := List.exists_cons_of_ne_nil (Ne.symm hnil)
    rw [List.flatten_cons] at h ⊢
    have hrest : ∀ j ∈ rs.flatten.head?, follows ((i :: run).getLast (List.cons_ne_nil _ _)) j = false := by
      intro j hj
      cases rs with
      | nil => cases hj
      | cons r rs =>
        obtain ⟨_, hr', hfollows⟩ := (List.isChain_cons_cons.mp hbreak).1
        rw [List.flatten_cons, List.head?_append_of_ne_nil _ hr', List.head?_eq_some_head hr'] at hj
        rw [← Option.some.inj hj]
        exact hfollows
    have hothers := ih (fun j hj => h j (List.mem_append_right _ hj)) hfull hrs hbreak.tail
      (n + 2 * (run.length + 1))
    rw [List.cons_append, lines_cons, Reader.blocks_cons, block_run h hr hrest, drop_after_run, blocks,
      ← hothers, List.singleton_append]
    -- Nothing follows the last run, whatever the number of the next line.
    cases hflatten : rs.flatten with
    | nil =>
      have hnone : ∀ k, Reader.blocks how k (lines form []) = [] := fun k => Reader.blocks.eq_1 _ _
      rw [hnone, hnone]
    | cons j rest =>
      congr 2
      simp only [extra, List.isEmpty_cons, Bool.false_eq_true, if_false]
      omega

/-- The text is read as one list for each run. -/
theorem blocks_lines (h : ∀ j ∈ items, Fits j) (how : Reader.Manner) (n : Nat) :
    Reader.blocks how n (lines form items) = blocks form n (runs items) := by
  have hflatten : (runs items).flatten = items := List.flatten_splitBy _ _
  have hfits : ∀ j ∈ (runs items).flatten, Fits j := by rwa [hflatten]
  have hblocks := blocks_flatten form hfits
    (List.nil_notMem_splitBy _ _) (fun _ => List.isChain_of_mem_splitBy)
    (List.isChain_getLast_head_splitBy _ _) how n
  rwa [hflatten] at hblocks

end NumberedItem

/-! ## Building the lists -/

namespace NumberedItem

open Pattern (EnumeratorForm)

/-- The node of a list on line `n` whose first item this is. -/
def label (n : Nat) (i : NumberedItem) : Node :=
  let blank := { kind := .enumeratedList, line := n : Node }.setAttr "enumtype" "arabic"
  if i.ordinal = 1 then blank else blank.setAttr "start" (Text.natText i.ordinal)

theorem bare_label (n : Nat) (i : NumberedItem) : (label n i).bare = label n i := by
  unfold label
  split <;> rfl

/-- What is said of a list whose first number is not 1. -/
def note? (form : EnumeratorForm) (heard : String) (n : Nat) (i : NumberedItem) : Option Notice :=
  if i.ordinal = 1 then none
  else some ⟨.info, Site.startNote (i.ordinal, form.mark i.ordinal), heard, n, none⟩

/-- The trees of items, the first of them on line `n`: each has a paragraph
    with its word. -/
def itemTrees (source : String) (n : Nat) : List NumberedItem → List Tree
  | [] => []
  | i :: items =>
    .node { kind := .listItem, line := n }
        [.node { kind := .paragraph, line := n, source := source } [.leaf i.word]] ::
      itemTrees source (n + 2) items

/-- The trees of runs, the first of them on line `n`: a list of the items, and
    a message if one was raised. -/
def trees (form : EnumeratorForm) (source heard : String) (n : Nat) :
    List (List NumberedItem) → List Tree
  | [] => []
  | [] :: runs => trees form source heard n runs
  | (i :: run) :: runs =>
    .node (label n i) (itemTrees source n (i :: run)) ::
      ((note? form heard n i).toList.map fun x => Build.messageTree x.level x.text x.source x.line) ++
      trees form source heard (n + 2 * (run.length + 1)) runs

/-- What is said of runs, the first of them on line `n`. -/
def notes (form : EnumeratorForm) (heard : String) (n : Nat) : List (List NumberedItem) → List Notice
  | [] => []
  | [] :: runs => notes form heard n runs
  | (i :: run) :: runs =>
    (note? form heard n i).toList ++ notes form heard (n + 2 * (run.length + 1)) runs

end NumberedItem

/-- The state with another reporter. -/
def ParseState.withReporter (s : ParseState) (r : Reporter) : ParseState :=
  { s with doc := { s.doc with reporter := r } }

namespace Site

variable {site : Site} {s : ParseState} {n : Nat}

/-- A body with nothing but a word hangs a paragraph up. -/
theorem readWithin_word (site : Site) (file : Site → Body → Parse Unit) (depth : Nat) {word : Line}
    (hword : word.isLettered = true) (hn : 0 < n) {i : NodeId} (hs : s.doc.forest.WellFormed)
    (hi : i < s.doc.forest.size) :
    ∃ g ns, readWithin file (depth + 1) (site.within i) ⟨n - 1, [word]⟩ s
        = .ok ⟨⟩ (s.withForest g) ∧
      s.doc.forest.Hung g i ns
        [.node { kind := .paragraph, line := n, source := site.source } [.leaf word]] := by
  have hne : word ≠ [] := by
    obtain ⟨c, more, hcons, -⟩ := Line.start_of_isLettered hword
    simp [hcons]
  obtain ⟨g, made, hinline, hmade, hmessages, -⟩ := Parse.inlineParse_plain hne
    (Line.plain_of_isLettered hword) (site.within i) n hs
  obtain ⟨h, j, hparagraph, hhung⟩ := paragraph_hung hne hinline hmade hmessages hs hi
  have hrest : ∀ x ∈ ([] : List Line).head?, Text.isBlank x = true := by simp
  have hblock : (site.within i).block ⟨readWithin file depth, file⟩ (.paragraph n word none) s
      = .ok ⟨⟩ (s.withForest h) := hparagraph
  refine ⟨h, [j], ?_, hhung⟩
  rw [readWithin, Site.blocks, Body.blocks, Nat.sub_add_cancel hn, Reader.blocks_cons,
    Line.block_of_isLettered hword hrest, List.drop_nil, Reader.blocks]
  exact forM_cons hblock _

open NumberedItem (Fits itemTrees label note? notes start? trees)

/-- By the items: each goes to its list with its word. -/
theorem wordItems_hung (file : Site → Body → Parse Unit) (depth : Nat) {items : List NumberedItem}
    (h : ∀ j ∈ items, Fits j) (hn : 0 < n) {list : NodeId} (hs : s.doc.forest.WellFormed)
    (hlist : list < s.doc.forest.size) :
    ∃ g ns, site.listItems ⟨readWithin file (depth + 1), file⟩ list (NumberedItem.listItems n items) s
        = .ok ⟨⟩ (s.withForest g) ∧
      s.doc.forest.Hung g list ns (itemTrees site.source n items) := by
  induction items generalizing n s with
  | nil => exact ⟨s.doc.forest, [], rfl, .refl hs hlist⟩
  | cons i items ih =>
    obtain ⟨hi, hothers⟩ := List.forall_mem_cons.mp h
    refine listItems_cons (fun t j ht hj => ?_) (fun t ht hlt => ?_) hs hlist
    · exact readWithin_word site file depth hi.lettered hn ht hj
    · exact ih hothers (Nat.succ_pos (n + 1)) ht hlt

variable {form : Pattern.EnumeratorForm} {heard : String} {i : NumberedItem}
  {run : List NumberedItem}

/-- The source that is named when something is said about a line. -/
theorem place_line (site : Site) (n : Nat) (d : Document) :
    Build.place { line := some n, source := site.source } d
      = .ok (if site.source = "" then d.reporter.source else site.source, (n : Int)) d := rfl

theorem enumeratedList_of_one (read : ReadBody) (n : Nat) (form : Pattern.EnumeratorForm)
    (h : i.ordinal = 1) (items : List ListItem) :
    site.block read (.enumeratedList n (start? form i) items)
      = site.openList (label n i) >>= fun list => site.listItems read list items := by
  rw [start?, label, if_pos h, if_pos h]
  rfl

/-- The message about the start of a list goes behind the list. -/
theorem enumeratedList_of_ne (read : ReadBody) (n : Nat) (form : Pattern.EnumeratorForm)
    (h : i.ordinal ≠ 1) (items : List ListItem) :
    site.block read (.enumeratedList n (start? form i) items)
      = site.openList (label n i) >>= fun list =>
        Parse.build (site.raise .info n (startNote (i.ordinal, form.mark i.ordinal))) >>= fun msg =>
        site.add [msg] >>= fun _ => site.listItems read list items := by
  rw [start?, label, if_neg h, if_neg h]
  rfl

/-- A run becomes a list of its items.  If it does not start with 1 then the
    reporter is told so, and a message stands beside the list. -/
theorem run_hung (form : Pattern.EnumeratorForm) (file : Site → Body → Parse Unit) (depth : Nat)
    (h : ∀ j ∈ i :: run, Fits j)
    (hn : 0 < n) (hheard : heard = if site.source = "" then s.doc.reporter.source else site.source)
    (hhalt : i.ordinal ≠ 1 → ¬s.doc.reporter.haltLevel ≤ .info) (hs : s.doc.forest.WellFormed)
    (hp : site.place s < s.doc.forest.size) :
    ∃ g r ns, site.block ⟨readWithin file (depth + 1), file⟩
          (.enumeratedList n (start? form i) (NumberedItem.listItems n (i :: run))) s
        = .ok ⟨⟩ ((s.withForest g).withReporter r) ∧
      Reporter.Told (note? form heard n i).toList s.doc.reporter r ∧
      s.doc.forest.Hung g (site.place s) ns (trees form site.source heard n [i :: run]) := by
  obtain ⟨g₁, list, hopen, hlist⟩ := site.openList_hung (label n i) hs hp
  rw [NumberedItem.bare_label] at hlist
  rw [trees, trees, List.append_nil]
  by_cases hone : i.ordinal = 1
  · obtain ⟨g, ns, hitems, hhung⟩ := site.wordItems_hung file depth h hn (s := s.withForest g₁)
      hlist.wellFormed (hlist.lt_size List.mem_cons_self)
    rw [enumeratedList_of_one _ n form hone, note?, if_pos hone]
    exact ⟨g, s.doc.reporter, [list], (Parse.bind_ok hopen _).trans hitems, .refl _, hlist.within hhung⟩
  · obtain ⟨g₂, r, msg, hraise, hmade, htold⟩ := Build.raise_made
      (startNote (i.ordinal, form.mark i.ordinal)) rfl hlist.wellFormed
      (site.place_line n (s.withForest g₁).doc) (hhalt hone)
    have hmsg := hmade.hung hlist.wellFormed (Nat.lt_of_lt_of_le hp hlist.size)
    have hadd := site.add_eq [msg] ((s.withForest g₂).withReporter r)
    have hboth := hlist.trans hmsg hs
    obtain ⟨g, ns, hitems, hhung⟩ := site.wordItems_hung file depth h hn
      (s := (s.withForest (g₂.append (site.place s) [msg])).withReporter r) hboth.wellFormed
      (hboth.lt_size List.mem_cons_self)
    rw [enumeratedList_of_ne _ n form hone, note?, if_neg hone, hheard]
    refine ⟨g, r, [list] ++ [msg], ?_, htold, hboth.within_head hhung⟩
    exact (Parse.bind_ok hopen _).trans ((Parse.bind_ok (Parse.build_ok hraise) _).trans
      ((Parse.bind_ok hadd _).trans hitems))

/-- A reporter that stops at notices of that level stops at a run that does
    not start with 1. -/
theorem run_halts (form : Pattern.EnumeratorForm) (read : ReadBody) (n : Nat)
    (items : List ListItem) (hone : i.ordinal ≠ 1)
    (hheard : heard = if site.source = "" then s.doc.reporter.source else site.source)
    (hhalt : s.doc.reporter.haltLevel ≤ .info) (hs : s.doc.forest.WellFormed)
    (hp : site.place s < s.doc.forest.size) :
    ∃ x t, note? form heard n i = some x ∧
      site.block read (.enumeratedList n (start? form i) items) s = .error (.halted x.halt) t := by
  obtain ⟨g, list, hopen, -⟩ := site.openList_hung (label n i) hs hp
  obtain ⟨d, hraise⟩ := Build.raise_halts (startNote (i.ordinal, form.mark i.ordinal))
    (site.place_line n (s.withForest g).doc) hhalt
  rw [enumeratedList_of_ne _ n form hone, note?, if_neg hone, hheard]
  exact ⟨_, _, rfl, (Parse.bind_ok hopen _).trans (Parse.bind_error (Parse.build_error hraise) _)⟩

/-- By the runs. -/
theorem runs_hung (file : Site → Body → Parse Unit) (depth : Nat) {rs : List (List NumberedItem)}
    (h : ∀ j ∈ rs.flatten, Fits j) (hn : 0 < n)
    (hheard : heard = if site.source = "" then s.doc.reporter.source else site.source)
    (hhalt : s.doc.reporter.haltLevel ≤ .info → notes form heard n rs = [])
    (hs : s.doc.forest.WellFormed) (hp : site.place s < s.doc.forest.size) :
    ∃ g r ns, (NumberedItem.blocks form n rs).forM (site.block ⟨readWithin file (depth + 1), file⟩) s
        = .ok ⟨⟩ ((s.withForest g).withReporter r) ∧
      Reporter.Told (notes form heard n rs) s.doc.reporter r ∧
      s.doc.forest.Hung g (site.place s) ns (trees form site.source heard n rs) := by
  induction rs generalizing n s with
  | nil => exact ⟨s.doc.forest, s.doc.reporter, [], rfl, .refl _, .refl hs hp⟩
  | cons run rs ih =>
    cases run with
    | nil => exact ih h hn hheard hhalt hs hp
    | cons i run =>
      obtain ⟨hrun, hothers⟩ := List.forall_mem_append.mp h
      have hfirst : i.ordinal ≠ 1 → ¬s.doc.reporter.haltLevel ≤ .info := by
        intro hone hlevel
        have hnone := hhalt hlevel
        rw [notes, note?, if_neg hone] at hnone
        cases hnone
      obtain ⟨g₁, r₁, ns, hblock, htold, hhung⟩ := site.run_hung form file depth hrun hn
        hheard hfirst hs hp
      have hafter : r₁.haltLevel ≤ .info → notes form heard (n + 2 * (run.length + 1)) rs = [] := by
        intro hlevel
        rw [htold.haltLevel] at hlevel
        exact (List.append_eq_nil_iff.mp (hhalt hlevel)).2
      obtain ⟨g₂, r₂, ms, hblocks, htold', hhung'⟩ := ih (n := n + 2 * (run.length + 1))
        (s := (s.withForest g₁).withReporter r₁) hothers (by omega)
        (by rw [hheard]; exact htold.source ▸ rfl) hafter hhung.wellFormed
        (Nat.lt_of_lt_of_le hp hhung.size)
      refine ⟨g₂, r₂, ns ++ ms, (forM_cons hblock _).trans hblocks, htold.trans htold', ?_⟩
      have hall := hhung.trans hhung' hs
      rwa [trees, trees, List.append_nil, List.cons_append] at hall

/-- By the runs: those before the first that does not start with 1 are
    read. -/
theorem runs_halt (file : Site → Body → Parse Unit) (depth : Nat) {rs : List (List NumberedItem)}
    (h : ∀ j ∈ rs.flatten, Fits j) (hn : 0 < n)
    (hheard : heard = if site.source = "" then s.doc.reporter.source else site.source)
    (hhalt : s.doc.reporter.haltLevel ≤ .info) (hs : s.doc.forest.WellFormed)
    (hp : site.place s < s.doc.forest.size) {x : Notice} (hx : x ∈ (notes form heard n rs).head?) :
    ∃ t, (NumberedItem.blocks form n rs).forM (site.block ⟨readWithin file (depth + 1), file⟩) s
      = .error (.halted x.halt) t := by
  induction rs generalizing n s with
  | nil => cases hx
  | cons run rs ih =>
    cases run with
    | nil => exact ih h hn hheard hhalt hs hp hx
    | cons i run =>
      obtain ⟨hrun, hothers⟩ := List.forall_mem_append.mp h
      by_cases hone : i.ordinal = 1
      · obtain ⟨g, r, ns, hblock, htold, hhung⟩ := site.run_hung form file depth hrun hn
          hheard (fun hne => absurd hone hne) hs hp
        rw [note?, if_pos hone] at htold
        rw [notes, note?, if_pos hone] at hx
        obtain ⟨t, hblocks⟩ := ih (n := n + 2 * (run.length + 1))
          (s := (s.withForest g).withReporter r) hothers (by omega)
          (by rw [hheard]; exact htold.source ▸ rfl) (htold.haltLevel ▸ hhalt) hhung.wellFormed
          (Nat.lt_of_lt_of_le hp hhung.size) hx
        exact ⟨t, (forM_cons hblock _).trans hblocks⟩
      · obtain ⟨y, t, hnote, hblock⟩ := site.run_halts form
          ⟨readWithin file (depth + 1), file⟩ n (NumberedItem.listItems n (i :: run)) hone hheard hhalt
          hs hp
        rw [notes, hnote] at hx
        obtain rfl := Option.some.inj hx
        exact ⟨t, Parse.bind_error hblock _⟩

end Site

/-! ## The document -/

namespace NumberedItem

variable {form : Pattern.EnumeratorForm} {i : NumberedItem} {items : List NumberedItem}

theorem tidy_line (form : Pattern.EnumeratorForm) (h : i.word.isLettered = true) :
    Line.Tidy (i.line form) where
  printable := by
    have hdigits : ∀ c ∈ Nat.toDigits 10 i.ordinal, ' '.toNat ≤ c.toNat ∧ c.toNat ≤ '~'.toNat :=
      fun c hc => Line.printable_of_isDigit (isDigit_of_mem hc)
    have hword : ∀ c ∈ ' ' :: i.word, ' '.toNat ≤ c.toNat ∧ c.toNat ≤ '~'.toNat :=
      List.forall_mem_cons.mpr ⟨by decide, fun c hc =>
        Line.printable_of_isAlpha (Line.isAlpha_of_isLettered h c hc)⟩
    rw [line]
    refine List.forall_mem_append.mpr ⟨?_, hword⟩
    cases form with
    | parens => exact List.forall_mem_append.mpr ⟨List.forall_mem_cons.mpr ⟨by decide, hdigits⟩, by simp⟩
    | period | rparen => exact List.forall_mem_append.mpr ⟨hdigits, by simp⟩
  stop := by
    obtain ⟨c, more, hcons, -⟩ := Line.start_of_isLettered h
    have hne : i.word ≠ [] := by simp [hcons]
    rw [line, List.getLast?_append_of_ne_nil _ (List.cons_ne_nil _ _), List.getLast?_cons_of_ne_nil hne]
    intro hlast
    exact Line.ne_of_isAlpha (Line.isAlpha_of_isLettered h _ (List.mem_of_getLast? hlast)) (by decide) rfl

/-- By the items: the last line is that of the last item. -/
theorem tidy_lines (form : Pattern.EnumeratorForm) (h : ∀ j ∈ i :: items, j.word.isLettered = true) :
    (∀ l ∈ lines form (i :: items), Line.Tidy l) ∧
      ∃ l ∈ (lines form (i :: items)).getLast?, l ≠ [] := by
  induction items generalizing i with
  | nil =>
    refine ⟨List.forall_mem_singleton.mpr (tidy_line form (h i List.mem_cons_self)), i.line form, rfl,
      fun hnil => ?_⟩
    simp [line] at hnil
  | cons j items ih =>
    obtain ⟨hi, hothers⟩ := List.forall_mem_cons.mp h
    obtain ⟨htidy, hlast⟩ := ih hothers
    rw [lines_cons, after]
    refine ⟨List.forall_mem_cons.mpr ⟨tidy_line form hi, List.forall_mem_cons.mpr ⟨.nil, htidy⟩⟩, ?_⟩
    rwa [List.getLast?_cons_of_ne_nil (List.cons_ne_nil _ _),
      List.getLast?_cons_of_ne_nil (by simp [lines_cons])]

theorem splitLines?_lines (form : Pattern.EnumeratorForm) (hne : items ≠ [])
    (h : ∀ j ∈ items, Fits j) {ending : List Char}
    (hending : ending = [] ∨ ending = ['\n']) (width : Int) :
    splitLines? width (Line.joinLines (lines form items) ++ ending) = some (lines form items) := by
  obtain ⟨i, items, rfl⟩ := List.exists_cons_of_ne_nil hne
  obtain ⟨htidy, hlast⟩ := tidy_lines form fun j hj => (h j hj).lettered
  exact splitLines?_of_clean (fun l hl => (htidy l hl).clean) hlast (head?_joinLines_of_tidy htidy)
    hending width

end NumberedItem

/-- **Enumerated lists are split at gaps.**  Items with words and numbers that
    fit 64 bits, with blank lines between them, become one list for each run of
    numbers that go on from one another, in order, with one item for each
    number of the run.  What is said is one notice for each run that does not
    start with 1, about the line of its first item; a reporter that stops at
    notices of that level stops at the first of them. -/
theorem Document.parse_numberedItems {items : List NumberedItem} (hne : items ≠ [])
    (h : ∀ j ∈ items, j.Fits) (form : Pattern.EnumeratorForm) {ending : List Char}
    (hending : ending = [] ∨ ending = ['\n']) (env : Surroundings) (source : String)
    (settings : Settings) (reporter : Reporter) :
    let d : Document := { new source settings with reporter := reporter }
    let text := Line.joinLines (NumberedItem.lines form items) ++ ending
    let heard := if source = "" then reporter.source else source
    let said := NumberedItem.notes form heard 1 (NumberedItem.runs items)
    ((reporter.haltLevel ≤ .info → said = []) → ∃ g r,
      d.parse env text = (.ok (), { d with forest := g, reporter := r }) ∧
        Reporter.Told said reporter r ∧
        g.shape d.root = .node { kind := .document, source := source }
          (NumberedItem.trees form source heard 1 (NumberedItem.runs items))) ∧
    (reporter.haltLevel ≤ .info → ∀ x ∈ said.head?,
      (d.parse env text).1 = .error (.halted x.halt)) := by
  intro d text heard said
  have hd : d.forest.WellFormed := wellFormed_new source settings
  have hroot : d.root < d.forest.size := Nat.zero_lt_one
  let site : Site := d.site env
  let body : Body := ⟨0, NumberedItem.lines form items⟩
  have hlines := NumberedItem.splitLines?_lines form hne h hending d.tabWidth
  have hruns : ∀ j ∈ (NumberedItem.runs items).flatten, j.Fits := by
    rwa [NumberedItem.runs, List.flatten_splitBy]
  -- The lines of an item are a body one level deeper.
  obtain ⟨depth, hdepth⟩ : ∃ depth, body.size = depth + 1 := by
    refine Nat.exists_eq_add_one_of_ne_zero ?_
    obtain ⟨i, items, rfl⟩ := List.exists_cons_of_ne_nil hne
    simp [body, Body.size, NumberedItem.lines_cons]
  have hread : ∀ s, Site.read (env.nesting + 1) site body s
      = (NumberedItem.blocks form 1 (NumberedItem.runs items)).forM
        (site.block ⟨Site.readWithin (Site.read env.nesting) (depth + 1), Site.read env.nesting⟩) s := by
    intro s
    rw [← NumberedItem.blocks_lines h (body.manner true env.conventions.width) 1, ← hdepth]
    rfl
  have hheard : heard = if site.source = "" then d.reporter.source else site.source := rfl
  constructor
  · intro hhalt
    obtain ⟨g, r, ns, hblocks, htold, hhung⟩ := site.runs_hung (Site.read env.nesting) depth hruns
      Nat.zero_lt_one (s := { doc := d }) hheard hhalt hd hroot
    obtain ⟨hparse, hshape⟩ := parse_hung rfl rfl hlines ((hread _).trans hblocks) hhung
    exact ⟨g, r, hparse, htold, hshape⟩
  · intro hhalt x hx
    obtain ⟨t, hblocks⟩ := site.runs_halt (Site.read env.nesting) depth hruns
      Nat.zero_lt_one (s := { doc := d }) hheard hhalt hd hroot hx
    rw [parse_eq, parseText_of_some env hlines, (hread _).trans hblocks]
    rfl

/-- A run that starts with 1, a repeat, a gap, a descent and the greatest
    number that there is. -/
theorem Document.parse_numberedItems_runs :
    let items : List NumberedItem := [⟨1, ['a']⟩, ⟨2, ['B', 'c']⟩, ⟨2, ['d']⟩, ⟨4, ['e']⟩, ⟨5, ['f']⟩,
      ⟨0, ['g']⟩, ⟨1, ['h']⟩, ⟨9223372036854775807, ['i']⟩, ⟨0, ['j']⟩]
    let d : Document := { new "d.rst" {} with reporter := (new "d.rst" {}).reporter }
    let text := Line.joinLines (NumberedItem.lines .parens items) ++ ['\n']
    let said := NumberedItem.notes .parens "d.rst" 1 (NumberedItem.runs items)
    items ≠ [] ∧ (∀ j ∈ items, j.Fits) ∧ (['\n'] = [] ∨ ['\n'] = ['\n']) ∧
      (NumberedItem.runs items).map (·.map (·.ordinal))
        = [[1, 2], [2], [4, 5], [0, 1], [9223372036854775807], [0]] ∧
      said.map (·.line) = [5, 7, 11, 15, 17] ∧
      ∃ g r, d.parse Site.standardTop.env text = (.ok (), { d with forest := g, reporter := r }) ∧
        Reporter.Told said d.reporter r ∧
        g.shape d.root = .node { kind := .document, source := "d.rst" }
          (NumberedItem.trees .parens "d.rst" "d.rst" 1 (NumberedItem.runs items)) := by
  intro items d text said
  have hne : items ≠ [] := List.cons_ne_nil _ _
  have h : ∀ j ∈ items, j.Fits := by
    have hall : ∀ j ∈ items, j.word.isLettered = true ∧ Text.fitsWord j.ordinal = true := by decide
    exact fun j hj => ⟨(hall j hj).1, (hall j hj).2⟩
  refine ⟨hne, h, .inr rfl, by decide, by decide, ?_⟩
  exact (parse_numberedItems hne h .parens (.inr rfl) Site.standardTop.env "d.rst" {} d.reporter).1
    fun hhalt => absurd hhalt (by decide)

end MarkupLint
