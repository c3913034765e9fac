import MarkupLint.Proofs.Hanging
import MarkupLint.Proofs.Inclusion
import MarkupLint.Proofs.Rendering

/-! # Nested lists are reproduced

    Labelled items are rendered with a line for each, two columns further in
    for those inside an item, and a blank line before and after these
    (`Items.lines`).  Without the blank lines that it ends with, such a text
    is its core (`Items.lines_eq`); an item takes the lines up to the next one
    beside it, and without their indentation these are its label and the
    core of the items inside it (`Items.collect_core`).

    So reading the text of labelled items gives their tree
    (`Document.parse_items`).  What an item has inside it is read in a body
    of its own, one level deeper, and hung under the item before the item
    goes to its list; so the list is complete when its last item is
    (`Site.hangsItems`). -/

namespace MarkupLint

/-- Items beside one another: none, or the first of them, with its label and
    the items inside it, and then those after it. -/
inductive Items where
  | none
  | cons (label : Line) (inner after : Items)
  deriving DecidableEq, Repr

namespace Items

/-- The labels, in order. -/
def labels : Items → List Line
  | none => []
  | cons label inner after => label :: (inner.labels ++ after.labels)

/-- How many items are inside one another. -/
def depth : Items → Nat
  | none => 0
  | cons _ inner after => max (inner.depth + 1) after.depth

/-! ## Rendering -/

/-- The line of an item that stands so many columns in. -/
def itemLine (margin : Nat) (label : Line) : Line :=
  List.replicate margin ' ' ++ '-' :: ' ' :: label

/-- Lines with a blank one before and after them, if there are any. -/
def spaced (ls : List Line) : List Line := if ls.isEmpty then [] else [] :: (ls ++ [[]])

def lines (margin : Nat) : Items → List Line
  | none => []
  | cons label inner after =>
    itemLine margin label :: (spaced (inner.lines (margin + 2)) ++ after.lines margin)

/-- The text: every line ends with a line feed. -/
def text (items : Items) : List Char := (items.lines 0).flatMap (· ++ ['\n'])

end Items

/-! ## Labels -/

namespace Line

/-- A word of letters. -/
def isLettered (l : Line) : Bool := !l.isEmpty && l.all Char.isAlpha

variable {l : Line}

/-- A label starts with a letter. -/
theorem start_of_isLettered (h : l.isLettered = true) :
    ∃ c more, l = c :: more ∧ c.isAlpha = true := by
  cases l with
  | nil => cases h
  | cons c more => exact ⟨c, more, rfl, (Bool.and_eq_true_iff.mp (Bool.and_eq_true_iff.mp h).2).1⟩

theorem isAlpha_of_isLettered (h : l.isLettered = true) : ∀ c ∈ l, c.isAlpha = true :=
  List.all_eq_true.mp (Bool.and_eq_true_iff.mp h).2

/-- So it is not blank. -/
theorem not_isBlank_of_isLettered (h : l.isLettered = true) : Text.isBlank l = false := by
  obtain ⟨c, more, rfl, hc⟩ := start_of_isLettered h
  rw [Text.isBlank, List.all_cons, isBlankChar_of_isAlpha hc, Bool.false_and]

/-- No letter is a mark of inline markup. -/
theorem plain_of_isLettered (h : l.isLettered = true) : ∀ c ∈ l, Inline.isPlain c = true :=
  fun c hc => isPlain_of_isAlpha (isAlpha_of_isLettered h c hc)

/-- Nor does a label end in anything but a letter. -/
theorem getLast?_of_isLettered (h : l.isLettered = true) {x : Char} (hx : x.isAlpha = false) :
    l.getLast? ≠ some x := fun hlast =>
  ne_of_isAlpha (isAlpha_of_isLettered h x (List.mem_of_getLast? hlast)) hx rfl

/-- A label before a blank line or the end of the text is a paragraph. -/
theorem block_of_isLettered (h : l.isLettered = true) {rest : List Line}
    (hrest : ∀ x ∈ rest.head?, Text.isBlank x = true) (how : Reader.Manner) (n : Nat) :
    Reader.block how n l rest = ([.paragraph n l none], 0) := by
  obtain ⟨c, more, rfl, hc⟩ := start_of_isLettered h
  have hparagraph : Reader.IsParagraph (c :: more) [] :=
    { starts := startsText_of_isAlpha hc more
      goOn := List.forall_mem_nil _
      untitled := by simp }
  have hcolon : (joinLines [c :: more]).getLast? ≠ some ':' := by
    rw [joinLines, List.intercalate_singleton]
    exact getLast?_of_isLettered h (by decide)
  have hblock := Reader.block_of_isParagraph hparagraph hcolon hrest how n
  rwa [joinLines, List.intercalate_singleton] at hblock

end Line

namespace Items

/-- Items whose labels are words of letters. -/
def Lettered (items : Items) : Prop := ∀ l ∈ items.labels, l.isLettered = true

variable {label : Line} {inner after items : Items}

/-- What holds of all labels holds of the first, of those below it and of those
    after it. -/
theorem Lettered.uncons (h : (cons label inner after).Lettered) :
    label.isLettered = true ∧ inner.Lettered ∧ after.Lettered := by
  obtain ⟨hlabel, hbelow⟩ := List.forall_mem_cons.mp h
  obtain ⟨hinner, hafter⟩ := List.forall_mem_append.mp hbelow
  exact ⟨hlabel, hinner, hafter⟩

/-! ## The lines of the text -/

theorem mem_spaced {ls : List Line} {l : Line} (h : l ∈ spaced ls) : l = [] ∨ l ∈ ls := by
  unfold spaced at h
  split at h
  · cases h
  · simpa [or_comm, or_left_comm] using h

/-- The line of an item stands in the text as it is. -/
theorem tidy_itemLine (h : label.isLettered = true) (margin : Nat) :
    Line.Tidy (itemLine margin label) where
  printable c hc := by
    rcases List.mem_append.mp hc with hc | hc
    · rw [List.eq_of_mem_replicate hc]
      decide
    · simp only [List.mem_cons] at hc
      rcases hc with rfl | rfl | hc
      · decide
      · decide
      · exact Line.printable_of_isAlpha (Line.isAlpha_of_isLettered h c hc)
  stop := by
    have hne : label ≠ [] := by
      rintro rfl
      cases h
    have hparts : itemLine margin label = (List.replicate margin ' ' ++ ['-', ' ']) ++ label := by
      simp [itemLine]
    rw [hparts, List.getLast?_append_of_ne_nil _ hne]
    exact Line.getLast?_of_isLettered h (by decide)

/-- So do all lines. -/
theorem Lettered.tidy (h : items.Lettered) (margin : Nat) :
    ∀ l ∈ items.lines margin, Line.Tidy l := by
  induction items generalizing margin with
  | none => exact List.forall_mem_nil _
  | cons label inner after ihInner ihAfter =>
    obtain ⟨hlabel, hinner, hafter⟩ := h.uncons
    refine List.forall_mem_cons.mpr ⟨tidy_itemLine hlabel margin,
      List.forall_mem_append.mpr ⟨fun l hl => ?_, ihAfter hafter margin⟩⟩
    rcases mem_spaced hl with rfl | hl
    · exact ⟨List.forall_mem_nil _, nofun⟩
    · exact ihInner hinner (margin + 2) l hl

/-- The lines of the text are those that were rendered. -/
theorem Lettered.splitLines?_text (h : items.Lettered) (width : Int) :
    splitLines? width items.text = some (items.lines 0) :=
  splitLines?_of_tidy (h.tidy 0) width

/-! ## The core of the lines -/

/-- Lines with a blank one before them, if there are any. -/
def opened (ls : List Line) : List Line := if ls.isEmpty then [] else [] :: ls

/-- The lines without the blank ones at the end. -/
def core (margin : Nat) : Items → List Line
  | none => []
  | cons label inner after =>
    itemLine margin label ::
      if after = none then opened (inner.core (margin + 2))
      else spaced (inner.lines (margin + 2)) ++ after.core margin

/-- Where there are items there are lines. -/
theorem core_ne_nil (h : items ≠ none) (margin : Nat) : items.core margin ≠ [] := by
  cases items with
  | none => exact absurd rfl h
  | cons label inner after => exact List.cons_ne_nil _ _

theorem opened_of_ne_nil {ls : List Line} (h : ls ≠ []) : opened ls = [] :: ls := by
  rw [opened, if_neg (by simpa using h)]

theorem spaced_of_ne_nil {ls : List Line} (h : ls ≠ []) : spaced ls = [] :: (ls ++ [[]]) := by
  rw [spaced, if_neg (by simpa using h)]

theorem mem_opened {ls : List Line} {l : Line} (h : l ∈ opened ls) : l = [] ∨ l ∈ ls := by
  unfold opened at h
  split at h
  · cases h
  · exact List.mem_cons.mp h

/-- Blank lines at the end of an inner list stay at the end. -/
theorem exists_spaced_eq {ls short : List Line} {k : Nat} (h : ls = short ++ List.replicate k [])
    (hnone : short = [] → ls = []) :
    ∃ j, spaced ls = opened short ++ List.replicate j [] := by
  by_cases hshort : short = []
  · exact ⟨0, by rw [hnone hshort, hshort]; rfl⟩
  · have hls : ls ≠ [] := by simp [h, hshort]
    refine ⟨k + 1, ?_⟩
    rw [spaced_of_ne_nil hls, opened_of_ne_nil hshort, h, List.replicate_succ', List.append_assoc]
    rfl

theorem lines_of_core_eq_nil {margin : Nat} (h : items.core margin = []) :
    items.lines margin = [] := by
  cases items with
  | none => rfl
  | cons label inner after => cases h

/-- Only blank lines follow the core. -/
theorem lines_eq (items : Items) (margin : Nat) :
    ∃ k, items.lines margin = items.core margin ++ List.replicate k [] := by
  induction items generalizing margin with
  | none => exact ⟨0, rfl⟩
  | cons label inner after ihInner ihAfter =>
    by_cases hafter : after = none
    · subst hafter
      obtain ⟨k, hk⟩ := ihInner (margin + 2)
      obtain ⟨j, hj⟩ := exists_spaced_eq hk lines_of_core_eq_nil
      exact ⟨j, by rw [lines, core, if_pos rfl, hj, lines, List.append_nil, List.cons_append]⟩
    · obtain ⟨k, hk⟩ := ihAfter margin
      exact ⟨k, by rw [lines, core, if_neg hafter, hk, List.cons_append, List.append_assoc]⟩

/-- So the lines of an inner list are its core and some blank ones. -/
theorem spaced_lines_eq (items : Items) (margin : Nat) :
    ∃ k, spaced (items.lines margin) = opened (items.core margin) ++ List.replicate k [] := by
  obtain ⟨k, hk⟩ := items.lines_eq margin
  exact exists_spaced_eq hk lines_of_core_eq_nil

/-- An item's line has its mark. -/
theorem not_isBlank_itemLine (margin : Nat) (label : Line) :
    Text.isBlank (itemLine margin label) = false := by
  refine List.all_eq_false.mpr ⟨'-', List.mem_append_right _ List.mem_cons_self, by decide⟩

/-- The core ends with an item. -/
theorem not_isBlank_getLast?_core (items : Items) (margin : Nat) :
    ∀ l ∈ (items.core margin).getLast?, Text.isBlank l = false := by
  induction items generalizing margin with
  | none => exact fun _ h => nomatch h
  | cons label inner after ihInner ihAfter =>
    rw [core]
    split
    · by_cases hinner : inner = none
      · subst hinner
        intro l hl
        obtain rfl := Option.some.inj hl
        exact not_isBlank_itemLine margin label
      · have hcore := core_ne_nil hinner (margin + 2)
        rw [opened_of_ne_nil hcore, List.getLast?_cons_of_ne_nil (List.cons_ne_nil _ _),
          List.getLast?_cons_of_ne_nil hcore]
        exact ihInner (margin + 2)
    · rename_i hafter
      have hcore := core_ne_nil hafter margin
      rw [List.getLast?_cons_of_ne_nil (by simp [hcore]), List.getLast?_append_of_ne_nil _ hcore]
      exact ihAfter margin

/-! ## Indentation -/

theorem drop_itemLine (margin : Nat) (label : Line) :
    (itemLine (margin + 2) label).drop 2 = itemLine margin label := rfl

theorem map_spaced {f : Line → Line} (hf : f [] = []) (ls : List Line) :
    (spaced ls).map f = spaced (ls.map f) := by
  cases ls with
  | nil => rfl
  | cons l ls => simp [spaced, hf]

theorem map_opened {f : Line → Line} (hf : f [] = []) (ls : List Line) :
    (opened ls).map f = opened (ls.map f) := by
  cases ls with
  | nil => rfl
  | cons l ls => simp [opened, hf]

/-- A margin that is cut off is one less. -/
theorem map_drop_lines (items : Items) (margin : Nat) :
    (items.lines (margin + 2)).map (·.drop 2) = items.lines margin := by
  induction items generalizing margin with
  | none => rfl
  | cons label inner after ihInner ihAfter =>
    rw [lines, lines, List.map_cons, List.map_append, map_spaced rfl, ihInner, ihAfter, drop_itemLine]

/-- Of the core as well. -/
theorem map_drop_core (items : Items) (margin : Nat) :
    (items.core (margin + 2)).map (·.drop 2) = items.core margin := by
  induction items generalizing margin with
  | none => rfl
  | cons label inner after ihInner ihAfter =>
    rw [core, core, List.map_cons, drop_itemLine]
    split
    · rw [map_opened rfl, ihInner]
    · rw [List.map_append, map_spaced rfl, map_drop_lines, ihAfter]

/-- The margin is the indentation. -/
theorem indent_itemLine (margin : Nat) (label : Line) :
    Line.indent (itemLine margin label) = margin := by
  have hmark : ∀ c ∈ ('-' :: ' ' :: label).head?, (c == ' ') = false := fun c hc =>
    Option.some.inj hc ▸ rfl
  rw [Line.indent, itemLine, Extract.takeWhile_append_of_head hmark]
  simp

/-- Lines further in go on with an item. -/
theorem inKnown_of_mem_lines {margin k : Nat} (hk : k ≤ margin) {l : Line}
    (h : l ∈ items.lines margin) : Extract.inKnown k l = true := by
  induction items generalizing margin with
  | none => cases h
  | cons label inner after ihInner ihAfter =>
    rcases List.mem_cons.mp h with rfl | h
    · rw [Extract.inKnown, indent_itemLine, decide_eq_true hk, Bool.or_true]
    · rcases List.mem_append.mp h with h | h
      · rcases mem_spaced h with rfl | h
        · rfl
        · exact ihInner (Nat.le_add_right_of_le hk) h
      · exact ihAfter hk h

/-- The next item is not indented, so it ends the one before. -/
theorem not_inKnown_itemLine (label : Line) : Extract.inKnown 2 (itemLine 0 label) = false := by
  rw [Extract.inKnown, not_isBlank_itemLine, indent_itemLine]
  rfl

/-- All lines of an inner list are indented far enough or blank. -/
theorem inKnown_of_mem_core {margin k : Nat} (hk : k ≤ margin) {l : Line}
    (h : l ∈ items.core margin) : Extract.inKnown k l = true := by
  obtain ⟨j, hj⟩ := items.lines_eq margin
  exact inKnown_of_mem_lines hk (hj ▸ List.mem_append_left _ h)

end Items

/-! ## Reading items -/

/-- Blank lines at the end are cut off. -/
theorem Extract.trimEnd_append_replicate {ls : List Line}
    (hstop : ∀ l ∈ ls.getLast?, Text.isBlank l = false) (k : Nat) :
    trimEnd (ls ++ List.replicate k []) = ls := by
  have hblanks : ∀ l ∈ List.replicate k ([] : Line), Text.isBlank l = true := fun l hl =>
    List.eq_of_mem_replicate hl ▸ rfl
  have hstart : ls.reverse.dropWhile Text.isBlank = ls.reverse := by
    rw [← List.head?_reverse] at hstop
    cases hreverse : ls.reverse with
    | nil => rfl
    | cons l rest =>
      rw [hreverse] at hstop
      exact List.dropWhile_cons_of_neg (by simp [hstop l rfl])
  rw [trimEnd, List.reverse_append, List.reverse_replicate, List.dropWhile_append_of_pos hblanks,
    hstart, List.reverse_reverse]

/-- What is known to be indented ends where a line is not. -/
theorem Extract.known_append {k : Nat} {taken rest : List Line} (first : Line)
    (htaken : ∀ l ∈ taken, inKnown k l = true) (hrest : ∀ l ∈ rest.head?, inKnown k l = false) :
    known k first (taken ++ rest)
      = finish first taken rest ((first :: taken).map (·.drop k)) := by
  have hrun : (taken ++ rest).takeWhile (inKnown k) = taken := by
    rw [takeWhile_append_of_head hrest, List.takeWhile_eq_self_iff.mpr htaken]
  rw [known, hrun, List.drop_left]

namespace Reader

/-- What a bullet list reads item by item. -/
def bulletItem (bullet : Char) (_ : Unit) (n : Nat) (l : Line) (rest : List Line) :
    Option (ListItem × Unit × Extract) :=
  match Pattern.bullet? l with
  | some (b, width) =>
    if b = bullet then
      let (item, e) := listItem width n l rest
      some (item, (), e)
    else none
  | none => none

/-- The list is what its items are collected to. -/
theorem bulletList_eq (bullet : Char) (n : Nat) (ls : List Line) :
    bulletList bullet n ls = listReading "Bullet list" n (.bulletList n)
      (collect (bulletItem bullet) () n ls) := rfl

end Reader

namespace Items

variable {label : Line} {inner after items : Items}

/-- An item's line starts with a hyphen and a blank. -/
theorem bullet?_itemLine (h : label.isLettered = true) :
    Pattern.bullet? (itemLine 0 label) = some ('-', 2) := by
  obtain ⟨c, more, rfl, hc⟩ := Line.start_of_isLettered h
  have hindent : Line.indent (' ' :: c :: more) = 1 := by
    simp [Line.indent, Line.ne_of_isAlpha hc (x := ' ') (by decide)]
  simp [itemLine, Pattern.bullet?, Pattern.gap?, hindent]

/-- The items as they are read from lines of which the first has number
    `n`. -/
def listItems (n : Nat) : Items → List ListItem
  | none => []
  | cons label inner after =>
    ⟨n, ⟨n - 1, label :: opened (inner.core 0)⟩⟩ ::
      after.listItems (n + 1 + (spaced (inner.lines 0)).length)

/-- Where there are items some are read. -/
theorem listItems_ne_nil (h : items ≠ none) (n : Nat) : items.listItems n ≠ [] := by
  cases items with
  | none => exact absurd rfl h
  | cons label inner after => exact List.cons_ne_nil _ _

/-- An item has its label and the core of the items inside it. -/
theorem bulletItem_itemLine (hlabel : label.isLettered = true) {k : Nat} {taken rest : List Line}
    (htaken : ∀ l ∈ taken, Extract.inKnown 2 l = true)
    (hrest : ∀ l ∈ rest.head?, Extract.inKnown 2 l = false)
    (hinner : taken.map (·.drop 2) = opened (inner.core 0) ++ List.replicate k []) (n : Nat) :
    Reader.bulletItem '-' () n (itemLine 0 label) (taken ++ rest) =
      some (⟨n, ⟨n - 1, label :: opened (inner.core 0)⟩⟩, (),
        { lines := label :: opened (inner.core 0)
          extra := taken.length
          blankFinish := rest.isEmpty || Text.isBlank (taken.getLastD (itemLine 0 label)) }) := by
  have hdrop : (itemLine 0 label).drop 2 = label := rfl
  have hstop : ∀ l ∈ (label :: opened (inner.core 0)).getLast?, Text.isBlank l = false := by
    by_cases hnone : inner = none
    · subst hnone
      exact fun l hl => Option.some.inj hl ▸ Line.not_isBlank_of_isLettered hlabel
    · have hcore := core_ne_nil hnone 0
      rw [opened_of_ne_nil hcore, List.getLast?_cons_of_ne_nil (List.cons_ne_nil _ _),
        List.getLast?_cons_of_ne_nil hcore]
      exact inner.not_isBlank_getLast?_core 0
  have hlines : Extract.trimEnd ((itemLine 0 label :: taken).map (·.drop 2))
      = label :: opened (inner.core 0) := by
    rw [List.map_cons, hdrop, hinner, ← List.cons_append, Extract.trimEnd_append_replicate hstop]
  have hblank : Text.isBlank ((itemLine 0 label).drop 2) = false :=
    Line.not_isBlank_of_isLettered hlabel
  simp only [Reader.bulletItem, bullet?_itemLine hlabel, if_true, Reader.listItem, hblank,
    Bool.false_eq_true, if_false, Extract.known_append (itemLine 0 label) htaken hrest,
    Extract.finish, hlines]

/-- By the items: one takes the lines up to the next one beside it, and the
    last one takes all that is left. -/
theorem Lettered.collect_core (h : items.Lettered) (hne : items ≠ none) (n k : Nat) :
    Reader.collect (Reader.bulletItem '-') () n (items.core 0 ++ List.replicate k [])
      = (items.listItems n, (items.core 0 ++ List.replicate k []).length, true) := by
  induction items generalizing n with
  | none => exact absurd rfl hne
  | cons label inner after _ ihAfter =>
    obtain ⟨hlabel, -, hafter⟩ := h.uncons
    by_cases hlast : after = none
    · subst hlast
      have htaken : ∀ l ∈ opened (inner.core 2) ++ List.replicate k [],
          Extract.inKnown 2 l = true := by
        refine List.forall_mem_append.mpr ⟨fun l hl => ?_, fun l hl => List.eq_of_mem_replicate hl ▸ rfl⟩
        exact (mem_opened hl).elim (fun heq => heq ▸ rfl) (inKnown_of_mem_core (Nat.le_refl 2))
      have hinner : (opened (inner.core 2) ++ List.replicate k []).map (List.drop 2)
          = opened (inner.core 0) ++ List.replicate k [] := by
        rw [List.map_append, map_opened rfl, map_drop_core, List.map_replicate]
        rfl
      have hrest : ∀ l ∈ ([] : List Line).head?, Extract.inKnown 2 l = false := fun _ h => nomatch h
      have hitem := bulletItem_itemLine hlabel htaken hrest hinner n
      rw [List.append_nil] at hitem
      rw [core, if_pos rfl, List.cons_append, Reader.collect_of_some hitem, List.drop_length,
        Reader.collect_nil]
      simp [listItems]
      omega
    · have htaken : ∀ l ∈ spaced (inner.lines 2), Extract.inKnown 2 l = true := fun l hl =>
        (mem_spaced hl).elim (fun heq => heq ▸ rfl) (inKnown_of_mem_lines (Nat.le_refl 2))
      have hrest : ∀ l ∈ (after.core 0 ++ List.replicate k []).head?, Extract.inKnown 2 l = false := by
        cases after with
        | none => exact absurd rfl hlast
        | cons label _ _ => exact fun l hl => Option.some.inj hl ▸ not_inKnown_itemLine label
      obtain ⟨j, hj⟩ := inner.spaced_lines_eq 0
      have hinner : (spaced (inner.lines 2)).map (·.drop 2)
          = opened (inner.core 0) ++ List.replicate j [] := by
        rw [map_spaced rfl, map_drop_lines, hj]
      have hitem := bulletItem_itemLine hlabel htaken hrest hinner n
      have hlength : (spaced (inner.lines 2)).length = (spaced (inner.lines 0)).length := by
        rw [← map_drop_lines inner 0, ← map_spaced rfl, List.length_map]
      rw [core, if_neg hlast, List.cons_append, List.append_assoc, Reader.collect_of_some hitem,
        List.drop_left, ihAfter hafter hlast]
      simp [listItems, hlength, listItems_ne_nil hlast]
      omega

/-- The core of some items is read as one list. -/
theorem Lettered.blocks_core (h : items.Lettered) (hne : items ≠ none) (how : Reader.Manner)
    (n k : Nat) :
    Reader.blocks how n (items.core 0 ++ List.replicate k []) = [.bulletList n (items.listItems n)] := by
  have hcollect := h.collect_core hne n k
  cases items with
  | none => exact absurd rfl hne
  | cons label inner after =>
    obtain ⟨hlabel, -, -⟩ := h.uncons
    obtain ⟨rest, hrest⟩ : ∃ rest, (cons label inner after).core 0 ++ List.replicate k []
        = itemLine 0 label :: rest := ⟨_, rfl⟩
    rw [hrest] at hcollect ⊢
    have hindented : Line.isIndented (itemLine 0 label) = false := by
      rw [Line.isIndented, indent_itemLine]
      rfl
    have hblock : Reader.block how n (itemLine 0 label) rest
        = ([.bulletList n ((cons label inner after).listItems n)], rest.length) := by
      simp only [Reader.block, not_isBlank_itemLine, hindented, bullet?_itemLine hlabel,
        Bool.false_eq_true, if_false]
      rw [Reader.bulletList_eq, Reader.listReading, hcollect]
      rfl
    rw [Reader.blocks_cons, hblock, List.drop_length, Reader.blocks]
    rfl

/-- What is inside an item: a paragraph with its label, and a list of the
    items inside it, if there are any. -/
theorem Lettered.blocks_item (hlabel : label.isLettered = true) (h : inner.Lettered)
    (how : Reader.Manner) (n : Nat) :
    Reader.blocks how n (label :: opened (inner.core 0)) = .paragraph n label Option.none ::
      if inner = none then [] else [.bulletList (n + 2) (inner.listItems (n + 2))] := by
  by_cases hinner : inner = none
  · subst hinner
    have hrest : ∀ x ∈ (opened (core 0 none)).head?, Text.isBlank x = true := fun x hx => nomatch hx
    rw [Reader.blocks_cons, Line.block_of_isLettered hlabel hrest, if_pos rfl, List.drop_zero, opened]
    exact congrArg _ (Reader.blocks.eq_1 _ _)
  · have hblocks := h.blocks_core hinner how (n + 2) 0
    rw [List.replicate_zero, List.append_nil] at hblocks
    have hrest : ∀ x ∈ ([] :: inner.core 0).head?, Text.isBlank x = true := fun x hx =>
      Option.some.inj hx ▸ rfl
    rw [opened_of_ne_nil (core_ne_nil hinner 0), Reader.blocks_cons,
      Line.block_of_isLettered hlabel hrest, List.drop_zero, Reader.blocks_blank, if_neg hinner]
    exact congrArg _ hblocks

end Items

/-! ## Trees -/

namespace Items

/-- A list of items on line `n`, if there are any. -/
def listed (n : Nat) (ts : List Tree) : List Tree :=
  if ts.isEmpty then [] else [.node { kind := .bulletList, line := n } ts]

/-- The trees of items, the first of them on line `n`: a paragraph with the
    label, and a list of the items inside. -/
def trees (source : String) (n : Nat) : Items → List Tree
  | none => []
  | cons label inner after =>
    .node { kind := .listItem, line := n }
        (.node { kind := .paragraph, line := n, source := source } [.leaf label] ::
          listed (n + 2) (inner.trees source (n + 2))) ::
      after.trees source (n + 1 + (spaced (inner.lines 0)).length)

/-- The tree of a document with nothing but a list of the items. -/
def tree (items : Items) (source : String) : Tree :=
  .node { kind := .document, source := source } (listed 1 (items.trees source 1))

variable {items : Items}

/-- They stand in one list. -/
theorem listed_trees (h : items ≠ none) (source : String) (n : Nat) :
    listed n (items.trees source n) = [.node { kind := .bulletList, line := n } (items.trees source n)] := by
  cases items with
  | none => exact absurd rfl h
  | cons label inner after => rfl

/-- No more items are inside one another than there are lines. -/
theorem depth_le_length_lines (items : Items) (margin : Nat) :
    items.depth ≤ (items.lines margin).length := by
  induction items generalizing margin with
  | none => exact Nat.zero_le _
  | cons label inner after ihInner ihAfter =>
    have hinner : inner.depth ≤ (spaced (inner.lines (margin + 2))).length := by
      have hlines := ihInner (margin + 2)
      unfold spaced
      split
      · rename_i hempty
        rwa [List.isEmpty_iff.mp hempty] at hlines
      · simp only [List.length_cons, List.length_append]
        omega
    have hafter := ihAfter margin
    simp only [depth, lines, List.length_cons, List.length_append]
    omega

end Items

/-! ## Reading -/

namespace Site

open Items (listed)

variable {site : Site} {read : ReadBody} {s : ParseState} {items inner : Items} {label : Line}

/-- The items go to any list. -/
def HangsItems (site : Site) (read : ReadBody) (n : Nat) (items : Items) : Prop :=
  ∀ (s : ParseState) (list : NodeId), s.doc.forest.WellFormed → list < s.doc.forest.size →
    ∃ g ns, site.listItems read list (items.listItems n) s = .ok ⟨⟩ (s.withForest g) ∧
      s.doc.forest.Hung g list ns (items.trees site.source n)

/-- A list is hung up with its items. -/
theorem HangsItems.list {n : Nat} (h : site.HangsItems read n items) (hne : items ≠ .none)
    (hs : s.doc.forest.WellFormed) (hp : site.place s < s.doc.forest.size) :
    ∃ g ns, site.block read (.bulletList n (items.listItems n)) s = .ok ⟨⟩ (s.withForest g) ∧
      s.doc.forest.Hung g (site.place s) ns (listed n (items.trees site.source n)) := by
  obtain ⟨g, list, hopen, hlist⟩ := site.openList_hung { kind := .bulletList, line := n } hs hp
  obtain ⟨g', ns, hitems, hhung⟩ := h (s.withForest g) list hlist.wellFormed
    (hlist.lt_size List.mem_cons_self)
  refine ⟨g', [list], (Parse.bind_ok hopen _).trans hitems, ?_⟩
  rw [Items.listed_trees hne]
  exact hlist.within hhung

/-- What is inside an item is hung under it. -/
theorem HangsItems.item {n : Nat} (h : site.HangsItems read (n + 2) inner)
    (hlabel : label.isLettered = true) (hs : s.doc.forest.WellFormed)
    (hp : site.place s < s.doc.forest.size) :
    ∃ g ns, (Block.paragraph n label none ::
          if inner = .none then [] else [.bulletList (n + 2) (inner.listItems (n + 2))]).forM
            (site.block read) s = .ok ⟨⟩ (s.withForest g) ∧
      s.doc.forest.Hung g (site.place s) ns
        (.node { kind := .paragraph, line := n, source := site.source } [.leaf label] ::
          listed (n + 2) (inner.trees site.source (n + 2))) := by
  obtain ⟨c, more, hcons, -⟩ := Line.start_of_isLettered hlabel
  have hne : label ≠ [] := by simp [hcons]
  obtain ⟨g, made, hinline, hmade, hmessages, -⟩ := Parse.inlineParse_plain hne
    (Line.plain_of_isLettered hlabel) site n hs
  obtain ⟨g₁, i, hparagraph, hhung⟩ := paragraph_hung hne hinline hmade hmessages hs hp
  have hblock : site.block read (.paragraph n label none) s = .ok ⟨⟩ (s.withForest g₁) := hparagraph
  by_cases hinner : inner = .none
  · subst hinner
    exact ⟨g₁, [i], forM_cons hblock _, hhung⟩
  · obtain ⟨g₂, ns, hlist, hhung'⟩ := h.list hinner (s := s.withForest g₁) hhung.wellFormed
      (Nat.lt_of_lt_of_le hp hhung.size)
    rw [if_neg hinner]
    exact ⟨g₂, [i] ++ ns, (forM_cons hblock _).trans (forM_cons hlist _), hhung.trans hhung' hs⟩

/-- By the items: what is inside an item is read one level deeper, and the
    item goes to the list behind those before it. -/
theorem hangsItems (file : Site → Body → Parse Unit) {depth : Nat} (h : items.Lettered)
    (hdepth : items.depth ≤ depth) (site : Site) {n : Nat} (hn : 0 < n) :
    site.HangsItems ⟨readWithin file depth, file⟩ n items := by
  induction items generalizing depth site n with
  | none => exact fun s list hs hlist => ⟨s.doc.forest, [], rfl, .refl hs hlist⟩
  | cons label inner after ihInner ihAfter =>
    intro s list hs hlist
    obtain ⟨hlabel, hinner, hafter⟩ := h.uncons
    rw [Items.depth] at hdepth
    obtain ⟨deeper, rfl⟩ := Nat.exists_eq_add_one_of_ne_zero (n := depth) (by omega)
    have hinside : ∀ i, (site.within i).HangsItems ⟨readWithin file deeper, file⟩ (n + 2) inner :=
      fun i => ihInner hinner (by omega) _ (Nat.succ_pos (n + 1))
    have hbehind : site.HangsItems ⟨readWithin file (deeper + 1), file⟩
        (n + 1 + (Items.spaced (inner.lines 0)).length) after :=
      ihAfter hafter (by omega) site (by omega)
    refine listItems_cons (fun t i ht hi => ?_) (fun t => hbehind t list) hs hlist
    obtain ⟨g, ns, hbody, hhung⟩ := (hinside i).item hlabel ht hi
    have hread : readWithin file (deeper + 1) (site.within i)
        ⟨n - 1, label :: Items.opened (inner.core 0)⟩ t = .ok ⟨⟩ (t.withForest g) := by
      rw [readWithin, Site.blocks, Body.blocks, Nat.sub_add_cancel hn,
        Items.Lettered.blocks_item hlabel hinner]
      exact hbody
    exact ⟨g, ns, hread, hhung⟩

end Site

/-! ## The document -/

/-- **Nested lists are reproduced.**  Parsing the text of labelled items
    changes nothing in the document but its nodes, so no message is raised,
    whoever listens.  There is one bullet list: its items hold a paragraph
    with the label and, for those with items inside, one bullet list of these,
    in the same order and nested in the same way. -/
theorem Document.parse_items {items : Items} (h : items.Lettered) (hne : items ≠ .none)
    (env : Surroundings) (source : String) (settings : Settings) (reporter : Reporter) :
    let d : Document := { new source settings with reporter := reporter }
    ∃ g, d.parse env items.text = (.ok (), { d with forest := g }) ∧
      g.shape d.root = items.tree source := by
  intro d
  have hd : d.forest.WellFormed := wellFormed_new source settings
  have hroot : d.root < d.forest.size := Nat.zero_lt_one
  let site : Site := d.site env
  let body : Body := ⟨0, items.lines 0⟩
  let read : ReadBody :=
    ⟨Site.readWithin (Site.read env.nesting) body.size, Site.read env.nesting⟩
  have hdepth : items.depth ≤ body.size :=
    (items.depth_le_length_lines 0).trans (Nat.le_add_left _ _)
  obtain ⟨g, ns, hlist, hhung⟩ := (Site.hangsItems (Site.read env.nesting) h hdepth site
    (n := 1) Nat.zero_lt_one).list hne (s := { doc := d }) hd hroot
  obtain ⟨k, hk⟩ := items.lines_eq 0
  have hblocks : Site.read (env.nesting + 1) site body { doc := d }
      = .ok ⟨⟩ (ParseState.withForest { doc := d } g) := by
    show (Reader.blocks (body.manner true env.conventions.width) 1 (items.lines 0)).forM
      (site.block read) { doc := d } = _
    rw [hk, h.blocks_core hne]
    exact Site.forM_cons hlist _
  have hshows : g.Shows [d.root] [items.tree source] := by
    have hbare : (g.get d.root).bare = { kind := .document, source := source } :=
      hhung.bare d.root hroot
    have hkids : g.children d.root = ns := (hhung.children d.root hroot).trans (if_pos rfl)
    rw [Items.tree, ← hbare]
    exact .cons (hkids ▸ hhung.shows) .nil
  have hshape := hshows.eq_map_shape hhung.wellFormed
  rw [List.map_singleton, List.singleton_inj] at hshape
  refine ⟨g, ?_, hshape.symm⟩
  rw [parse_eq, parseText_of_some env (h.splitLines?_text d.tabWidth)]
  show ((outcome (Site.read (env.nesting + 1) site body { doc := d })).1,
    (outcome (Site.read (env.nesting + 1) site body { doc := d })).2.doc) = _
  rw [hblocks]
  rfl

/-- Items three levels deep, of which the last closes two lists. -/
theorem Document.parse_items_nested :
    let deepest : Items := .cons ['c'] .none (.cons ['D', 'd'] .none .none)
    let items : Items := .cons ['a'] (.cons ['b'] deepest .none) (.cons ['e'] .none
      (.cons ['f'] (.cons ['g'] deepest .none) .none))
    let d : Document := { new "d.rst" {} with reporter := (new "d.rst" {}).reporter }
    items.Lettered ∧ items ≠ .none ∧
      ∃ g, d.parse Site.standardTop.env items.text = (.ok (), { d with forest := g }) ∧
        g.shape d.root = items.tree "d.rst" := by
  intro deepest items d
  have hlettered : items.Lettered := by
    intro l hl
    revert l
    decide
  have hne : items ≠ .none := by decide
  exact ⟨hlettered, hne, parse_items hlettered hne Site.standardTop.env "d.rst" {} _⟩

end MarkupLint
