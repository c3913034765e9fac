import Mathlib.Data.List.TakeWhile
import MarkupLint.Body.Reader
import MarkupLint.Proofs.Placement

/-! # Readers place their blocks

    Every reader is taken on the lines from the first line of its construct
    on: the blocks it gives are placed there.  Lists go through `collect`,
    so what one item gives is carried over the items once, and the loop over
    a body moves what holds behind a construct up to the body. -/

namespace MarkupLint

/-- The line that an extract stops at, under its number. -/
theorem Extract.Stops.shows {e : Extract} {o : Nat} {l : Line} {rest : List Line}
    (h : e.Stops rest) (hfinish : e.blankFinish = false) :
    (⟨o, l :: rest⟩ : Body).Shows (o + 1 + 1 + e.extra) fun l => Text.isBlank l = false := by
  obtain ⟨x, hx, hblank⟩ := h hfinish
  refine ⟨x, ?_, hblank⟩
  have hget : (l :: rest)[e.extra + 1]? = some x := by simpa using hx
  rw [show o + 1 + 1 + e.extra = o + 1 + (e.extra + 1) by omega]
  exact Body.line?_of_getElem? hget

namespace Reader

/-- The complaint about an unindented line is placed on the line after the
    construct, if a construct that did not end well has one. -/
theorem unindentUnless_placed {finished : Bool} {what : String} {b : Body} {n : Nat}
    (h : finished = false → b.Shows n fun l => Text.isBlank l = false) :
    ∀ block ∈ unindentUnless finished what n, block.Placed b := by
  intro block hmem
  cases finished with
  | true => cases hmem
  | false =>
    obtain ⟨l, hl, hblank⟩ := h rfl
    obtain rfl := List.mem_singleton.mp hmem
    exact ⟨l, hl, by simp [unindentProblem, hblank], by simp [unindentProblem]⟩

section Literal

variable {o : Nat} {l : Line} {rest : List Line}

/-- An indented literal block and the warning behind it. -/
theorem indentedLiteral_placed (hblank : Text.isBlank l = false) :
    ∀ block ∈ Block.literal (o + 1) (Line.joinLines (Extract.indented l rest).lines)
      :: unindentUnless (Extract.indented l rest).blankFinish "Literal block"
        (o + 1 + 1 + (Extract.indented l rest).extra),
      block.Placed ⟨o, l :: rest⟩ := by
  refine List.forall_mem_cons.mpr ⟨⟨⟨l, by simp, hblank⟩, _, rfl, ?_⟩, ?_⟩
  · exact .of_pared (Extract.indented_pared l rest)
  · exact unindentUnless_placed (Extract.indented_stops l rest).shows

/-- A quoted literal block, and the error at the line whose quoting differs. -/
theorem quotedLiteral_placed (hblank : Text.isBlank l = false) {block quoted : List Line}
    (hlines : block = (l :: rest).takeWhile (!Text.isBlank ·))
    (hquoted : quoted = block.takeWhile fun x => x.head? = l.head?) :
    ∀ found ∈ (if quoted.length < block.length then
        [Block.problem ⟨.error, o + 1 + quoted.length, "Inconsistent literal block quoting.", none⟩]
      else []) ++ [Block.literal (o + 1) (Line.joinLines quoted)],
      found.Placed ⟨o, l :: rest⟩ := by
  have hstart : block <+: l :: rest := hlines ▸ List.takeWhile_prefix _
  intro found hmem
  rcases List.mem_append.mp hmem with hmem | hmem
  · split at hmem
    · rename_i hlt
      obtain rfl := List.mem_singleton.mp hmem
      -- The first line of the block that is not quoted is not blank.
      have hall : ∀ x ∈ block, Text.isBlank x = false := by
        intro x hx
        rw [hlines] at hx
        simpa using List.mem_takeWhile_imp hx
      exact (Body.shows_of_isStart hstart hall hlt).imp fun x hx => ⟨by simp [hx], by simp⟩
    · cases hmem
  · obtain rfl := List.mem_singleton.mp hmem
    refine ⟨⟨l, by simp, hblank⟩, quoted, rfl, .of_pared (.of_start ?_)⟩
    exact (hquoted ▸ List.takeWhile_prefix _).trans hstart

/-- What follows an announcement is placed in the body of the announcement,
    `k` lines of which precede it. -/
theorem literalAfter_placed {b : Body} {k : Nat} (hk : k ≤ b.lines.length)
    (hprev : b.Shows (b.offset + k) fun l => Text.isBlank l = false) :
    ∀ block ∈ (literalAfter (b.offset + k + 1) (b.lines.drop k)).1, block.Placed b := by
  -- A missing literal block is reported on the next line, or the last if there is none.
  have hmissing : Problem.Placed b ⟨.warning,
      if (b.lines.drop k).isEmpty then b.offset + k + 1 - 1 else b.offset + k + 1,
      "Literal block expected; none found.", none⟩ := by
    cases hls : b.lines.drop k with
    | nil => exact Body.Shows.imp hprev (by simp)
    | cons l rest =>
      have hrest : (b.drop k).Shows (b.offset + k + 1) fun _ => True := by
        simp only [Body.drop, hls]
        exact ⟨l, by simp, trivial⟩
      exact hrest.of_drop.imp (by simp)
  simp only [literalAfter]
  generalize hblanks : ((b.lines.drop k).takeWhile Text.isBlank).length = blanks
  cases hafter : (b.lines.drop k).drop blanks with
  | nil => exact List.forall_mem_singleton.mpr hmissing
  | cons l rest =>
    have hdrop : (b.drop k).drop blanks = ⟨b.offset + k + blanks, l :: rest⟩ := by
      simp [Body.drop, hafter]
    have hle : blanks ≤ (b.drop k).lines.length := by
      rw [← hblanks]
      exact (List.takeWhile_prefix _).length_le
    have hlift : ∀ found : Block, found.Placed ⟨b.offset + k + blanks, l :: rest⟩ →
        found.Placed b := by
      intro found h
      rw [← hdrop] at h
      exact (h.of_drop hle).of_drop hk
    have hblank : Text.isBlank l = false := by
      have hd := List.head?_dropWhile_not Text.isBlank (b.lines.drop k)
      rw [← Extract.drop_takeWhile_length, hblanks, hafter] at hd
      simpa using hd
    have hnumber : b.offset + k + 1 + blanks = b.offset + k + blanks + 1 := by omega
    rw [hnumber]
    dsimp only
    split
    · exact fun found hmem => hlift found (indentedLiteral_placed hblank found hmem)
    · split
      · exact fun found hmem => hlift found (quotedLiteral_placed hblank rfl rfl found hmem)
      · exact List.forall_mem_singleton.mpr hmissing

end Literal

/-- What announces a literal block is the start of the text itself. -/
theorem announcement_isStart (text : List Char) : (announcement text).1 <+: text := by
  unfold announcement
  split
  · rename_i before hrev
    have htext : text = before.reverse ++ [':', ':'] := by
      rw [← List.reverse_reverse text, hrev]
      simp
    split
    · exact List.nil_prefix
    · split
      · split
        · refine (Text.dropRightWhile_isStart _ _).trans ?_
          exact ⟨[':', ':'], htext.symm⟩
        · refine ⟨[':'], ?_⟩
          rw [htext]
          simp
      · exact List.nil_prefix
  · exact List.prefix_rfl

section Constructs

variable {o : Nat} {l : Line} {rest : List Line}

/-- Text taken from the first line on. -/
theorem joinLines_textFrom {taken : List Line} (h : taken <+: rest) :
    Line.joinLines (l :: taken) <+: (⟨o, l :: rest⟩ : Body).textFrom (o + 1) := by
  simp only [Body.textFrom, Nat.add_sub_cancel_left, Nat.sub_self, List.drop_zero]
  exact Line.joinLines_start (List.cons_prefix_cons.mpr ⟨rfl, h⟩)

/-- A paragraph ends at a blank line, at the end of the text or at an indented line,
    which is where it says it was cut off. -/
theorem paragraph_block_placed {more : List Line} (hblank : Text.isBlank l = false)
    (hmore : rest.takeWhile (fun (x : Line) => !Text.isBlank x && !x.isIndented) = more) :
    Block.Placed ⟨o, l :: rest⟩ (.paragraph (o + 1)
      (announcement (Line.joinLines (l :: more))).1
      (match rest.drop more.length with
        | x :: _ => if Text.isBlank x then none else some (o + 1 + 1 + more.length)
        | [] => none)) := by
  have hstart : more <+: rest := hmore ▸ List.takeWhile_prefix _
  refine ⟨⟨l, by simp, hblank⟩,
    (announcement_isStart _).trans (joinLines_textFrom hstart), ?_⟩
  intro n hn
  cases hafter : rest.drop more.length with
  | nil => simp [hafter] at hn
  | cons x after =>
    obtain ⟨hx, rfl⟩ : Text.isBlank x = false ∧ o + 1 + 1 + more.length = n := by
      simpa [hafter] using hn
    refine ⟨x, ?_, hx, ?_⟩
    · rw [show o + 1 + 1 + more.length = o + 1 + (more.length + 1) by omega]
      exact Body.line?_of_getElem? (by rw [List.getElem?_cons_succ, ← List.head?_drop, hafter]; rfl)
    · -- The paragraph stopped at a line that is not blank, so it is indented.
      have hnot := List.head?_dropWhile_not
        (fun (x : Line) => !Text.isBlank x && !x.isIndented) rest
      rw [← Extract.drop_takeWhile_length, hmore, hafter] at hnot
      simpa [hx] using hnot

/-- A paragraph with the literal block that it announces. -/
theorem paragraph_placed (hblank : Text.isBlank l = false) :
    ∀ block ∈ (paragraph (o + 1) l rest).1, block.Placed ⟨o, l :: rest⟩ := by
  simp only [paragraph]
  generalize hmore : rest.takeWhile
    (fun (x : Line) => !Text.isBlank x && !x.isIndented) = more
  have hstart : more <+: rest := hmore ▸ List.takeWhile_prefix _
  have hparagraph := paragraph_block_placed (o := o) hblank hmore
  split
  · have hprev : (⟨o, l :: rest⟩ : Body).Shows (o + (more.length + 1))
        fun l => Text.isBlank l = false := by
      have hall : ∀ x ∈ l :: more, Text.isBlank x = false := by
        refine List.forall_mem_cons.mpr ⟨hblank, fun x hx => ?_⟩
        rw [← hmore] at hx
        have hp := List.mem_takeWhile_imp hx
        simp only [Bool.and_eq_true, Bool.not_eq_true'] at hp
        exact hp.1
      rw [show o + (more.length + 1) = o + 1 + more.length by omega]
      exact Body.shows_of_isStart (List.cons_prefix_cons.mpr ⟨rfl, hstart⟩) hall (by simp)
    have hliteral := literalAfter_placed (b := ⟨o, l :: rest⟩) (k := more.length + 1)
      (by simpa using hstart.length_le) hprev
    rw [show o + (more.length + 1) + 1 = o + 1 + 1 + more.length by omega] at hliteral
    exact List.forall_mem_cons.mpr ⟨hparagraph, hliteral⟩
  · exact List.forall_mem_singleton.mpr hparagraph

/-- A title and the line below it, read as a title, as text or as a problem. -/
theorem underlined_placed (how : Manner) {underline : Line} (rest : List Line)
    (hblank : Text.isBlank l = false)
    (hline : Pattern.isAdornment underline = true) :
    (∀ reading ∈ (underlined how (o + 1) l underline).1, ∀ block ∈ reading.1,
        block.Placed ⟨o, l :: underline :: rest⟩) ∧
      ∀ block ∈ (underlined how (o + 1) l underline).2,
        block.Placed ⟨o, l :: underline :: rest⟩ := by
  have hunderline : Text.isBlank underline = false := Pattern.not_isBlank_of_isAdornment hline
  have hproblem : ∀ level text, Problem.Placed ⟨o, l :: underline :: rest⟩
      ⟨level, o + 1 + 1, text, some (l ++ '\n' :: underline)⟩ := by
    intro level text
    refine ⟨underline, by simp, by simp [hunderline], ?_⟩
    intro quoted hquoted
    obtain rfl : l ++ '\n' :: underline = quoted := by simpa using hquoted
    exact ⟨l ++ ['\n'], [], by simp⟩
  have hplain : ∀ level text, Problem.Placed ⟨o, l :: underline :: rest⟩
      ⟨level, o + 1 + 1, text, none⟩ := by
    intro level text
    exact ⟨underline, by simp, by simp [hunderline], by simp⟩
  unfold underlined
  dsimp only
  split
  · refine ⟨by simp, ?_⟩
    split
    · exact List.forall_mem_singleton.mpr (hplain _ _)
    · simp
  · have hshortage : ∀ p ∈ (if decide (underline.length < how.width l) = true then
        some (⟨.warning, o + 1 + 1, "Title underline too short.",
          some (l ++ '\n' :: underline)⟩ : Problem) else none),
        p.Placed ⟨o, l :: underline :: rest⟩ := by
      intro p hp
      split at hp
      · obtain rfl := Option.mem_some_iff.mp hp
        exact hproblem _ _
      · cases hp
    split
    · refine ⟨?_, by simp⟩
      simp only [Option.mem_some_iff, forall_eq']
      refine List.forall_mem_singleton.mpr ⟨?_, ?_, ?_, hshortage⟩
      · exact ⟨l, by simp, hblank, .inl rfl, ⟨[], '\n' :: underline, by simp⟩⟩
      · exact ⟨underline, by simp, hline, Pattern.head?_of_isAdornment hline⟩
      · simp
    · refine ⟨?_, by simp⟩
      simp only [Option.mem_some_iff, forall_eq', List.forall_mem_append]
      refine ⟨?_, List.forall_mem_singleton.mpr (hproblem _ _)⟩
      intro block hmem
      obtain ⟨p, hp, rfl⟩ := List.mem_map.mp hmem
      exact hshortage p (by simpa using hp)

/-- A line too short for a title is text. -/
theorem shortOverline_placed (hblank : Text.isBlank l = false) :
    ∀ block ∈ (shortOverline (o + 1) l rest).1, block.Placed ⟨o, l :: rest⟩ :=
  List.forall_mem_cons.mpr
    ⟨⟨l, by simp, by simp [hblank], by simp⟩, paragraph_placed hblank⟩

/-- A complaint that quotes the text from its line on. -/
theorem quoting_placed {level : Severity} {text : String} {quoted : List Char}
    (hblank : Text.isBlank l = false) (hquoted : l <:+: quoted) :
    ∀ block ∈ [Block.problem ⟨level, o + 1, text, some quoted⟩],
      block.Placed ⟨o, l :: rest⟩ := by
  refine List.forall_mem_singleton.mpr ⟨l, by simp, by simp [hblank], ?_⟩
  intro quoted' h
  obtain rfl := Option.mem_some_iff.mp h
  exact hquoted

/-- A title between two lines, with all that may be wrong with it. -/
theorem overlined_placed (how : Manner) {title : Line} (hline : Pattern.isAdornment l = true)
    (htitle : Text.isBlank title = false) :
    ∀ block ∈ (overlined how (o + 1) l title rest).1, block.Placed ⟨o, l :: title :: rest⟩ := by
  have hblank : Text.isBlank l = false := Pattern.not_isBlank_of_isAdornment hline
  have htext : ∀ block ∈ (shortOverline (o + 1) l (title :: rest)).1,
      block.Placed ⟨o, l :: title :: rest⟩ := shortOverline_placed hblank
  unfold overlined
  dsimp only
  split
  · split
    · exact htext
    · exact quoting_placed hblank ⟨[], '\n' :: title, by simp⟩
  · rename_i underline more
    have hmarkup : l <:+: l ++ '\n' :: title ++ '\n' :: underline :=
      ⟨[], '\n' :: title ++ '\n' :: underline, by simp⟩
    split
    · split
      · exact htext
      · exact quoting_placed hblank hmarkup
    · split
      · split
        · exact htext
        · exact quoting_placed hblank hmarkup
      · split
        · exact htext
        · rename_i hunderline hsame hshort
          obtain rfl : l = underline := by simpa using hsame
          refine List.forall_mem_singleton.mpr ⟨?_, ?_, ?_, ?_⟩
          · exact ⟨title, by simp, htitle, .inr rfl, ⟨l ++ ['\n'], '\n' :: l, by simp⟩⟩
          · exact ⟨l, by simp, hline, Pattern.head?_of_isAdornment hline⟩
          · intro c hc
            exact ⟨l, by simp, hline, hc⟩
          · intro p hp
            dsimp only at hp
            split at hp
            · obtain rfl := Option.mem_some_iff.mp hp
              exact quoting_placed hblank hmarkup _ (List.mem_singleton_self _)
            · cases hp

/-- A line of punctuation: a transition, a title's first line or text. -/
theorem adornment_placed {how : Manner} (hline : Pattern.isAdornment l = true) :
    ∀ block ∈ (adornment how (o + 1) l rest).1, block.Placed ⟨o, l :: rest⟩ := by
  have hblank : Text.isBlank l = false := Pattern.not_isBlank_of_isAdornment hline
  have htransition : ∀ block ∈ [Block.transition (o + 1)], block.Placed ⟨o, l :: rest⟩ :=
    List.forall_mem_singleton.mpr ⟨l, by simp, hline⟩
  unfold adornment
  dsimp only
  split
  · split
    · exact paragraph_placed hblank
    · split
      · exact List.forall_mem_cons.mpr
          ⟨⟨l, by simp, by simp [hblank], by simp⟩, paragraph_placed hblank⟩
      · exact quoting_placed hblank List.infix_rfl
  · split
    · split
      · exact paragraph_placed hblank
      · exact htransition
    · rename_i next more
      split
      · split
        · exact paragraph_placed hblank
        · exact htransition
      · split
        · split
          · exact shortOverline_placed hblank
          · exact quoting_placed hblank ⟨[], '\n' :: next, by simp⟩
        · exact overlined_placed how hline (by simp_all)

end Constructs

/-! ## Lists -/

section Lists

variable {α σ : Type} {item : σ → Nat → Line → List Line → Option (α × σ × Extract)}

theorem collect_nil (s : σ) (n : Nat) : collect item s n [] = ([], 0, true) := by
  rw [collect]

/-- A line that starts no item ends the list. -/
theorem collect_of_none {s : σ} {n : Nat} {l : Line} {rest : List Line}
    (h : item s n l rest = none) : collect item s n (l :: rest) = ([], 0, true) := by
  rw [collect, h]

/-- An item is read, and the list goes on behind it. -/
theorem collect_of_some {s s' : σ} {n : Nat} {l : Line} {rest : List Line} {a : α} {e : Extract}
    (h : item s n l rest = some (a, s', e)) :
    collect item s n (l :: rest) =
      let found := collect item s' (n + 1 + e.extra) (rest.drop e.extra)
      (a :: found.1, 1 + e.extra + found.2.1,
        if found.1.isEmpty then e.blankFinish else found.2.2) := by
  rw [collect, h]

/-- No items take no lines. -/
theorem collect_of_isEmpty {s : σ} {n : Nat} {ls : List Line}
    (h : (collect item s n ls).1 = []) : (collect item s n ls).2.1 = 0 := by
  cases ls with
  | nil => rw [collect_nil]
  | cons l rest =>
    cases hitem : item s n l rest with
    | none => rw [collect_of_none hitem]
    | some found => simp [collect_of_some hitem] at h

/-- What holds of every item where it is read holds of all of them in the
    whole list, and a list that did not end well has a line after it. -/
theorem collect_spec {P : Body → α → Prop}
    (lift : ∀ b k a, k ≤ b.lines.length → P (b.drop k) a → P b a)
    (one : ∀ s o l rest a s' e, item s (o + 1) l rest = some (a, s', e) →
      P ⟨o, l :: rest⟩ a ∧ e.Stops rest)
    (s : σ) (o : Nat) (ls : List Line) :
    (∀ a ∈ (collect item s (o + 1) ls).1, P ⟨o, ls⟩ a) ∧
      ((collect item s (o + 1) ls).2.2 = false →
        (⟨o, ls⟩ : Body).Shows (o + 1 + (collect item s (o + 1) ls).2.1)
          fun l => Text.isBlank l = false) := by
  -- The recursion goes on behind the lines of the first item.
  induction hlen : ls.length using Nat.strong_induction_on generalizing s o ls with
  | _ len ih =>
    cases ls with
    | nil => simp [collect_nil]
    | cons l rest =>
      cases hitem : item s (o + 1) l rest with
      | none => simp [collect_of_none hitem]
      | some found =>
        obtain ⟨a, s', e⟩ := found
        obtain ⟨ha, hstops⟩ := one s o l rest a s' e hitem
        obtain ⟨hrest, hfinish⟩ := ih (rest.drop e.extra).length
          (by simp only [List.length_drop, ← hlen, List.length_cons]; omega)
          s' (o + 1 + e.extra) (rest.drop e.extra) rfl
        have hdrop : (⟨o, l :: rest⟩ : Body).drop (1 + e.extra)
            = ⟨o + 1 + e.extra, rest.drop e.extra⟩ := by
          simp [Body.drop, Nat.add_comm 1 e.extra, Nat.add_assoc]
        rw [show o + 1 + e.extra + 1 = o + 1 + 1 + e.extra by omega, ← hdrop] at hrest hfinish
        rw [collect_of_some hitem]
        dsimp only
        constructor
        · refine List.forall_mem_cons.mpr ⟨ha, fun x hx => ?_⟩
          refine lift _ (1 + e.extra) x ?_ (hrest x hx)
          -- Items were found, so there are lines left.
          by_contra hlt
          have hnil : rest.drop e.extra = [] := by
            simp only [List.length_cons] at hlt
            exact List.drop_eq_nil_of_le (by omega)
          simp [hnil, collect_nil] at hx
        · intro hunfinished
          split at hunfinished
          · rename_i hempty
            rw [collect_of_isEmpty (List.isEmpty_iff.mp hempty)]
            have := hstops.shows (o := o) (l := l) hunfinished
            rwa [show o + 1 + (1 + e.extra + 0) = o + 1 + 1 + e.extra by omega]
          · have := (hfinish hunfinished).of_drop
            rwa [← Nat.add_assoc, ← Nat.add_assoc]

/-- A list is placed if its items are. -/
theorem listReading_placed {P : Body → α → Prop} {what : String} {block : List α → Block}
    (lift : ∀ b k a, k ≤ b.lines.length → P (b.drop k) a → P b a)
    (one : ∀ s o l rest a s' e, item s (o + 1) l rest = some (a, s', e) →
      P ⟨o, l :: rest⟩ a ∧ e.Stops rest)
    {s : σ} {o : Nat} {ls : List Line}
    (list : ∀ items, (∀ a ∈ items, P ⟨o, ls⟩ a) → (block items).Placed ⟨o, ls⟩) :
    ∀ found ∈ (listReading what (o + 1) block (collect item s (o + 1) ls)).1,
      found.Placed ⟨o, ls⟩ := by
  obtain ⟨hitems, hfinish⟩ := collect_spec lift one s o ls
  exact List.forall_mem_cons.mpr ⟨list _ hitems, unindentUnless_placed hfinish⟩

end Lists

/-! ## Constructs -/

/-- The constructs that may start with a line, each with what shows it. -/
inductive Starts (how : Manner) (n : Nat) (l : Line) (rest : List Line) : Reading → Prop
  | blank (h : Text.isBlank l = true) : Starts how n l rest ([], 0)
  | blockQuote (hblank : Text.isBlank l = false) (h : l.isIndented = true) :
    Starts how n l rest (blockQuote n l rest)
  | bulletList {bullet : Char} {width : Nat} (h : Pattern.bullet? l = some (bullet, width)) :
    Starts how n l rest (bulletList bullet n (l :: rest))
  | enumeratedList {first : Pattern.Enumerator} (h : Pattern.enumerator? l = some first)
    (hholds : enumeratorHolds rest = true) :
    Starts how n l rest (enumeratedList first n (l :: rest))
  | stuckList (h : ¬Pattern.Countable l) (hholds : enumeratorHolds rest = true) :
    Starts how n l rest ([.stuckList n how.first], rest.length)
  | paragraph (hblank : Text.isBlank l = false) : Starts how n l rest (paragraph n l rest)
  | fieldList (h : (Pattern.field? l).isSome = true) :
    Starts how n l rest (fieldList n (l :: rest))
  | optionList (h : (Pattern.options? l).isSome = true) :
    Starts how n l rest (optionList n (l :: rest))
  | doctest (h : Pattern.isDoctest l = true) : Starts how n l rest (doctest n l rest)
  | lineBlock (hblank : Text.isBlank l = false) (h : Pattern.isLineBlock l = true) :
    Starts how n l rest (lineBlock n l rest)
  | gridTable (hblank : Text.isBlank l = false) (h : Pattern.isGridBorder l = true) :
    Starts how n l rest (gridTable n l rest)
  | simpleTable (h : Pattern.isSimpleBorder l = true) :
    Starts how n l rest (simpleTable n l rest)
  | explicitBlock {width : Nat} (h : Pattern.marker? ['.', '.'] l = some width) :
    Starts how n l rest (explicitBlock width n l rest)
  | anonymousTarget {width : Nat} (h : Pattern.marker? ['_', '_'] l = some width) :
    Starts how n l rest (anonymousTarget width n l rest)
  | adornment (h : Pattern.isAdornment l = true) :
    Starts how n l rest (adornment how n l rest)
  | text (hblank : Text.isBlank l = false) (h : Pattern.isPlain l = true) :
    Starts how n l rest (text how n l rest)

/-- Each reader is called only for a first line of its own kind. -/
theorem block_starts (how : Manner) (n : Nat) (l : Line) (rest : List Line) :
    Starts how n l rest (block how n l rest) := by
  unfold block
  by_cases hblank : Text.isBlank l = true
  · rw [if_pos hblank]
    exact .blank hblank
  rw [if_neg hblank]
  rw [Bool.not_eq_true] at hblank
  by_cases hindent : l.isIndented = true
  · rw [if_pos hindent]
    exact .blockQuote hblank hindent
  rw [if_neg hindent]
  cases hbullet : Pattern.bullet? l with
  | some found => exact .bulletList hbullet
  | none =>
  dsimp only
  by_cases henumerator : (Pattern.enumeratorParts? l).isSome = true
  · rw [if_pos henumerator]
    split
    · split
      · exact .enumeratedList ‹_› ‹_›
      · exact .paragraph hblank
    · split
      · rename_i hnone hholds
        exact .stuckList (by simp [Pattern.Countable, henumerator, hnone]) hholds
      · exact .paragraph hblank
  rw [if_neg henumerator]
  by_cases hfield : (Pattern.field? l).isSome = true
  · rw [if_pos hfield]
    exact .fieldList hfield
  rw [if_neg hfield]
  by_cases hoptions : (Pattern.options? l).isSome = true
  · rw [if_pos hoptions]
    exact .optionList hoptions
  rw [if_neg hoptions]
  by_cases hdoctest : Pattern.isDoctest l = true
  · rw [if_pos hdoctest]
    exact .doctest hdoctest
  rw [if_neg hdoctest]
  by_cases hbar : Pattern.isLineBlock l = true
  · rw [if_pos hbar]
    exact .lineBlock hblank hbar
  rw [if_neg hbar]
  by_cases hgrid : Pattern.isGridBorder l = true
  · rw [if_pos hgrid]
    exact .gridTable hblank hgrid
  rw [if_neg hgrid]
  by_cases hsimple : Pattern.isSimpleBorder l = true
  · rw [if_pos hsimple]
    exact .simpleTable hsimple
  rw [if_neg hsimple]
  cases hexplicit : Pattern.marker? ['.', '.'] l with
  | some width => exact .explicitBlock hexplicit
  | none =>
  cases hanonymous : Pattern.marker? ['_', '_'] l with
  | some width => exact .anonymousTarget hanonymous
  | none =>
  dsimp only
  by_cases hadornment : Pattern.isAdornment l = true
  · rw [if_pos hadornment]
    exact .adornment hadornment
  rw [if_neg hadornment]
  refine .text hblank ?_
  simp [Pattern.isPlain, Pattern.isExplicit, Pattern.isAnonymous, hblank, hindent, henumerator,
    hfield, hdoctest, hgrid, hsimple, hadornment, hbullet, hexplicit, hanonymous]

section Items

variable {o : Nat} {l : Line} {rest : List Line}

/-- An item's body starts at its marker's line and stops before the next
    item's. -/
theorem listItem_placed (width : Nat) {p : Line → Prop} (hp : p l) :
    (listItem width (o + 1) l rest).1.Placed p ⟨o, l :: rest⟩ ∧
      (listItem width (o + 1) l rest).2.Stops rest := by
  simp only [listItem]
  split
  · exact ⟨⟨⟨l, by simp, hp⟩, rfl, .of_pared (Extract.firstKnown_pared width l rest)⟩,
      Extract.firstKnown_stops width l rest⟩
  · exact ⟨⟨⟨l, by simp, hp⟩, rfl, .of_pared (Extract.known_pared width l rest)⟩,
      Extract.known_stops width l rest⟩

/-- By the items: each is placed, and the list stops where an item does. -/
theorem bulletList_placed {bullet : Char} (hl : (Pattern.bullet? l).isSome) :
    ∀ block ∈ (bulletList bullet (o + 1) (l :: rest)).1, block.Placed ⟨o, l :: rest⟩ := by
  refine listReading_placed (P := ListItem.Placed fun l => (Pattern.bullet? l).isSome)
    (fun _ _ _ hk h => ListItem.Placed.of_drop hk h) ?_
    (fun _ hitems => ⟨⟨l, by simp, hl⟩, hitems⟩)
  intro _ o l rest a _ e h
  split at h
  · rename_i b width hbullet
    split at h
    · obtain ⟨rfl, -, rfl⟩ := by simpa using h
      exact listItem_placed width (by simp [hbullet])
    · cases h
  · cases h

/-- The same with numbers; the remark on the first number stands at its
    line. -/
theorem enumeratedList_placed {first : Pattern.Enumerator}
    (hl : (Pattern.enumerator? l).isSome) :
    ∀ block ∈ (enumeratedList first (o + 1) (l :: rest)).1, block.Placed ⟨o, l :: rest⟩ := by
  refine listReading_placed (P := ListItem.Placed fun l => (Pattern.enumerator? l).isSome)
    (fun _ _ _ hk h => ListItem.Placed.of_drop hk h) ?_
    (fun _ hitems => ⟨⟨l, by simp, hl⟩, hitems⟩)
  intro _ o l rest a _ e h
  split at h
  · rename_i enumerator henumerator
    split at h
    · obtain ⟨rfl, -, rfl⟩ := by simpa using h
      exact listItem_placed enumerator.width (by simp [henumerator])
    · cases h
  · cases h

/-- The same with fields. -/
theorem fieldList_placed (hl : (Pattern.field? l).isSome) :
    ∀ block ∈ (fieldList (o + 1) (l :: rest)).1, block.Placed ⟨o, l :: rest⟩ := by
  refine listReading_placed (P := HeadedItem.Placed fun l name => ∃ k, Pattern.field? l = some (name, k))
    (fun _ _ _ hk h => HeadedItem.Placed.of_drop hk h) ?_
    (fun _ hitems => ⟨⟨l, by simp, hl⟩, hitems⟩)
  intro _ o l rest a _ e h
  obtain ⟨⟨name, width⟩, hfield, hpair⟩ := Option.map_eq_some_iff.mp h
  obtain ⟨rfl, -, rfl⟩ := by simpa using hpair
  exact ⟨⟨⟨l, by simp, width, hfield⟩, rfl, .of_pared (Extract.firstKnown_pared width l rest)⟩,
    Extract.firstKnown_stops width l rest⟩

/-- The same with options. -/
theorem optionList_placed (hl : (Pattern.options? l).isSome) :
    ∀ block ∈ (optionList (o + 1) (l :: rest)).1, block.Placed ⟨o, l :: rest⟩ := by
  refine listReading_placed (P := HeadedItem.Placed fun l name =>
    ∃ mark, Pattern.options? l = some mark ∧ name = Text.trim mark)
    (fun _ _ _ hk h => HeadedItem.Placed.of_drop hk h) ?_
    (fun _ hitems => ⟨⟨l, by simp, hl⟩, hitems⟩)
  intro _ o l rest a _ e h
  obtain ⟨mark, hoptions, hpair⟩ := Option.map_eq_some_iff.mp h
  obtain ⟨rfl, -, rfl⟩ := by simpa using hpair
  exact ⟨⟨⟨l, by simp, mark, hoptions, rfl⟩, rfl,
    .of_pared (Extract.firstKnown_pared mark.length l rest)⟩,
    Extract.firstKnown_stops mark.length l rest⟩

/-- A term and the indented body below it. -/
theorem definitionItem_placed {next : Line} {more : List Line}
    (hl : Pattern.isPlain l = true) (hblank : Text.isBlank next = false)
    (hindent : next.isIndented = true) :
    (definitionItem (o + 1) l next more).1.Placed ⟨o, l :: next :: more⟩ ∧
      (definitionItem (o + 1) l next more).2.Stops (next :: more) := by
  refine ⟨⟨⟨l, by simp [definitionItem], hl, ?_⟩, ⟨next, by simp [definitionItem], hblank, hindent⟩,
    rfl, ?_⟩, ?_⟩
  · simp only [definitionItem]
    split
    · rename_i before after hcut
      split
      · exact List.prefix_rfl
      · exact Text.cut?_isStart hcut
    · exact List.prefix_rfl
  · have hbelow : (⟨o + 1, (Extract.indented next more).lines⟩ : Body).Below
        ((⟨o, l :: next :: more⟩ : Body).drop 1) :=
      .of_pared (Extract.indented_pared next more)
    exact hbelow.of_drop (by simp)
  · intro hfinish
    obtain ⟨x, hx, hxblank⟩ := Extract.indented_stops next more hfinish
    exact ⟨x, by simpa only [definitionItem, List.getElem?_cons_succ] using hx, hxblank⟩

/-- By the items, the remarks on terms among them. -/
theorem definitionList_placed (hl : Text.isBlank l = false) :
    ∀ block ∈ (definitionList (o + 1) (l :: rest)).1, block.Placed ⟨o, l :: rest⟩ := by
  refine listReading_placed (P := DefinitionItem.Placed)
    (fun _ _ _ hk h => DefinitionItem.Placed.of_drop hk h) ?_
    (fun _ hitems => ⟨⟨l, by simp, hl⟩, hitems⟩)
  intro _ o l rest a _ e h
  split at h
  · rename_i next more
    split at h
    · rename_i hcond
      simp only [Bool.and_eq_true, Bool.not_eq_true'] at hcond
      obtain ⟨rfl, -, rfl⟩ := by simpa using h
      exact definitionItem_placed hcond.1.1 hcond.1.2 hcond.2
    · cases h
  · cases h

/-! ## Other constructs -/

/-- A block quote is what stands indented, from its first line on. -/
theorem blockQuote_placed (hblank : Text.isBlank l = false) (hindent : l.isIndented = true) :
    ∀ block ∈ (blockQuote (o + 1) l rest).1, block.Placed ⟨o, l :: rest⟩ :=
  List.forall_mem_cons.mpr
    ⟨⟨⟨l, by simp, hblank, hindent⟩, rfl, .of_pared (Extract.indented_pared l rest)⟩,
      unindentUnless_placed (Extract.indented_stops l rest).shows⟩

/-- A doctest block goes on to the next blank line. -/
theorem doctest_placed (hl : Pattern.isDoctest l = true) :
    ∀ block ∈ (doctest (o + 1) l rest).1, block.Placed ⟨o, l :: rest⟩ :=
  List.forall_mem_singleton.mpr
    ⟨⟨l, by simp, hl⟩, joinLines_textFrom (List.takeWhile_prefix _)⟩

/-- The lines of a line block, each at its own number. -/
theorem lineBlock_placed (hblank : Text.isBlank l = false) (hl : Pattern.isLineBlock l = true) :
    ∀ block ∈ (lineBlock (o + 1) l rest).1, block.Placed ⟨o, l :: rest⟩ := by
  simp only [lineBlock]
  generalize hmore : rest.takeWhile (fun (x : Line) =>
    !Text.isBlank x && (Pattern.isLineBlock x || x.isIndented)) = more
  have hstart : l :: more <+: l :: rest :=
    List.cons_prefix_cons.mpr ⟨rfl, hmore ▸ List.takeWhile_prefix _⟩
  have hall : ∀ x ∈ l :: more, Text.isBlank x = false := by
    refine List.forall_mem_cons.mpr ⟨hblank, fun x hx => ?_⟩
    rw [← hmore] at hx
    have hp := List.mem_takeWhile_imp hx
    simp only [Bool.and_eq_true, Bool.not_eq_true'] at hp
    exact hp.1
  refine List.forall_mem_cons.mpr ⟨⟨⟨l, by simp, hl⟩, ?_⟩, unindentUnless_placed ?_⟩
  · intro q hq
    obtain ⟨⟨x, k⟩, hxk, rfl⟩ := List.mem_map.mp hq
    have hget : (l :: more)[k]? = some x := List.mem_zipIdx_iff_getElem?.mp hxk
    obtain ⟨hk, hx⟩ := List.getElem?_eq_some_iff.mp hget
    obtain ⟨t, ht⟩ := hstart
    refine ⟨x, Body.line?_of_getElem? ?_, hall x (hx ▸ List.getElem_mem hk), ?_⟩
    · rw [← ht, List.getElem?_append_left hk, hget]
    · refine (Text.trim_infix _).trans ?_
      cases hbar : Text.dropStart? ['|'] (Text.trim x) with
      | none => exact Text.trim_infix x
      | some after =>
        have heq := Text.eq_append_of_dropStart? hbar
        exact (List.suffix_append ['|'] after).isInfix.trans (heq ▸ Text.trim_infix x)
  · intro hfinish
    split at hfinish
    · rename_i x after hafter
      refine ⟨x, ?_, hfinish⟩
      rw [show o + 1 + 1 + more.length = o + 1 + (more.length + 1) by omega]
      refine Body.line?_of_getElem? ?_
      rw [List.getElem?_cons_succ, ← List.head?_drop, hafter]
      rfl
    · cases hfinish

/-- A table in a grid, or the error about it. -/
theorem gridTable_placed (hblank : Text.isBlank l = false) (hl : Pattern.isGridBorder l = true) :
    ∀ block ∈ (gridTable (o + 1) l rest).1, block.Placed ⟨o, l :: rest⟩ := by
  simp only [gridTable]
  split
  · exact List.forall_mem_singleton.mpr
      ⟨⟨l, by simp, .inl hl⟩, joinLines_textFrom (List.takeWhile_prefix _)⟩
  · refine quoting_placed hblank ?_
    have hfirst : [l] <+: l :: rest.takeWhile (fun x =>
        !Text.isBlank x && (x.head? = some '+' || x.head? = some '|')) :=
      List.cons_prefix_cons.mpr ⟨rfl, List.nil_prefix⟩
    have hjoin : Line.joinLines [l] = l := by simp [Line.joinLines]
    have htext := Line.joinLines_start hfirst
    rw [hjoin] at htext
    exact htext.isInfix

/-- A table between borders. -/
theorem simpleTable_placed (hl : Pattern.isSimpleBorder l = true) :
    ∀ block ∈ (simpleTable (o + 1) l rest).1, block.Placed ⟨o, l :: rest⟩ :=
  List.forall_mem_singleton.mpr
    ⟨⟨l, by simp, .inr hl⟩, joinLines_textFrom (List.take_prefix _ _)⟩

/-- The warning behind explicit markup stands at the line that ends it. -/
theorem explicitEnd_placed {e : Extract} (he : e.Stops rest) :
    ∀ block ∈ explicitEnd e (o + 1) rest, block.Placed ⟨o, l :: rest⟩ := by
  refine unindentUnless_placed fun hfinish => ?_
  simp only [Bool.or_eq_false_iff] at hfinish
  exact he.shows hfinish.1

/-- Explicit markup with what is indented below it. -/
theorem explicitBlock_placed {width : Nat} (hl : Pattern.isExplicit l = true) :
    ∀ block ∈ (explicitBlock width (o + 1) l rest).1, block.Placed ⟨o, l :: rest⟩ := by
  refine List.forall_mem_cons.mpr ⟨⟨⟨l, by simp, hl⟩, ?_, ?_⟩, ?_⟩
  · exact .of_pared (Extract.firstKnown_pared width l rest)
  · exact joinLines_textFrom ((Extract.trimEnd_isStart _).trans (List.take_prefix _ _))
  · exact explicitEnd_placed (Extract.firstKnown_stops width l rest)

/-- An anonymous target with what is indented below it. -/
theorem anonymousTarget_placed {width : Nat} (hl : Pattern.isAnonymous l = true) :
    ∀ block ∈ (anonymousTarget width (o + 1) l rest).1, block.Placed ⟨o, l :: rest⟩ :=
  List.forall_mem_cons.mpr
    ⟨⟨⟨l, by simp, hl⟩, .of_pared (Extract.firstKnown_pared width l rest)⟩,
      explicitEnd_placed (Extract.firstKnown_stops width l rest)⟩

/-- A line that starts with no mark: a title, a definition list or a
    paragraph. -/
theorem text_placed {how : Manner} (hblank : Text.isBlank l = false) :
    ∀ block ∈ (text how (o + 1) l rest).1, block.Placed ⟨o, l :: rest⟩ := by
  unfold text
  split
  · exact paragraph_placed hblank
  · rename_i next more
    split
    · rename_i hnext
      obtain ⟨hreading, hcomplaints⟩ := underlined_placed (o := o) how more hblank hnext
      split
      · rename_i reading _ hfound
        exact hreading reading (by simp [hfound])
      · rename_i complaints hnone
        rw [hnone] at hcomplaints
        exact List.forall_mem_append.mpr ⟨hcomplaints, paragraph_placed hblank⟩
    · split
      · exact definitionList_placed hblank
      · exact paragraph_placed hblank

/-- The blocks of a construct stand where they say. -/
theorem block_placed (how : Manner) :
    ∀ found ∈ (block how (o + 1) l rest).1, found.Placed ⟨o, l :: rest⟩ := by
  have hstarts := block_starts how (o + 1) l rest
  generalize block how (o + 1) l rest = reading at hstarts ⊢
  cases hstarts with
  | blank => exact nofun
  | blockQuote hblank h => exact blockQuote_placed hblank h
  | bulletList h => exact bulletList_placed (Option.isSome_of_eq_some h)
  | enumeratedList h => exact enumeratedList_placed (Option.isSome_of_eq_some h)
  | stuckList h => exact List.forall_mem_singleton.mpr ⟨l, by simp, h⟩
  | paragraph hblank => exact paragraph_placed hblank
  | fieldList h => exact fieldList_placed h
  | optionList h => exact optionList_placed h
  | doctest h => exact doctest_placed h
  | lineBlock hblank h => exact lineBlock_placed hblank h
  | gridTable hblank h => exact gridTable_placed hblank h
  | simpleTable h => exact simpleTable_placed h
  | explicitBlock h => exact explicitBlock_placed (Option.isSome_of_eq_some h)
  | anonymousTarget h => exact anonymousTarget_placed (Option.isSome_of_eq_some h)
  | adornment h => exact adornment_placed h
  | text hblank => exact text_placed hblank

end Items

/-- The blocks of some lines: those of the first reading, and of what is
    left. -/
theorem blocks_cons (how : Manner) (n : Nat) (l : Line) (rest : List Line) :
    blocks how n (l :: rest) = (block how n l rest).1 ++
      blocks how (n + 1 + (block how n l rest).2) (rest.drop (block how n l rest).2) := by
  rw [blocks]

/-- The blocks of some lines stand where they say. -/
theorem blocks_placed (how : Manner) (o : Nat) (ls : List Line) :
    ∀ found ∈ blocks how (o + 1) ls, found.Placed ⟨o, ls⟩ := by
  -- The recursion goes on behind the lines that the first construct took.
  induction hlen : ls.length using Nat.strong_induction_on generalizing o ls with
  | _ len ih =>
    cases ls with
    | nil => simp [blocks]
    | cons l rest =>
      rw [blocks_cons]
      generalize (block how (o + 1) l rest).2 = taken
      refine List.forall_mem_append.mpr ⟨block_placed how, fun found hmem => ?_⟩
      by_cases hle : taken ≤ rest.length
      · have hdrop : (⟨o, l :: rest⟩ : Body).drop (1 + taken)
            = ⟨o + 1 + taken, rest.drop taken⟩ := by
          simp [Body.drop, Nat.add_comm 1 taken, Nat.add_assoc]
        rw [show o + 1 + 1 + taken = o + 1 + taken + 1 by omega] at hmem
        have hrest := ih (rest.drop taken).length
          (by simp only [List.length_drop, ← hlen, List.length_cons]; omega)
          (o + 1 + taken) (rest.drop taken) rfl found hmem
        rw [← hdrop] at hrest
        exact hrest.of_drop (by simp only [List.length_cons]; omega)
      · simp [List.drop_eq_nil_of_le (show rest.length ≤ taken by omega), blocks] at hmem

end Reader

end MarkupLint
