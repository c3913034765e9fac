import MarkupLint.Proofs.Rendering
import MarkupLint.Proofs.Tabs
import MarkupLint.Text.Encoding

/-! # Splitting a text into lines

    With a positive tab width that can be written out a text always has
    lines: its pieces between line feeds, each cleaned by itself
    (`eq_cleaned_of_splitLines?`).  What is cleaned
    loses and gains white space only.  A text without carriage returns has a
    line for every line feed and one more for what follows the last, and
    writing its line feeds in another way changes nothing, since newlines are
    normalised before anything else is looked at. -/

namespace MarkupLint

variable {s l : List Char}

/-! ## Newlines -/

theorem normalizeNewlines_cons {c : Char} (hc : c ≠ '\r') (s : List Char) :
    normalizeNewlines (c :: s) = c :: normalizeNewlines s := by
  rw [normalizeNewlines]
  · rintro rest rfl
    exact absurd rfl hc
  · rintro rfl
    exact absurd rfl hc

/-- However line feeds are written, they are normalised to line feeds. -/
theorem normalizeNewlines_replaceChar {ending : List Char}
    (hending : ending = ['\r', '\n'] ∨ ending = ['\r']) (h : '\r' ∉ s) :
    normalizeNewlines (Text.replaceChar '\n' ending s) = s := by
  induction s with
  | nil => rfl
  | cons c s ih =>
    obtain ⟨hc, hs⟩ := List.ne_and_not_mem_of_not_mem_cons h
    by_cases hfeed : c = '\n'
    · subst hfeed
      have hcons : Text.replaceChar '\n' ending ('\n' :: s)
          = ending ++ Text.replaceChar '\n' ending s := rfl
      rw [hcons]
      rcases hending with rfl | rfl
      · exact congrArg ('\n' :: ·) (ih hs)
      · rw [List.singleton_append, normalizeNewlines, ih hs]
        -- no line feed is left that could belong to the carriage return
        intro rest hrest
        have hmem : '\n' ∈ Text.replaceChar '\n' ['\r'] s := hrest ▸ List.mem_cons_self
        obtain ⟨b, -, hb⟩ := List.mem_flatMap.mp hmem
        split at hb
        · exact absurd hb (by decide)
        · exact absurd (List.mem_singleton.mp hb).symm ‹_›
    · have hcons : Text.replaceChar '\n' ending (c :: s)
          = c :: Text.replaceChar '\n' ending s := by
        simp [Text.replaceChar, hfeed]
      rw [hcons, normalizeNewlines_cons (Ne.symm hc), ih hs]

/-- No carriage return is left. -/
theorem not_mem_normalizeNewlines (s : List Char) : '\r' ∉ normalizeNewlines s := by
  fun_induction normalizeNewlines s with
  | case1 => exact List.not_mem_nil
  | case2 rest ih => simpa using ih
  | case3 rest _ ih => simpa using ih
  | case4 c rest _ hreturn ih =>
    rw [List.mem_cons, not_or]
    exact ⟨fun heq => hreturn heq.symm, ih⟩

theorem Text.dropMark_cons {c : Char} (hc : c ≠ '\ufeff') (s : List Char) :
    dropMark (c :: s) = c :: s := by
  rw [dropMark]
  rintro rest ⟨⟩
  exact hc rfl

/-- A byte order mark is dropped at the start only. -/
theorem Text.dropMark_suffix (s : List Char) : dropMark s <:+ s := by
  unfold dropMark
  split
  · exact List.suffix_cons _ _
  · exact List.suffix_rfl

/-- It does not matter which of both is done first. -/
theorem dropMark_normalizeNewlines (s : List Char) :
    Text.dropMark (normalizeNewlines s) = normalizeNewlines (Text.dropMark s) := by
  fun_cases normalizeNewlines s with
  | case1 => rfl
  | case2 rest => rfl
  | case3 rest hrest =>
    rw [Text.dropMark_cons (by decide), Text.dropMark_cons (by decide), normalizeNewlines]
    exact hrest
  | case4 c rest _ hreturn =>
    by_cases hc : c = '\ufeff'
    · subst hc
      rfl
    · have hreturn : c ≠ '\r' := fun heq => hreturn heq
      rw [Text.dropMark_cons hc, Text.dropMark_cons hc, normalizeNewlines_cons hreturn]

/-! ## Pieces -/

/-- There is one piece more than there are separators. -/
theorem Text.length_splitOn (sep : Char) (s : List Char) :
    (splitOn sep s).length = s.count sep + 1 := by
  induction s with
  | nil => rfl
  | cons c s ih =>
    obtain ⟨first, more, hpieces⟩ := List.exists_cons_of_ne_nil (splitOn_ne_nil sep s)
    by_cases hc : c = sep
    · rw [splitOn, if_pos hc, List.length_cons, ih, hc, List.count_cons_self]
    · rw [splitOn, if_neg hc, List.count_cons_of_ne hc, ← ih, hpieces]
      rfl

/-- The last piece is empty where nothing follows the last separator. -/
theorem Text.getLast?_splitOn (sep : Char) (s : List Char) :
    (splitOn sep s).getLast? = some [] ↔ s = [] ∨ s.getLast? = some sep := by
  induction s with
  | nil => simp [splitOn]
  | cons c s ih =>
    obtain ⟨first, more, hpieces⟩ := List.exists_cons_of_ne_nil (splitOn_ne_nil sep s)
    by_cases hc : c = sep
    · rw [splitOn, if_pos hc, hpieces, List.getLast?_cons_cons, ← hpieces, ih]
      cases s with
      | nil => simp [hc]
      | cons d s => simp [List.getLast?_cons_cons]
    · rw [splitOn, if_neg hc, hpieces]
      dsimp only
      cases more with
      | nil =>
        -- There is no separator at all.
        have hcount := length_splitOn sep s
        rw [hpieces] at hcount
        have hnone : sep ∉ c :: s := by
          rw [List.mem_cons, not_or]
          exact ⟨Ne.symm hc, List.count_eq_zero.mp (by simpa using hcount.symm)⟩
        refine iff_of_false (by simp) ?_
        rintro (hnil | hlast)
        · cases hnil
        · exact hnone (List.mem_of_getLast? hlast)
      | cons next more =>
        have hne : s ≠ [] := by
          rintro rfl
          cases hpieces
        obtain ⟨d, s, rfl⟩ := List.exists_cons_of_ne_nil hne
        rw [List.getLast?_cons_cons, ← List.getLast?_cons_cons (a := first), ← hpieces, ih]
        simp [List.getLast?_cons_cons]

/-- As many lines as newlines, and one for what stands after the last of
    them. -/
theorem length_rawLines (s : List Char) :
    (rawLines s).length
      = s.count '\n' + if s ≠ [] ∧ s.getLast? ≠ some '\n' then 1 else 0 := by
  have hlength := Text.length_splitOn '\n' s
  unfold rawLines
  dsimp only
  by_cases hlast : (Text.splitOn '\n' s).getLast? = some []
  · rw [if_pos hlast, List.length_dropLast, hlength, if_neg, Nat.add_sub_cancel, Nat.add_zero]
    rw [Text.getLast?_splitOn] at hlast
    exact fun h => hlast.elim h.1 h.2
  · rw [if_neg hlast, hlength, if_pos]
    rwa [Text.getLast?_splitOn, not_or] at hlast

/-! ## Cleaning -/

/-- No tab is left. -/
theorem not_mem_expandTabsFrom (width col : Nat) (s : List Char) :
    '\t' ∉ expandTabsFrom width col s := by
  induction s generalizing col with
  | nil => exact List.not_mem_nil
  | cons c s ih =>
    by_cases hc : c = '\t'
    · subst hc
      rw [expandTabsFrom_tab, List.mem_append, not_or]
      exact ⟨fun hmem => absurd (List.eq_of_mem_replicate hmem) (by decide), ih _⟩
    · rw [expandTabsFrom_cons hc, List.mem_cons, not_or]
      exact ⟨Ne.symm hc, ih _⟩

namespace Line

/-- What stands for a character of a raw line: a space for a vertical tab or a
    form feed. -/
def formless (c : Char) : Char := if c = '\x0b' || c = '\x0c' then ' ' else c

/-- A raw line as it is when its tabs are expanded. -/
def cleaned (width : Nat) (l : List Char) : Line :=
  Text.dropRightWhile (· == ' ') (expandTabsFrom width 0 (l.map formless))

/-- What a line is cleaned to, where its tabs can be expanded. -/
theorem eq_cleaned_of_cleanLine? {width : Int} (hwidth : 0 < width) {l : List Char} {line : Line}
    (h : cleanLine? width l = some line) : line = cleaned width.toNat l := by
  obtain ⟨shown, hshown, rfl⟩ := Option.map_eq_some_iff.mp h
  rw [((expandTabs?_eq_some_iff hwidth).mp hshown).2]
  rfl

/-- Vertical tabs and form feeds become blanks; all else stays. -/
theorem formless_spec (c : Char) : formless c = ' ' ∨ formless c = c ∧ c ≠ '\x0b' ∧ c ≠ '\x0c' := by
  unfold formless
  split
  · exact .inl rfl
  · rename_i hform
    simp only [Bool.or_eq_true, decide_eq_true_eq, not_or] at hform
    exact .inr ⟨rfl, hform⟩

/-- A raw line holds no newline, so nothing that a line may not hold is left
    of it. -/
theorem clean_cleaned (width : Nat) (hfeed : '\n' ∉ l) (hreturn : '\r' ∉ l) :
    (cleaned width l).Clean where
  kept := by
    intro c hc
    have hexpanded : c ∈ expandTabsFrom width 0 (l.map formless) := by
      rw [cleaned, Text.dropRightWhile, List.mem_reverse] at hc
      exact List.mem_reverse.mp (List.dropWhile_subset _ hc)
    have htab : c ≠ '\t' := fun heq => not_mem_expandTabsFrom _ _ _ (heq ▸ hexpanded)
    rcases mem_of_mem_expandTabsFrom hexpanded with rfl | hspaced
    · decide
    obtain ⟨b, hb, rfl⟩ := List.mem_map.mp hspaced
    rcases formless_spec b with hspace | ⟨hsame, hvertical, hform⟩
    · rw [hspace]
      decide
    · rw [hsame] at htab ⊢
      have hbfeed : b ≠ '\n' := fun heq => hfeed (heq ▸ hb)
      have hbreturn : b ≠ '\r' := fun heq => hreturn (heq ▸ hb)
      simp [htab, hbfeed, hbreturn, hvertical, hform]
  stop := by
    rw [cleaned, Text.dropRightWhile, List.getLast?_reverse]
    intro hspace
    have hnot := List.head?_dropWhile_not (· == ' ') (expandTabsFrom width 0 (l.map formless)).reverse
    rw [hspace] at hnot
    exact absurd hnot (by decide)

/-! ### What is kept -/

/-- A character that neither ends a line nor is or stands for spaces. -/
def isSolid (c : Char) : Bool := !([' ', '\t', '\n', '\r', '\x0b', '\x0c'].contains c)

/-- Tabs become blanks, so nothing solid is lost. -/
theorem filter_isSolid_expandTabsFrom (width col : Nat) (s : List Char) :
    (expandTabsFrom width col s).filter isSolid = s.filter isSolid := by
  induction s generalizing col with
  | nil => rfl
  | cons c s ih =>
    by_cases hc : c = '\t'
    · subst hc
      rw [expandTabsFrom_tab, List.filter_append, ih, List.filter_replicate,
        if_neg (by decide), List.nil_append, List.filter_cons_of_neg (by decide)]
    · rw [expandTabsFrom_cons hc, List.filter_cons, List.filter_cons, ih]

/-- Nor is it with form feeds. -/
theorem filter_isSolid_formless (s : List Char) :
    (s.map formless).filter isSolid = s.filter isSolid := by
  induction s with
  | nil => rfl
  | cons c s ih =>
    by_cases hform : c = '\x0b' ∨ c = '\x0c'
    · have hspace : formless c = ' ' := by
        unfold formless
        rw [if_pos (by simpa using hform)]
      have hsolid : isSolid c = false := by rcases hform with rfl | rfl <;> rfl
      rw [List.map_cons, hspace, List.filter_cons_of_neg (by decide),
        List.filter_cons_of_neg (by simp [hsolid]), ih]
    · have hsame : formless c = c := by
        unfold formless
        rw [if_neg (by simpa using hform)]
      rw [List.map_cons, hsame, List.filter_cons, List.filter_cons, ih]

/-- Nor by cleaning a line. -/
theorem filter_isSolid_cleaned (width : Nat) (l : List Char) :
    (cleaned width l).filter isSolid = l.filter isSolid := by
  have hright : ∀ s : List Char, (Text.dropRightWhile (· == ' ') s).filter isSolid
      = s.filter isSolid := by
    intro s
    have hspaces : (s.reverse.takeWhile (· == ' ')).filter isSolid = [] := by
      rw [List.filter_eq_nil_iff]
      intro c hc
      have hspace := List.all_eq_true.mp List.all_takeWhile c hc
      rw [beq_iff_eq.mp hspace]
      decide
    have hparts := congrArg (List.filter isSolid)
      (List.takeWhile_append_dropWhile (p := (· == ' ')) (l := s.reverse))
    rw [List.filter_append, hspaces, List.nil_append, List.filter_reverse] at hparts
    rw [Text.dropRightWhile, List.filter_reverse, hparts, List.reverse_reverse]
  rw [cleaned, hright, filter_isSolid_expandTabsFrom, filter_isSolid_formless]

end Line

/-! ## Lines -/

open Line (isSolid)

/-- Nor with newlines. -/
theorem filter_isSolid_normalizeNewlines (s : List Char) :
    (normalizeNewlines s).filter isSolid = s.filter isSolid := by
  fun_induction normalizeNewlines s with
  | case1 => rfl
  | case2 rest ih => exact ih
  | case3 rest _ ih => exact ih
  | case4 c rest _ _ ih => rw [List.filter_cons, List.filter_cons, ih]

/-- Nor is it between the pieces. -/
theorem filter_isSolid_splitOn (s : List Char) :
    (Text.splitOn '\n' s).flatten.filter isSolid = s.filter isSolid := by
  induction s with
  | nil => rfl
  | cons c s ih =>
    by_cases hc : c = '\n'
    · subst hc
      exact ih
    · rw [Text.splitOn, if_neg hc]
      obtain ⟨first, more, hpieces⟩ := List.exists_cons_of_ne_nil (Text.splitOn_ne_nil '\n' s)
      rw [hpieces] at ih ⊢
      rw [List.filter_cons, ← ih]
      exact List.filter_cons

/-- Nor between the lines. -/
theorem filter_isSolid_rawLines (s : List Char) :
    (rawLines s).flatten.filter isSolid = s.filter isSolid := by
  rw [← filter_isSolid_splitOn s]
  unfold rawLines
  dsimp only
  split
  · rename_i hlast
    -- only an empty piece is left out
    have hparts := List.dropLast_concat_getLast (Text.splitOn_ne_nil '\n' s)
    rw [List.getLast?_eq_some_getLast (Text.splitOn_ne_nil '\n' s)] at hlast
    rw [Option.some.inj hlast] at hparts
    conv_rhs => rw [← hparts]
    rw [List.flatten_append]
    simp
  · rfl

/-- The pieces of a text are cleaned one after the other. -/
theorem splitLines?_eq_mapM (width : Int) (text : List Char) :
    splitLines? width text
      = (rawLines (normalizeNewlines (Text.dropMark text))).mapM (cleanLine? width) := by
  rw [← dropMark_normalizeNewlines]
  unfold splitLines?
  dsimp only
  split
  · rename_i hmark
    rw [hmark]
    rfl
  · rename_i hmark
    rw [Text.dropMark]
    exact hmark

/-- The lines of a text are its pieces, each cleaned by itself. -/
theorem eq_cleaned_of_splitLines? {width : Int} (hwidth : 0 < width) {text : List Char}
    {lines : List Line} (h : splitLines? width text = some lines) :
    lines = (rawLines (normalizeNewlines (Text.dropMark text))).map (Line.cleaned width.toNat) := by
  rw [splitLines?_eq_mapM] at h
  generalize rawLines (normalizeNewlines (Text.dropMark text)) = raws at h
  induction raws generalizing lines with
  | nil => exact (Option.some.inj h).symm
  | cons raw raws ih =>
    rw [List.mapM_cons] at h
    obtain ⟨line, hline, h⟩ := Option.bind_eq_some_iff.mp h
    obtain ⟨rest, hrest, h⟩ := Option.bind_eq_some_iff.mp h
    rw [List.map_cons, ← Line.eq_cleaned_of_cleanLine? hwidth hline, ← ih hrest]
    exact (Option.some.inj h).symm

/-- **A text is split into clean lines, however its newlines are written.**
    There are lines unless a tab asks for more spaces than can be written.  No
    line holds a newline, a tab or a form feed or ends with a space, and all
    but white space is kept in its order.  A text without carriage returns
    has the same lines when its line feeds are written in another way; their
    number is that of the line feeds, and one more if something follows the
    last. -/
theorem splitLines?_normalizes {width : Int} (hwidth : 0 < width) (text : List Char) :
    (('\t' ∈ text → width ≤ longestRun) → (splitLines? width text).isSome) ∧
      ('\r' ∉ text →
        splitLines? width (Text.replaceChar '\n' ['\r', '\n'] text) = splitLines? width text ∧
        splitLines? width (Text.replaceChar '\n' ['\r'] text) = splitLines? width text) ∧
      ∀ lines, splitLines? width text = some lines →
        (∀ l ∈ lines, l.Clean) ∧
        lines.flatten.filter isSolid = (Text.dropMark text).filter isSolid ∧
        ('\r' ∉ text →
          let body := Text.dropMark text
          lines.length
            = body.count '\n' + if body ≠ [] ∧ body.getLast? ≠ some '\n' then 1 else 0) := by
  have hcongr : ∀ {other : List Char}, normalizeNewlines other = normalizeNewlines text →
      splitLines? width other = splitLines? width text := by
    intro other h
    unfold splitLines?
    rw [h]
  refine ⟨fun hle => splitLines?_isSome fun htab => ⟨hwidth, hle htab⟩, fun hreturn => ?_,
    fun lines hlines => ?_⟩
  · have hsame := normalizeNewlines_eq hreturn
    exact ⟨hcongr ((normalizeNewlines_replaceChar (.inl rfl) hreturn).trans hsame.symm),
      hcongr ((normalizeNewlines_replaceChar (.inr rfl) hreturn).trans hsame.symm)⟩
  obtain rfl := eq_cleaned_of_splitLines? hwidth hlines
  refine ⟨?_, ?_, fun hreturn => ?_⟩
  · intro l hl
    obtain ⟨raw, hraw, rfl⟩ := List.mem_map.mp hl
    have hpiece := rawLines_subset _ hraw
    refine Line.clean_cleaned _ (Text.not_mem_of_mem_splitOn hpiece) fun hmem => ?_
    exact not_mem_normalizeNewlines _ (Text.mem_of_mem_splitOn hpiece hmem)
  · have hcleaned : ∀ raws : List (List Char),
        (raws.map (Line.cleaned width.toNat)).flatten.filter isSolid
          = raws.flatten.filter isSolid := by
      intro raws
      rw [List.filter_flatten, List.filter_flatten, List.map_map]
      exact congrArg List.flatten
        (List.map_congr_left fun raw _ => Line.filter_isSolid_cleaned _ raw)
    rw [hcleaned, filter_isSolid_rawLines, filter_isSolid_normalizeNewlines]
  · have hbody : '\r' ∉ Text.dropMark text := fun hmem =>
      hreturn ((Text.dropMark_suffix text).subset hmem)
    rw [List.length_map, normalizeNewlines_eq hbody]
    exact length_rawLines _

/-- A text with a mark, a tab, spaces at the end of a line, and an empty line;
    its last line is not ended. -/
theorem splitLines?_normalizes_unended :
    let text := "\ufeffa\tb  \n\n\x0bc".toList
    ∃ lines, splitLines? 4 text = some lines ∧
      splitLines? 4 (Text.replaceChar '\n' ['\r'] text) = some lines ∧ lines.length = 3 := by
  intro text
  obtain ⟨hsplit, hnewlines, hclean⟩ := splitLines?_normalizes (show (0 : Int) < 4 by decide) text
  obtain ⟨lines, hlines⟩ := Option.isSome_iff_exists.mp (hsplit fun _ => by decide)
  obtain ⟨-, -, hlength⟩ := hclean lines hlines
  refine ⟨lines, hlines, ?_, (hlength (by decide +kernel)).trans (by decide +kernel)⟩
  rw [(hnewlines (by decide +kernel)).2, hlines]

end MarkupLint
