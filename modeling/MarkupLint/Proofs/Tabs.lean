import Mathlib.Data.Nat.ModEq
import MarkupLint.Proofs.Lines

/-! # Tab stops

    A body is split into lines before its tabs are expanded; a literal text
    is expanded as it stands, and the column goes on across the ends of its
    lines.  So its lines come out as those of a body do exactly if every
    line with a tab happens to start at a tab stop
    (`expandTabs?_eq_joinLines`). -/

namespace MarkupLint

variable {width col : Nat} {s t l : List Char} {lines : List Line}

/-! ## One text -/

theorem expandTabsFrom_tab (width col : Nat) (s : List Char) :
    expandTabsFrom width col ('\t' :: s) =
      List.replicate (width - col % width) ' ' ++
        expandTabsFrom width (col + (width - col % width)) s := rfl

theorem expandTabsFrom_cons {c : Char} (hc : c ≠ '\t') (width col : Nat) (s : List Char) :
    expandTabsFrom width col (c :: s) = c :: expandTabsFrom width (col + 1) s := by
  rw [expandTabsFrom, if_neg hc]

theorem expandTabsFrom_append (width col : Nat) (s t : List Char) :
    expandTabsFrom width col (s ++ t) = expandTabsFrom width col s ++
      expandTabsFrom width (col + (expandTabsFrom width col s).length) t := by
  induction s generalizing col with
  | nil => rfl
  | cons c s ih =>
    by_cases hc : c = '\t'
    · subst hc
      rw [List.cons_append, expandTabsFrom_tab, expandTabsFrom_tab, ih, List.append_assoc,
        List.length_append, List.length_replicate, Nat.add_assoc col]
    · rw [List.cons_append, expandTabsFrom_cons hc, expandTabsFrom_cons hc, ih, List.cons_append,
        List.length_cons, Nat.add_assoc col, Nat.add_comm 1]

/-- A text without tabs is expanded already. -/
theorem expandTabsFrom_of_not_mem (h : '\t' ∉ s) (width col : Nat) :
    expandTabsFrom width col s = s := by
  induction s generalizing col with
  | nil => rfl
  | cons c s ih =>
    obtain ⟨hc, hs⟩ := List.ne_and_not_mem_of_not_mem_cons h
    rw [expandTabsFrom_cons (Ne.symm hc), ih hs]

/-- Expanding tabs puts spaces into a text and nothing else. -/
theorem mem_of_mem_expandTabsFrom {c : Char} (hc : c ∈ expandTabsFrom width col s) :
    c = ' ' ∨ c ∈ s := by
  induction s generalizing col with
  | nil => cases hc
  | cons b s ih =>
    by_cases hb : b = '\t'
    · subst hb
      rw [expandTabsFrom_tab] at hc
      rcases List.mem_append.mp hc with hc | hc
      · exact .inl (List.eq_of_mem_replicate hc)
      · exact (ih hc).imp_right (List.mem_cons_of_mem _)
    · rw [expandTabsFrom_cons hb] at hc
      rcases List.mem_cons.mp hc with rfl | hc
      · exact .inr List.mem_cons_self
      · exact (ih hc).imp_right (List.mem_cons_of_mem _)

/-- A tab ends at a tab stop. -/
theorem tab_stop (hwidth : 0 < width) (col : Nat) : width ∣ col + (width - col % width) := by
  have hlt := Nat.mod_lt col hwidth
  have hparts := Nat.div_add_mod col width
  exact ⟨col / width + 1, by rw [Nat.mul_add, Nat.mul_one]; omega⟩

/-- Columns as far from a tab stop give the same text. -/
theorem expandTabsFrom_congr {col' : Nat} (h : col % width = col' % width) (s : List Char) :
    expandTabsFrom width col s = expandTabsFrom width col' s := by
  induction s generalizing col col' with
  | nil => rfl
  | cons c s ih =>
    by_cases hc : c = '\t'
    · subst hc
      rw [expandTabsFrom_tab, expandTabsFrom_tab, h, ih (Nat.add_mod_eq_add_mod_right _ h)]
    · rw [expandTabsFrom_cons hc, expandTabsFrom_cons hc, ih (Nat.add_mod_eq_add_mod_right 1 h)]

/-- From a tab stop on, a text is expanded as from column 0. -/
theorem expandTabsFrom_of_dvd (h : width ∣ col) (s : List Char) :
    expandTabsFrom width col s = expandTabsFrom width 0 s :=
  expandTabsFrom_congr (by rw [Nat.mod_eq_zero_of_dvd h, Nat.zero_mod]) s

/-- A line with a tab is expanded as from column 0 only where it starts at a
    tab stop. -/
theorem expandTabsFrom_eq_iff (hwidth : 0 < width) (col : Nat) (l : Line) :
    expandTabsFrom width col l = expandTabsFrom width 0 l ↔ ('\t' ∈ l → width ∣ col) := by
  by_cases htab : '\t' ∈ l
  · refine ⟨fun h _ => ?_, fun h => expandTabsFrom_of_dvd (h htab) l⟩
    -- up to the first tab the texts agree, and behind it both go on from a tab stop
    obtain ⟨before, after, rfl, hbefore⟩ := List.eq_append_cons_of_mem htab
    simp only [expandTabsFrom_append, expandTabsFrom_of_not_mem hbefore, expandTabsFrom_tab,
      List.append_cancel_left_eq, expandTabsFrom_of_dvd (tab_stop hwidth _),
      List.append_cancel_right_eq, List.replicate_inj] at h
    have hmod : (col + before.length) % width = (0 + before.length) % width := by
      have hleft := Nat.mod_lt (col + before.length) hwidth
      have hright := Nat.mod_lt (0 + before.length) hwidth
      omega
    exact (Nat.modEq_zero_iff_dvd).mp (Nat.ModEq.add_right_cancel' _ hmod)
  · simp [htab, expandTabsFrom_of_not_mem htab]

/-! ## A text of several lines -/

/-- The columns that lines start in if counting goes on from one to the
    next. -/
def startColumns (width : Nat) : Nat → List Line → List Nat
  | _, [] => []
  | col, l :: lines =>
    col :: startColumns width (col + (expandTabsFrom width col l).length + 1) lines

/-- The lines expanded from those columns. -/
def expandOn (width col : Nat) (lines : List Line) : List Line :=
  List.zipWith (expandTabsFrom width) (startColumns width col lines) lines

theorem expandOn_cons (width col : Nat) (l : Line) (lines : List Line) :
    expandOn width col (l :: lines) = expandTabsFrom width col l ::
      expandOn width (col + (expandTabsFrom width col l).length + 1) lines := rfl

/-- Expanding a text as it stands expands every line from the column where
    it starts. -/
theorem expandTabsFrom_joinLines (width col : Nat) (lines : List Line) :
    expandTabsFrom width col (Line.joinLines lines) = Line.joinLines (expandOn width col lines) := by
  induction lines generalizing col with
  | nil => rfl
  | cons l lines ih =>
    cases lines with
    | nil => simp [Line.joinLines, expandOn, startColumns]
    | cons m lines =>
      rw [Line.joinLines_cons_cons, expandTabsFrom_append, expandTabsFrom_cons (by decide), ih]
      exact (Line.joinLines_cons_cons _ _ _).symm

theorem mem_expandOn (h : l ∈ expandOn width col lines) :
    ∃ start, ∃ m ∈ lines, l = expandTabsFrom width start m := by
  induction lines generalizing col with
  | nil => cases h
  | cons m lines ih =>
    rw [expandOn_cons] at h
    rcases List.mem_cons.mp h with rfl | h
    · exact ⟨col, m, List.mem_cons_self, rfl⟩
    · obtain ⟨start, m', hm', rfl⟩ := ih h
      exact ⟨start, m', List.mem_cons_of_mem _ hm', rfl⟩

/-- The lines come out as from column 0 exactly if those with a tab start at
    tab stops. -/
theorem expandOn_eq_map_iff (hwidth : 0 < width) (col : Nat) (lines : List Line) :
    expandOn width col lines = lines.map (expandTabsFrom width 0) ↔
      ∀ p ∈ (startColumns width col lines).zip lines, '\t' ∈ p.2 → width ∣ p.1 := by
  induction lines generalizing col with
  | nil => simp [expandOn, startColumns]
  | cons l lines ih =>
    rw [expandOn_cons, List.map_cons, List.cons.injEq, ih, expandTabsFrom_eq_iff hwidth, startColumns,
      List.zip_cons_cons, List.forall_mem_cons]

/-- Lines can be told apart in the text they make up. -/
theorem joinLines_inj {as bs : List Line} (ha : ∀ l ∈ as, '\n' ∉ l) (hb : ∀ l ∈ bs, '\n' ∉ l)
    (hane : as ≠ []) (hbne : bs ≠ []) : Line.joinLines as = Line.joinLines bs ↔ as = bs := by
  refine ⟨fun h => ?_, congrArg _⟩
  rw [← List.splitOn_intercalate '\n' ha hane, ← List.splitOn_intercalate '\n' hb hbne]
  exact congrArg (List.splitOn '\n') h

/-! ## Runs that are not too long -/

theorem tabsFit_tab (width col : Nat) (s : List Char) :
    tabsFit width col ('\t' :: s) =
      (decide (width - col % width ≤ longestRun) &&
        tabsFit width (col + (width - col % width)) s) := rfl

theorem tabsFit_cons {c : Char} (hc : c ≠ '\t') (width col : Nat) (s : List Char) :
    tabsFit width col (c :: s) = tabsFit width (col + 1) s := by
  rw [tabsFit, if_neg hc]

theorem tabsFit_append (width col : Nat) (s t : List Char) :
    tabsFit width col (s ++ t) =
      (tabsFit width col s && tabsFit width (col + (expandTabsFrom width col s).length) t) := by
  induction s generalizing col with
  | nil => rfl
  | cons c s ih =>
    by_cases hc : c = '\t'
    · subst hc
      rw [List.cons_append, tabsFit_tab, tabsFit_tab, ih, expandTabsFrom_tab, List.length_append,
        List.length_replicate, Nat.add_assoc col, Bool.and_assoc]
    · rw [List.cons_append, tabsFit_cons hc, tabsFit_cons hc, ih, expandTabsFrom_cons hc,
        List.length_cons, Nat.add_assoc col, Nat.add_comm 1]

theorem tabsFit_of_not_mem (h : '\t' ∉ s) (width col : Nat) : tabsFit width col s = true := by
  induction s generalizing col with
  | nil => rfl
  | cons c s ih =>
    obtain ⟨hc, hs⟩ := List.ne_and_not_mem_of_not_mem_cons h
    rw [tabsFit_cons (Ne.symm hc), ih hs]

/-- Columns as far from a tab stop ask for the same runs. -/
theorem tabsFit_congr {col' : Nat} (h : col % width = col' % width) (s : List Char) :
    tabsFit width col s = tabsFit width col' s := by
  induction s generalizing col col' with
  | nil => rfl
  | cons c s ih =>
    by_cases hc : c = '\t'
    · subst hc
      rw [tabsFit_tab, tabsFit_tab, h, ih (Nat.add_mod_eq_add_mod_right _ h)]
    · rw [tabsFit_cons hc, tabsFit_cons hc, ih (Nat.add_mod_eq_add_mod_right 1 h)]

theorem tabsFit_of_dvd (h : width ∣ col) (s : List Char) :
    tabsFit width col s = tabsFit width 0 s :=
  tabsFit_congr (by rw [Nat.mod_eq_zero_of_dvd h, Nat.zero_mod]) s

/-! ## Literal texts -/

/-- A text with an expansion has the one that is made from column 0. -/
theorem expandTabs?_eq_some_iff {width : Int} (hwidth : 0 < width) {s shown : List Char} :
    expandTabs? width s = some shown ↔
      tabsFit width.toNat 0 s = true ∧ shown = expandTabsFrom width.toNat 0 s := by
  by_cases htab : '\t' ∈ s
  · cases hfit : tabsFit width.toNat 0 s <;> simp [expandTabs?, htab, hwidth, hfit, eq_comm]
  · simp [expandTabs?, htab, tabsFit_of_not_mem htab, expandTabsFrom_of_not_mem htab, eq_comm]

/-- The lines of a text, each expanded by itself. -/
theorem eq_map_of_mapM_expandTabs? {width : Int} (hwidth : 0 < width) {lines each : List Line}
    (h : lines.mapM (expandTabs? width) = some each) :
    (∀ l ∈ lines, tabsFit width.toNat 0 l = true) ∧
      each = lines.map (expandTabsFrom width.toNat 0) := by
  induction lines generalizing each with
  | nil => exact ⟨List.forall_mem_nil _, (Option.some.inj h).symm⟩
  | cons l lines ih =>
    rw [List.mapM_cons] at h
    obtain ⟨shown, hl, h⟩ := Option.bind_eq_some_iff.mp h
    obtain ⟨more, hlines, h⟩ := Option.bind_eq_some_iff.mp h
    obtain ⟨hfit, rfl⟩ := (expandTabs?_eq_some_iff hwidth).mp hl
    obtain ⟨hfits, rfl⟩ := ih hlines
    exact ⟨List.forall_mem_cons.mpr ⟨hfit, hfits⟩, (Option.some.inj h).symm⟩

theorem isSome_mapM_expandTabs? {width : Int} (hwidth : 0 < width) (hle : width ≤ longestRun)
    (lines : List Line) : (lines.mapM (expandTabs? width)).isSome := by
  induction lines with
  | nil => rfl
  | cons l lines ih =>
    have hline : (expandTabs? width l).isSome := expandTabs?_isSome fun _ => ⟨hwidth, hle⟩
    obtain ⟨shown, hshown⟩ := Option.isSome_iff_exists.mp hline
    obtain ⟨more, hmore⟩ := Option.isSome_iff_exists.mp ih
    rw [List.mapM_cons, hshown, hmore]
    rfl

/-- A line expanded by itself goes on from every tab at the next tab stop. -/
theorem expandTabs?_tab {width : Int} (hwidth : 0 < width) {before after : List Char}
    (hfit : tabsFit width.toNat 0 (before ++ '\t' :: after) = true) :
    ∃ shown rest n, expandTabs? width before = some shown ∧ expandTabs? width after = some rest ∧
      expandTabs? width (before ++ '\t' :: after) = some (shown ++ (List.replicate n ' ' ++ rest)) ∧
      0 < n ∧ n ≤ width ∧ width ∣ shown.length + n := by
  have hpos : 0 < width.toNat := by omega
  let shown := expandTabsFrom width.toNat 0 before
  have hstop := tab_stop hpos shown.length
  have hlt := Nat.mod_lt shown.length hpos
  have hparts := hfit
  rw [tabsFit_append, Nat.zero_add, tabsFit_tab, tabsFit_of_dvd hstop, Bool.and_eq_true,
    Bool.and_eq_true] at hparts
  refine ⟨shown, expandTabsFrom width.toNat 0 after, width.toNat - shown.length % width.toNat,
    (expandTabs?_eq_some_iff hwidth).mpr ⟨hparts.1, rfl⟩,
    (expandTabs?_eq_some_iff hwidth).mpr ⟨hparts.2.2, rfl⟩,
    (expandTabs?_eq_some_iff hwidth).mpr ⟨hfit, ?_⟩, by omega, by omega, ?_⟩
  · rw [expandTabsFrom_append, Nat.zero_add, expandTabsFrom_tab, expandTabsFrom_of_dvd hstop]
  · have hcast : ((width.toNat : Nat) : Int) = width := Int.toNat_of_nonneg hwidth.le
    rw [← hcast]
    exact_mod_cast hstop

/-- **A literal text is expanded across its lines.**  A text and its lines
    have expansions unless a tab asks for more spaces than there can be.
    Then each line of the text is expanded from the column that the lines
    before it led to, and the text is what its lines make up when each is
    expanded by itself, as those of a body are, exactly if every line with a
    tab starts at a tab stop.  In a line by itself, every tab goes on to the
    next tab stop. -/
theorem expandTabs?_eq_joinLines {width : Int} (hwidth : 0 < width) (text : List Char) :
    let lines := Text.splitOn '\n' text
    (width ≤ longestRun →
      (expandTabs? width text).isSome ∧ (lines.mapM (expandTabs? width)).isSome) ∧
    (∀ shown, expandTabs? width text = some shown →
      shown = Line.joinLines (expandOn width.toNat 0 lines)) ∧
    ∀ each, lines.mapM (expandTabs? width) = some each →
      (∀ shown, expandTabs? width text = some shown →
        (shown = Line.joinLines each ↔
          ∀ p ∈ (startColumns width.toNat 0 lines).zip lines, '\t' ∈ p.2 → width.toNat ∣ p.1)) ∧
      ∀ before after, before ++ '\t' :: after ∈ lines →
        ∃ shown rest n, expandTabs? width before = some shown ∧
          expandTabs? width after = some rest ∧
          expandTabs? width (before ++ '\t' :: after) =
            some (shown ++ (List.replicate n ' ' ++ rest)) ∧
          0 < n ∧ n ≤ width ∧ width ∣ shown.length + n := by
  intro lines
  have hpos : 0 < width.toNat := by omega
  have htext : ∀ shown, expandTabs? width text = some shown →
      shown = Line.joinLines (expandOn width.toNat 0 lines) := by
    intro shown h
    rw [((expandTabs?_eq_some_iff hwidth).mp h).2, ← expandTabsFrom_joinLines]
    exact congrArg (expandTabsFrom _ _) (Text.intercalate_splitOn '\n' text).symm
  refine ⟨fun hle => ⟨expandTabs?_isSome fun _ => ⟨hwidth, hle⟩,
    isSome_mapM_expandTabs? hwidth hle lines⟩, htext, fun each heach => ?_⟩
  obtain ⟨hfits, rfl⟩ := eq_map_of_mapM_expandTabs? hwidth heach
  refine ⟨fun shown h => ?_, fun before after hmem => expandTabs?_tab hwidth (hfits _ hmem)⟩
  have hunbroken : ∀ col, ∀ l ∈ lines, '\n' ∉ expandTabsFrom width.toNat col l := fun col l hl hmem =>
    (mem_of_mem_expandTabsFrom hmem).elim (by decide) (Text.not_mem_of_mem_splitOn hl)
  have hon : ∀ l ∈ expandOn width.toNat 0 lines, '\n' ∉ l := by
    intro l hl
    obtain ⟨col, m, hm, rfl⟩ := mem_expandOn hl
    exact hunbroken col m hm
  have hline : ∀ l ∈ lines.map (expandTabsFrom width.toNat 0), '\n' ∉ l :=
    List.forall_mem_map.mpr (hunbroken 0)
  obtain ⟨first, more, hcons⟩ := List.exists_cons_of_ne_nil (Text.splitOn_ne_nil '\n' text)
  have hne : expandOn width.toNat 0 lines ≠ [] ∧ lines.map (expandTabsFrom width.toNat 0) ≠ [] := by
    simp [lines, hcons, expandOn_cons]
  rw [htext shown h, joinLines_inj hon hline hne.1 hne.2, expandOn_eq_map_iff hpos]

/-- A second line that starts at a tab stop. -/
theorem expandTabs?_eq_joinLines_aligned :
    let text := "abc\n\tx".toList
    expandTabs? 4 text = some "abc\n    x".toList ∧
      (Text.splitOn '\n' text).mapM (expandTabs? 4) = some ["abc".toList, "    x".toList] ∧
      "abc\n    x".toList = Line.joinLines ["abc".toList, "    x".toList] := by
  intro text
  have htext : expandTabs? 4 text = some "abc\n    x".toList := by decide +kernel
  have heach : (Text.splitOn '\n' text).mapM (expandTabs? 4)
      = some ["abc".toList, "    x".toList] := by decide +kernel
  exact ⟨htext, heach,
    (((expandTabs?_eq_joinLines (by decide) text).2.2 _ heach).1 _ htext).mpr (by decide +kernel)⟩

/-- A tab in the second line of a literal text may pass the tab stop. -/
theorem expandTabs?_passes_tab_stop :
    ¬∀ (width : Int) (text : List Char), 0 < width →
      expandTabs? width text =
        ((Text.splitOn '\n' text).mapM (expandTabs? width)).map Line.joinLines := by
  intro hall
  have h := hall 8 "x\n\ty".toList (by decide)
  exact absurd h (by decide +kernel)

end MarkupLint
