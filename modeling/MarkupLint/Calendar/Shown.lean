import MarkupLint.Calendar.Format
import MarkupLint.Text.Blank

/-! # What dates show

    A date is different at different moments, but there is always something
    to see of a day, a month or a number.  So what a format gives at one
    moment and at another is alike: which parts of a date can be seen is a
    matter of the format alone. -/

namespace MarkupLint

namespace Text

/-- There is something to see in a text. -/
def Visible (s : List Char) : Prop := ∃ c ∈ s, isBlankChar c = false

@[simp] theorem visible_cons {c : Char} {s : List Char} :
    Visible (c :: s) ↔ isBlankChar c = false ∨ Visible s := by
  simp [Visible]

@[simp] theorem visible_append {s t : List Char} : Visible (s ++ t) ↔ Visible s ∨ Visible t := by
  simp only [Visible, List.mem_append]
  constructor
  · rintro ⟨c, hc | hc, hblank⟩
    · exact .inl ⟨c, hc, hblank⟩
    · exact .inr ⟨c, hc, hblank⟩
  · rintro (⟨c, hc, hblank⟩ | ⟨c, hc, hblank⟩)
    · exact ⟨c, .inl hc, hblank⟩
    · exact ⟨c, .inr hc, hblank⟩

/-- A digit is seen. -/
theorem not_isBlankChar_of_isDigit {c : Char} (h : c.isDigit = true) : isBlankChar c = false := by
  obtain ⟨hlow, hhigh⟩ := Char.isDigit_iff_toNat.mp h
  have hzero : ('0' : Char).toNat = 48 := rfl
  have hnine : ('9' : Char).toNat = 57 := rfl
  have hascii : c.toNat < 0x80 := by omega
  simp only [isBlankChar, if_pos hascii, Bool.or_eq_false_iff, beq_eq_false_iff_ne, ne_eq,
    decide_eq_false_iff_not]
  omega

/-- Two texts of which neither or both hold anything, and anything to see. -/
structure LookAlike (s t : List Char) : Prop where
  isEmpty : s.isEmpty = t.isEmpty
  isBlank : isBlank s = isBlank t

theorem LookAlike.refl (s : List Char) : LookAlike s s := ⟨rfl, rfl⟩

/-- Texts alike one after the other are alike. -/
theorem LookAlike.append {s s' t t' : List Char} (hs : LookAlike s s') (ht : LookAlike t t') :
    LookAlike (s ++ t) (s' ++ t') where
  isEmpty := by
    have hfirst := hs.isEmpty
    have hsecond := ht.isEmpty
    cases s <;> cases s' <;> simp_all
  isBlank := by
    have hsblank := hs.isBlank
    have htblank := ht.isBlank
    simp only [Text.isBlank] at hsblank htblank
    simp only [Text.isBlank, List.all_append, hsblank, htblank]

/-- A text that shows is not blank. -/
theorem isBlank_of_visible {s : List Char} (h : Visible s) : isBlank s = false := by
  obtain ⟨c, hc, hblank⟩ := h
  rw [isBlank, List.all_eq_false]
  exact ⟨c, hc, by simp [hblank]⟩

/-- Two that show are alike. -/
theorem LookAlike.of_visible {s t : List Char} (hs : Visible s) (ht : Visible t) :
    LookAlike s t where
  isEmpty := by
    obtain ⟨c, hc, -⟩ := hs
    obtain ⟨d, hd, -⟩ := ht
    rw [List.isEmpty_eq_false_iff.mpr (List.ne_nil_of_mem hc),
      List.isEmpty_eq_false_iff.mpr (List.ne_nil_of_mem hd)]
  isBlank := by rw [isBlank_of_visible hs, isBlank_of_visible ht]

/-- The digits of a number can be seen, every one of them. -/
theorem not_isBlankChar_of_mem_toDigits {n : Nat} {c : Char} (h : c ∈ Nat.toDigits 10 n) :
    isBlankChar c = false :=
  not_isBlankChar_of_isDigit (Nat.isDigit_of_mem_toDigits (by decide) (by decide) h)

/-- Every number shows. -/
theorem visible_toDigits (n : Nat) : Visible (Nat.toDigits 10 n) := by
  obtain ⟨c, rest, h⟩ := List.exists_cons_of_ne_nil (Nat.toDigits_ne_nil (n := n) (b := 10))
  have hc : c ∈ Nat.toDigits 10 n := by simp [h]
  exact ⟨c, hc, not_isBlankChar_of_mem_toDigits hc⟩

@[simp] theorem visible_natText (n : Nat) : Visible (natText n).toList := by
  simpa [natText] using visible_toDigits n

@[simp] theorem visible_intText (n : Int) : Visible (intText n).toList := by
  cases n with
  | ofNat k => simpa [intText] using visible_toDigits k
  | negSucc k => simpa [intText] using .inr (visible_toDigits (k + 1))

end Text

namespace Calendar

open Text

/-! ## Moments -/

/-- The month of a moment is one of the twelve. -/
def Moment.Civil (m : Moment) : Prop := 1 ≤ m.month ∧ m.month ≤ 12

/-- Every day falls in a month from 1 to 12. -/
theorem civil_month (days : Int) : 1 ≤ (civil days).2.1 ∧ (civil days).2.1 ≤ 12 := by
  simp only [civil]
  generalize hdoe : (days + daysBeforeEra - (days + daysBeforeEra).fdiv 146097 * 146097).toNat = doe
  have hrange : doe < 146097 := by
    have hmod := Int.fmod_lt_of_pos (days + daysBeforeEra) (show (0 : Int) < 146097 by decide)
    have hdef := Int.fmod_def (days + daysBeforeEra) 146097
    omega
  -- The days of a year that starts in March are fewer than twice those of a year.
  have hday : doe - (365 * ((doe - doe / 1460 + doe / 36524 - doe / 146096) / 365)
      + (doe - doe / 1460 + doe / 36524 - doe / 146096) / 365 / 4
      - (doe - doe / 1460 + doe / 36524 - doe / 146096) / 365 / 100) < 673 := by
    omega
  generalize doe - _ = doy at hday ⊢
  split <;> omega

theorem Moment.civil_ofSeconds (seconds : Int) : (Moment.ofSeconds seconds).Civil :=
  civil_month (seconds.fdiv 86400)

/-- A day of the week is below seven. -/
theorem Moment.weekday_lt (m : Moment) : m.weekday < 7 := by
  have hlow := Int.emod_nonneg (m.seconds.fdiv 86400 + 4) (show (7 : Int) ≠ 0 by decide)
  have hhigh := Int.emod_lt_of_pos (m.seconds.fdiv 86400 + 4) (show (0 : Int) < 7 by decide)
  simp only [weekday]
  omega

/-! ## Parts of a date -/

/-- Numbers of two digits show, whatever fills them. -/
@[simp] theorem visible_twoDigits (fill : Fill) (n : Nat) : Visible (twoDigits fill n) := by
  simp only [twoDigits]
  split
  · exact visible_natText n
  · cases fill with
    | zero => exact visible_cons.mpr (.inr (visible_natText n))
    | space => exact visible_cons.mpr (.inr (visible_natText n))
    | nothing => exact visible_natText n

@[simp] theorem visible_shortYear (year : Int) : Visible (shortYear year) := visible_twoDigits _ _

/-- So do wide numbers. -/
@[simp] theorem visible_wide (width : Nat) (n : Int) : Visible (wide width n) := by
  simp [wide]

/-- Every character of a filled number can be seen. -/
theorem not_isBlankChar_of_mem_wide {width : Nat} {n : Int} {c : Char} (h : c ∈ wide width n) :
    isBlankChar c = false := by
  simp only [wide, List.mem_append, Text.natText, String.toList_ofList] at h
  rcases h with (h | h) | h
  · split at h
    · obtain rfl := List.mem_singleton.mp h
      decide
    · cases h
  · obtain rfl := List.eq_of_mem_replicate h
    decide
  · exact not_isBlankChar_of_mem_toDigits h

/-- They are as wide as was asked for. -/
theorem length_wide (width : Nat) (n : Int) : width ≤ (wide width n).length := by
  simp only [wide, List.length_append, List.length_replicate]
  omega

/-- Two digits less of a filled number still show something. -/
@[simp] theorem visible_century (year : Int) : Visible (wide 4 year).dropLast.dropLast := by
  have hlength : 0 < (wide 4 year).dropLast.dropLast.length := by
    have := length_wide 4 year
    simp only [List.length_dropLast]
    omega
  obtain ⟨c, hc⟩ := List.exists_mem_of_length_pos hlength
  have hwide : c ∈ wide 4 year := List.dropLast_subset _ (List.dropLast_subset _ hc)
  exact ⟨c, hc, not_isBlankChar_of_mem_wide hwide⟩

/-- Either half of the day shows, in either case. -/
@[simp] theorem visible_half (m : Moment) :
    Visible (half m) ∧ Visible ((half m).map Char.toLower) := by
  simp only [half]
  split
  · exact ⟨⟨'A', by decide, by decide⟩, ⟨'a', by decide, by decide⟩⟩
  · exact ⟨⟨'P', by decide, by decide⟩, ⟨'p', by decide, by decide⟩⟩

/-- The names of the days and of the months start with something to see. -/
theorem visible_name {names : List String} {i : Nat} (hi : i < names.length)
    (hnames : ∀ s ∈ names, s.toList.head?.any (!isBlankChar ·) = true) :
    Visible ((names[i]?).getD "").toList ∧ Visible (abbreviated names i) := by
  have hfirst := hnames names[i] (List.getElem_mem hi)
  obtain ⟨c, rest, hlist, hblank⟩ :
      ∃ c rest, names[i].toList = c :: rest ∧ isBlankChar c = false := by
    cases hlist : names[i].toList with
    | nil => simp [hlist] at hfirst
    | cons c rest => exact ⟨c, rest, rfl, by simpa [hlist] using hfirst⟩
  simp only [abbreviated, List.getElem?_eq_getElem hi, Option.getD_some, hlist]
  exact ⟨visible_cons.mpr (.inl hblank), visible_cons.mpr (.inl hblank)⟩

/-- Every day has a name, short and long. -/
theorem visible_day (m : Moment) : Visible ((dayNames[m.weekday]?).getD "").toList
    ∧ Visible (abbreviated dayNames m.weekday) := by
  refine visible_name m.weekday_lt ?_
  decide

/-- So has every month. -/
theorem visible_month {m : Moment} (hm : m.Civil) :
    Visible ((monthNames[m.month - 1]?).getD "").toList
      ∧ Visible (abbreviated monthNames (m.month - 1)) := by
  refine visible_name ?_ ?_
  · show m.month - 1 < 12
    have := hm.1
    have := hm.2
    omega
  · decide

/-- What is shown of a moment can be seen. -/
theorem visible_field {flag : Option Char} {letter : Char} {f : Moment → List Char}
    (h : field? flag letter = some f) {m : Moment} (hm : m.Civil) : Visible (f m) := by
  have hday := visible_day m
  have hmonth := visible_month hm
  have hhalf := visible_half m
  simp only [field?] at h
  have hyearDay : Visible (if flag = some '-' then (natText m.yearDay).toList
      else wide 3 m.yearDay) := by
    split
    · exact visible_natText _
    · exact visible_wide _ _
  split at h <;> cases h
  all_goals simp [stamp, clock, isoDate, hday, hmonth, hhalf, hyearDay]

/-- What a letter stands for looks alike at any two moments. -/
theorem lookAlike_directive {m m' : Moment} (hm : m.Civil) (hm' : m'.Civil) (flag : Option Char)
    (letter : Char) (usual : List Char) :
    LookAlike ((directive? m flag letter).getD usual) ((directive? m' flag letter).getD usual) := by
  simp only [directive?]
  cases fixed? flag letter with
  | some s => exact .refl s
  | none =>
    cases hf : field? flag letter with
    | none => exact .refl usual
    | some f => exact .of_visible (visible_field hf hm) (visible_field hf hm')

/-- **Dates look alike**: a format gives texts that look alike at any two
    moments. -/
theorem lookAlike_format {m m' : Moment} (hm : m.Civil) (hm' : m'.Civil) (layout : List Char) :
    LookAlike (format m layout) (format m' layout) := by
  have hpart : ∀ p : Part, LookAlike (p.shown m) (p.shown m') := by
    intro p
    cases p with
    | text s => exact .refl s
    | directive flag letter usual => exact lookAlike_directive hm hm' flag letter usual
  simp only [format]
  induction parts layout with
  | nil => exact .refl []
  | cons p rest ih =>
    rw [List.flatMap_cons, List.flatMap_cons]
    exact (hpart p).append ih

end Calendar

end MarkupLint
