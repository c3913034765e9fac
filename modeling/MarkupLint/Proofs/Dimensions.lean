import MarkupLint.Directive.Table
import MarkupLint.Proofs.Options

/-! # Room in a table

    A table has a row besides its headers, and every row of its data has a
    column besides the stubs.  The number of headers is one more than its
    option says where a header is given apart.  In a word this sum wraps
    around for the greatest number an option can say, and then the table is
    taken to have no headers (`Call.headerRows_dimensions`). -/

namespace MarkupLint

/-! ## Numbers -/

namespace Text

/-- The number after the greatest one in a word is the least one. -/
theorem wrapWord_succ {n : Int} (hfits : fitsWord n = true) :
    wrapWord (n + 1) = if n + 1 < wordLimit then n + 1 else -wordLimit := by
  simp only [fitsWord, decide_eq_true_eq] at hfits
  split
  · exact wrapWord_of_fits (decide_eq_true (by omega))
  · have hmax : n + 1 = wordLimit := by omega
    rw [hmax]
    decide

end Text

/-- The value of an option for a number that is not negative is the text of
    one. -/
theorem Converter.nonNegative_of_convert {s value : String}
    (h : Converter.nonNegativeInt.convert s = .ok value) :
    ∃ n, Text.int? value.toList = some n ∧ 0 ≤ n := by
  cases hread : integerText s with
  | error e =>
    rw [convert, nonNegative, hread] at h
    cases h
  | ok n =>
    rw [convert, nonNegative, hread] at h
    simp only [bind, Except.bind] at h
    split at h
    · cases h
    · rename_i hn
      obtain rfl := Except.ok.inj h
      unfold integerText at hread
      split at hread
      · rename_i m hm
        obtain rfl := Except.ok.inj hread
        exact ⟨m, Text.int?_intText hm, by omega⟩
      · cases hread

/-! ## Values in records -/

namespace Data.Csv

variable (d : Dialect)

/-- A record has a field. -/
theorem record_ne_nil (count : Nat) (s : List Char) : (record d (count + 1) s).1 ≠ [] := by
  rw [record]
  split <;> simp

theorem recordsWithin_ne_nil (count : Nat) (s : List Char) :
    ∀ fields ∈ recordsWithin d count s, fields ≠ [] := by
  induction count generalizing s with
  | zero => exact List.forall_mem_nil _
  | succ count ih =>
    rw [recordsWithin]
    split
    · exact List.forall_mem_nil _
    · rename_i c rest _
      exact List.forall_mem_cons.mpr ⟨record_ne_nil d (rest.length + 1) (c :: rest), ih _⟩

end Data.Csv

namespace Call

variable {c : Call} {header : Bool} {s : List Char} {widths : List Nat}

/-- A row of values has one. -/
theorem values?_ne_nil {rows : List (List (List Char))} (h : c.values? s = some rows) :
    ∀ row ∈ rows, row ≠ [] := by
  obtain ⟨found, hfound, rfl⟩ := Option.map_eq_some_iff.mp h
  refine List.forall_mem_map.mpr fun fields hfields => ?_
  rw [Data.Csv.records?] at hfound
  split at hfound
  · rw [← Option.some.inj hfound] at hfields
    simpa using Data.Csv.recordsWithin_ne_nil _ _ _ fields hfields
  · cases hfound

/-! ## Headers and stubs -/

/-- The number that an option gives; zero if it is not given. -/
def count (c : Call) (key : String) : Int := (Text.int? (c.option key).toList).getD 0

/-- The rows of headers that a call asks for. -/
def headersAsked (c : Call) (header : Bool) : Int :=
  c.count "header-rows" + if header then 1 else 0

/-- The rows of headers that are counted: none where there are more than a
    word can hold. -/
def headersCounted (c : Call) (header : Bool) : Int :=
  if c.headersAsked header < Text.wordLimit then c.headersAsked header else 0

/-- There is a row besides the headers, and in every row of data a column
    besides the stubs. -/
structure HasRoom (c : Call) (header : Bool) (widths : List Nat) : Prop where
  rows : c.headersCounted header < widths.length
  columns : ∀ w ∈ widths, c.count "stub-columns" < w

/-- The options of a call are some that a directive knows, with values that
    its converters give. -/
def Accepts (c : Call) (spec : DirectiveSpec) : Prop :=
  ∀ key value, c.option? key = some value → ∃ known converter s, spec.options = some known ∧
    known.get? key = some converter ∧ converter.convert s = .ok value

/-- So are those of a call that stands in a text. -/
theorem accepts_of_call? {site : Site} {lines : List Line} {line : Nat} {markup : String}
    {d : Directive} (h : site.call? lines line markup = some (d, c)) : c.Accepts d.spec := by
  obtain ⟨name, -, -, block, hblock, rfl⟩ := Site.call?_eq_some h
  intro key value hvalue
  obtain ⟨known, hknown, converter, values, hconverter, hconvert, -⟩ :=
    DirectiveSpec.read_option hblock hvalue
  exact ⟨known, converter, _, hknown, hconverter, hconvert⟩

/-- A number that may not be negative is not, and it fits a word. -/
theorem Accepts.count {spec : DirectiveSpec} (h : c.Accepts spec) {key : String}
    (hkey : ∀ known, spec.options = some known → known.get? key = some .nonNegativeInt) :
    0 ≤ c.count key ∧ Text.fitsWord (c.count key) = true := by
  cases hvalue : c.option? key with
  | none =>
    have hzero : c.count key = 0 := by
      simp only [Call.count, option, hvalue]
      rfl
    rw [hzero]
    decide
  | some value =>
    obtain ⟨known, converter, s, hknown, hconverter, hconvert⟩ := h key value hvalue
    obtain rfl := Option.some.inj (hconverter.symm.trans (hkey known hknown))
    obtain ⟨n, hn, hpos⟩ := Converter.nonNegative_of_convert hconvert
    have hcount : c.count key = n := by simp [Call.count, option, hvalue, hn]
    rw [hcount]
    exact ⟨hpos, Text.fitsWord_of_int? hn⟩

/-- The numbers that the options of a table give are not negative, and that
    of the headers fits a word. -/
structure Counts (c : Call) : Prop where
  headers : 0 ≤ c.count "header-rows" ∧ Text.fitsWord (c.count "header-rows") = true
  stubs : 0 ≤ c.count "stub-columns"

theorem Accepts.counts {std : StandardDirective} (hstd : std = .csvTable ∨ std = .listTable)
    (h : c.Accepts std.spec) : c.Counts := by
  rcases hstd with rfl | rfl
  · exact ⟨h.count (by rintro _ ⟨⟩; rfl), (h.count (by rintro _ ⟨⟩; rfl)).1⟩
  · exact ⟨h.count (by rintro _ ⟨⟩; rfl), (h.count (by rintro _ ⟨⟩; rfl)).1⟩

namespace Counts

variable (h : c.Counts)

include h

/-- A row is marked as a header if it is counted as one. -/
theorem headerRows_dimensions (k : Nat) :
    (k : Int) < (c.dimensions header).headerRows ↔ (k : Int) < c.headersCounted header := by
  obtain ⟨⟨hpos, hfits⟩, -⟩ := h
  have hrows : (c.dimensions header).headerRows = if header then
      Text.wrapWord (c.count "header-rows" + 1) else c.count "header-rows" := rfl
  rw [hrows, headersCounted, headersAsked]
  cases header with
  | false =>
    simp only [Text.fitsWord, decide_eq_true_eq] at hfits
    rw [if_neg Bool.false_ne_true, if_neg Bool.false_ne_true, Int.add_zero, if_pos hfits.2]
  | true =>
    rw [if_pos rfl, if_pos rfl, Text.wrapWord_succ hfits]
    split
    · rfl
    · simp only [Text.wordLimit]
      omega

/-- Rows of data that fit the dimensions of a table leave room in it, if there
    is a row and every row has a column. -/
theorem room (hfits : c.dimensionProblem (c.dimensions header) widths = none) (hrows : widths ≠ [])
    (hcells : ∀ w ∈ widths, 0 < w) : c.HasRoom header widths := by
  have hlength : 0 < widths.length := List.length_pos_iff.mpr hrows
  have hstubs : (c.dimensions header).stubColumns = c.count "stub-columns" := rfl
  simp only [dimensionProblem] at hfits
  split at hfits
  · cases hfits
  split at hfits
  · cases hfits
  rename_i hmore hsame
  refine ⟨?_, fun w hw => ?_⟩
  · have hlast : _ < (c.dimensions header).headerRows ↔ _ :=
      h.headerRows_dimensions (widths.length - 1)
    omega
  · have hcell := List.findSome?_eq_none_iff.mp hfits w hw
    split at hcell
    · cases hcell
    split at hcell
    · cases hcell
    have hpos := hcells w hw
    have := h.stubs
    omega

end Counts

end Call

end MarkupLint
