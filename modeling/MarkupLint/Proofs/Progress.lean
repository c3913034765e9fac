import MarkupLint.Proofs.Reading

/-! # Reading goes on

    A construct takes its first line and some of the lines after it, never
    more than there are; a list has at least one item; and what is cut out
    of a body to be read in its turn, or to be looked at as explicit markup,
    has fewer characters than the body.  All of this is `Reading.Fits`, with
    one lemma for each reader.  The characters removed are those of a marker
    or of an indentation, and a marker is never wider than its line. -/

namespace MarkupLint

/-! ## Counting characters -/

/-- The characters of some lines. -/
def charCount (ls : List Line) : Nat := ls.flatten.length

@[simp] theorem charCount_nil : charCount [] = 0 := rfl

@[simp] theorem charCount_cons (l : Line) (ls : List Line) :
    charCount (l :: ls) = l.length + charCount ls := by
  simp only [charCount, List.flatten_cons, List.length_append]

@[simp] theorem charCount_append (as bs : List Line) :
    charCount (as ++ bs) = charCount as + charCount bs := by
  simp only [charCount, List.flatten_append, List.length_append]

/-- Fewer lines have no more characters. -/
theorem charCount_le_of_sublist {as bs : List Line} (h : as.Sublist bs) :
    charCount as ≤ charCount bs := by
  induction h with
  | slnil => exact Nat.le_refl _
  | cons l _ ih => simp only [charCount_cons]; omega
  | cons_cons l _ ih => simp only [charCount_cons]; omega

/-- Paring lines makes no characters. -/
theorem Pared.charCount_le {short long : List Line} (h : Pared short long) :
    charCount short ≤ charCount long := by
  induction short generalizing long with
  | nil => exact Nat.zero_le _
  | cons x short ih =>
    obtain ⟨y, hy, hsuffix⟩ := h 0 x rfl
    cases long with
    | nil => cases hy
    | cons z long =>
      obtain rfl : z = y := by simpa using hy
      have hrest : Pared short long := fun k l hl => h (k + 1) l hl
      have hle := hsuffix.length_le
      have := ih hrest
      simp only [charCount_cons]
      omega

/-- The characters of a body. -/
def Body.chars (b : Body) : Nat := charCount b.lines

theorem Body.size_eq (b : Body) : b.size = b.chars + b.lines.length := rfl

/-- Fewer characters, on no more lines. -/
structure Body.Shorter (c b : Body) : Prop where
  chars : c.chars < b.chars
  lines : c.lines.length ≤ b.lines.length

namespace Body.Shorter

variable {b c d : Body}

/-- A shorter body is a smaller one. -/
theorem size_lt (h : c.Shorter b) : c.size < b.size := by
  rw [Body.size_eq, Body.size_eq]
  have := h.chars
  have := h.lines
  omega

/-- How long a body is does not depend on where it stands. -/
theorem of_offset {o o' : Nat} {ls : List Line} (h : c.Shorter ⟨o, ls⟩) : c.Shorter ⟨o', ls⟩ :=
  ⟨h.chars, h.lines⟩

/-- What is shorter than the rest of a body is shorter than the body. -/
theorem of_drop {k : Nat} (h : c.Shorter (b.drop k)) : c.Shorter b := by
  have hchars := charCount_le_of_sublist (List.drop_sublist k b.lines)
  have hlines := (List.drop_sublist k b.lines).length_le
  exact ⟨Nat.lt_of_lt_of_le h.chars hchars, Nat.le_trans h.lines hlines⟩

/-- Lines pared from the first on, of which the first has lost something. -/
theorem of_pared {o o' : Nat} {x first : Line} {ls rest out : List Line} (hout : out <+: x :: ls)
    (hx : x.length < first.length) (h : Pared ls rest) :
    (⟨o, out⟩ : Body).Shorter ⟨o', first :: rest⟩ where
  chars := by
    have hle := charCount_le_of_sublist hout.sublist
    have hpared := h.charCount_le
    simp only [Body.chars, charCount_cons] at hle ⊢
    omega
  lines := by
    have hle := hout.length_le
    have hpared := h.length_le
    simp only [List.length_cons] at hle ⊢
    omega

end Body.Shorter

/-! ## Markers -/

namespace Pattern

theorem indent_le_length (l : Line) : l.indent ≤ l.length :=
  (List.takeWhile_prefix _).length_le

/-- The blanks behind a marker are characters of the line. -/
theorem gap?_le {s : List Char} {k : Nat} (h : gap? s = some k) : k ≤ s.length := by
  simp only [gap?] at h
  split at h
  · simp_all
  · split at h
    · cases h
    · obtain rfl := Option.some.inj h
      exact indent_le_length s

/-- A bullet is some character of its line. -/
theorem bullet?_width {l : Line} {c : Char} {width : Nat} (h : bullet? l = some (c, width)) :
    0 < width ∧ width ≤ l.length := by
  cases l with
  | nil => cases h
  | cons d rest =>
    simp only [bullet?] at h
    split at h
    · obtain ⟨k, hk, heq⟩ := Option.map_eq_some_iff.mp h
      obtain ⟨-, rfl⟩ := Prod.mk.inj heq
      have := gap?_le hk
      simp only [List.length_cons]
      omega
    · cases h

/-- A number or a letter takes at least one character. -/
theorem sequence?_length {s seq rest : List Char} (h : sequence? s = some (seq, rest)) :
    0 < seq.length ∧ seq.length + rest.length = s.length := by
  simp only [sequence?] at h
  split at h
  · obtain ⟨rfl, rfl⟩ := Prod.mk.inj (Option.some.inj h)
    simp [Nat.add_comm]
  · split at h
    · cases h
    · rename_i hne
      obtain ⟨rfl, rfl⟩ := Prod.mk.inj (Option.some.inj h)
      have hle := (List.takeWhile_prefix Char.isDigit (l := s)).length_le
      refine ⟨?_, by simp only [List.length_drop]; omega⟩
      exact List.length_pos_iff.mpr (by simpa using hne)

/-- The parts of an enumerator are as wide as the text they make up. -/
theorem enumeratorParts?_length {l : Line} {form : EnumeratorForm} {seq : List Char} {spaces : Nat}
    (h : enumeratorParts? l = some (form, seq, spaces)) :
    (if form = .parens then 2 else 1) + seq.length + spaces ≤ l.length := by
  simp only [enumeratorParts?] at h
  split at h
  · split at h
    · rename_i hseq
      obtain ⟨k, hk, heq⟩ := Option.map_eq_some_iff.mp h
      obtain ⟨rfl, rfl, rfl⟩ := by simpa using heq
      have := (sequence?_length hseq).2
      have := gap?_le hk
      simp only [List.length_cons, if_true] at *
      omega
    · cases h
  · split at h
    · rename_i hseq
      obtain ⟨k, hk, heq⟩ := Option.map_eq_some_iff.mp h
      obtain ⟨rfl, rfl, rfl⟩ := by simpa using heq
      have := (sequence?_length hseq).2
      have := gap?_le hk
      simp only [List.length_cons, reduceCtorEq, if_false] at *
      omega
    · rename_i hseq
      obtain ⟨k, hk, heq⟩ := Option.map_eq_some_iff.mp h
      obtain ⟨rfl, rfl, rfl⟩ := by simpa using heq
      have := (sequence?_length hseq).2
      have := gap?_le hk
      simp only [List.length_cons, reduceCtorEq, if_false] at *
      omega
    · cases h

/-- An enumerator is some character of its line. -/
theorem enumerator?_width {l : Line} {e : Enumerator} (h : enumerator? l = some e) :
    0 < e.width ∧ e.width ≤ l.length := by
  obtain ⟨⟨form, seq, spaces⟩, hparts, hrest⟩ := Option.bind_eq_some_iff.mp h
  obtain ⟨ordinal, -, rfl⟩ := Option.map_eq_some_iff.mp hrest
  have hlength := enumeratorParts?_length hparts
  cases form with
  | parens => simp at hlength ⊢; omega
  | period => simp at hlength ⊢; omega
  | rparen => simp at hlength ⊢; omega

/-- So is a field's marker. -/
theorem field?_width {l name : Line} {width : Nat} (h : field? l = some (name, width)) :
    0 < width ∧ width ≤ l.length := by
  simp only [field?] at h
  split at h
  · rename_i rest
    split at h
    · rename_i after _ _ hafter _ _
      split at h
      · cases h
      · obtain ⟨k, hk, heq⟩ := Option.map_eq_some_iff.mp h
        obtain ⟨rfl, rfl⟩ := Prod.mk.inj heq
        have hgap := gap?_le hk
        have hdrop := congrArg List.length hafter
        simp only [List.length_drop, List.length_cons] at hdrop ⊢
        omega
    · cases h
  · cases h

/-- An explicit mark is no longer than its width, nor that than the line. -/
theorem marker?_width {mark : List Char} {l : Line} {width : Nat} (h : marker? mark l = some width) :
    mark.length ≤ width ∧ width ≤ l.length := by
  obtain ⟨rest, hrest, hgap⟩ := Option.bind_eq_some_iff.mp h
  obtain ⟨k, hk, rfl⟩ := Option.map_eq_some_iff.mp hgap
  have hle := gap?_le hk
  have hlength := congrArg List.length (Text.eq_append_of_dropStart? hrest)
  simp only [List.length_append] at hlength
  omega

/-- What follows the name of an option is shorter. -/
theorem optionName?_length {short : Bool} {s rest : List Char}
    (h : optionName? short s = some rest) : rest.length < s.length := by
  have hword : ∀ {c : Char} {more rest : List Char} {isName : Char → Bool},
      (if c.isAlphanum then some (more.dropWhile isName) else none) = some rest →
        rest.length ≤ more.length := by
    intro c more rest isName h
    split at h
    · obtain rfl := Option.some.inj h
      exact (List.dropWhile_suffix isName).length_le
    · cases h
  simp only [optionName?] at h
  split at h
  · split at h
    · have := hword h
      simp only [List.length_cons]
      omega
    · cases h
  · split at h
    · have := hword h
      simp only [List.length_cons]
      omega
    · cases h
  · split at h
    · split at h
      · obtain rfl := Option.some.inj h
        simp only [List.length_cons]
        omega
      · cases h
    · have := hword h
      simp only [List.length_cons]
      omega
  · cases h

/-- An option's argument is read off the text. -/
theorem optionArgument_length (s : List Char) : (optionArgument s).length ≤ s.length := by
  simp only [optionArgument]
  split
  · rename_i c d rest
    split
    · have := (List.dropWhile_suffix (fun e => e ≠ ' ' && e ≠ ',') (l := d :: rest)).length_le
      simp only [List.length_cons] at this ⊢
      omega
    · exact Nat.le_refl _
  · exact Nat.le_refl _

/-- So are the options that follow. -/
theorem moreOptions_length (count : Nat) (s : List Char) :
    (moreOptions count s).length ≤ s.length := by
  induction count generalizing s with
  | zero => exact Nat.le_refl _
  | succ count ih =>
    simp only [moreOptions]
    split
    · rename_i rest
      split
      · rename_i after hafter
        have := ih (optionArgument after)
        have := optionArgument_length after
        have := optionName?_length hafter
        simp only [List.length_cons]
        omega
      · exact Nat.le_refl _
    · exact Nat.le_refl _

/-- An option's marker is some character of its line. -/
theorem options?_width {l mark : Line} (h : options? l = some mark) :
    0 < mark.length ∧ mark.length ≤ l.length := by
  obtain ⟨after, hafter, hrest⟩ := Option.bind_eq_some_iff.mp h
  dsimp only at hrest
  split at hrest
  · obtain rfl := Option.some.inj hrest
    have := optionName?_length hafter
    have := optionArgument_length after
    have := moreOptions_length l.length (optionArgument after)
    simp only [List.length_take]
    omega
  · cases hrest

/-- How far a line is cut by the constructs that it can start. -/
def markerWidths (l : Line) : List Nat :=
  ((bullet? l).map (·.2)).toList ++ ((enumerator? l).map (·.width)).toList
    ++ ((field? l).map (·.2)).toList ++ ((options? l).map List.length).toList
    ++ (marker? ['.', '.'] l).toList ++ (marker? ['_', '_'] l).toList

/-- A marker takes a character at least, and is never wider than its line. -/
theorem markerWidths_fit (l : Line) : ∀ width ∈ markerWidths l, 0 < width ∧ width ≤ l.length := by
  intro width hwidth
  simp only [markerWidths, List.mem_append, Option.mem_toList, Option.map_eq_some_iff] at hwidth
  rcases hwidth with ((((⟨found, h, rfl⟩ | ⟨e, h, rfl⟩) | ⟨found, h, rfl⟩) | ⟨mark, h, rfl⟩) | h) | h
  · exact bullet?_width h
  · exact enumerator?_width h
  · exact field?_width h
  · exact options?_width h
  · obtain ⟨hmark, hlength⟩ := marker?_width h
    exact ⟨Nat.lt_of_lt_of_le (by decide) hmark, hlength⟩
  · obtain ⟨hmark, hlength⟩ := marker?_width h
    exact ⟨Nat.lt_of_lt_of_le (by decide) hmark, hlength⟩

end Pattern

/-! ## Extracts -/

namespace Extract

/-- An indented block has some indentation in common. -/
theorem commonIndent_pos {ls : List Line} (hin : ∀ l ∈ ls, inBlock l = true) {first : Line}
    (hfirst : first ∈ ls) (hblank : Text.isBlank first = false) : 0 < commonIndent ls := by
  have hmem : first.indent ∈ (ls.filter (!Text.isBlank ·)).map Line.indent :=
    List.mem_map_of_mem (List.mem_filter.mpr ⟨hfirst, by simp [hblank]⟩)
  cases hmin : ((ls.filter (!Text.isBlank ·)).map Line.indent).min? with
  | none =>
    rw [List.min?_eq_none_iff] at hmin
    rw [hmin] at hmem
    cases hmem
  | some m =>
    obtain ⟨l, hl, rfl⟩ := List.mem_map.mp (List.min?_mem hmin)
    obtain ⟨hls, hnonblank⟩ := List.mem_filter.mp hl
    have hindented := hin l hls
    simp only [inBlock, Bool.or_eq_true] at hindented
    have : l.isIndented = true := hindented.resolve_left (by simpa using hnonblank)
    simpa [commonIndent, hmin, Line.isIndented] using this

variable {o o' : Nat} {first : Line} {rest : List Line}

/-- An indented block is shorter than the lines that it is cut out of: its
    first line loses a blank. -/
theorem indented_shorter (hblank : Text.isBlank first = false) (hindent : first.isIndented = true) :
    (⟨o, (indented first rest).lines⟩ : Body).Shorter ⟨o', first :: rest⟩ := by
  have hin : ∀ l ∈ first :: rest.takeWhile inBlock, inBlock l = true :=
    List.forall_mem_cons.mpr ⟨by simp [inBlock, hindent],
      List.all_eq_true.mp (List.all_takeWhile (p := inBlock))⟩
  have hpos := commonIndent_pos hin List.mem_cons_self hblank
  have hlength : 0 < first.length :=
    Nat.lt_of_lt_of_le (by simpa [Line.isIndented] using hindent) (Pattern.indent_le_length first)
  refine .of_pared (trimEnd_isStart _) ?_ ((Pared.map_drop _ _).trans
    (.of_start (List.takeWhile_prefix inBlock)))
  simp only [List.length_drop]
  omega

variable {width : Nat} (hpos : 0 < width) (hwidth : width ≤ first.length)

include hpos hwidth

/-- A block behind a marker is shorter: its first line loses the marker. -/
theorem known_shorter :
    (⟨o, (known width first rest).lines⟩ : Body).Shorter ⟨o', first :: rest⟩ := by
  refine .of_pared (trimEnd_isStart _) ?_ ((Pared.map_drop _ _).trans
    (.of_start (List.takeWhile_prefix (inKnown width))))
  simp only [List.length_drop]
  omega

/-- So is one whose other lines are indented as they like. -/
theorem firstKnown_shorter :
    (⟨o, (firstKnown width first rest).lines⟩ : Body).Shorter ⟨o', first :: rest⟩ := by
  refine .of_pared (trimEnd_isStart _) ?_ ((Pared.map_drop _ _).trans
    (.of_start (List.takeWhile_prefix inBlock)))
  simp only [List.length_drop]
  omega

omit hpos hwidth

/-- An extract takes lines that are there. -/
theorem extra_le_length (rest : List Line) (p : Line → Bool) :
    (rest.takeWhile p).length ≤ rest.length :=
  (List.takeWhile_prefix p).length_le

end Extract

/-! ## Readings that fit -/

/-- The bodies inside a block. -/
def Block.bodies : Block → List Body
  | .quote _ body => [body]
  | .bulletList _ items | .enumeratedList _ _ items => items.map (·.body)
  | .fieldList _ items | .optionList _ items => items.map (·.body)
  | .definitionList _ items => items.map (·.body)
  | _ => []

/-- A list has items. -/
def Block.Filled : Block → Prop
  | .bulletList _ items | .enumeratedList _ _ items => items ≠ []
  | .stuckList _ _ => False
  | .fieldList _ items | .optionList _ items => items ≠ []
  | .definitionList _ items => items ≠ []
  | .lineBlock _ lines => lines ≠ []
  | _ => True

/-- What a block cuts out of its body: the bodies inside it, or the lines of
    explicit markup. -/
def Block.cuts : Block → List Body
  | .explicit line lines _ | .anonymousTarget line lines => [⟨line - 1, lines⟩]
  | block => block.bodies

/-- A block's bodies are among what it cuts out. -/
theorem Block.cuts_of_mem_bodies {block : Block} {c : Body} (h : c ∈ block.bodies) :
    c ∈ block.cuts := by
  cases block with
  | explicit line lines markup => cases h
  | anonymousTarget line lines => cases h
  | _ => exact h

namespace Reader

/-- A reading takes lines that are there, its lists have items, and what its
    blocks cut out is shorter than the lines `ls` it starts with. -/
structure Reading.Fits (r : Reading) (ls : List Line) : Prop where
  taken : r.2 < ls.length
  filled : ∀ block ∈ r.1, block.Filled
  shorter : ∀ block ∈ r.1, ∀ c ∈ block.cuts, c.Shorter ⟨0, ls⟩

/-- The blocks are no lists and cut nothing out. -/
def Bare (bs : List Block) : Prop := ∀ b ∈ bs, b.Filled ∧ b.cuts = []

namespace Bare

/-- No blocks have no bodies. -/
theorem nil : Bare [] := fun _ h => by cases h

/-- A block without bodies before such blocks. -/
theorem cons {b : Block} {bs : List Block} (hb : b.Filled ∧ b.cuts = []) (hbs : Bare bs) :
    Bare (b :: bs) :=
  List.forall_mem_cons.mpr ⟨hb, hbs⟩

/-- A block without bodies alone. -/
theorem one {b : Block} (hb : b.Filled ∧ b.cuts = []) : Bare [b] := .cons hb .nil

/-- Blocks without bodies one after the other. -/
theorem append {bs cs : List Block} (hbs : Bare bs) (hcs : Bare cs) : Bare (bs ++ cs) :=
  List.forall_mem_append.mpr ⟨hbs, hcs⟩

/-- A reading of bare blocks fits if it takes no more than there is. -/
theorem fits {bs : List Block} {taken : Nat} {ls : List Line} (hbs : Bare bs)
    (htaken : taken < ls.length) : Reading.Fits (bs, taken) ls where
  taken := htaken
  filled b hb := (hbs b hb).1
  shorter b hb c hc := by
    rw [(hbs b hb).2] at hc
    cases hc

end Bare

/-- One block before bare ones. -/
theorem Reading.Fits.of_cons {block : Block} {bs : List Block} {taken : Nat} {ls : List Line}
    (hbs : Bare bs) (htaken : taken < ls.length) (hfilled : block.Filled)
    (hshorter : ∀ c ∈ block.cuts, c.Shorter ⟨0, ls⟩) : Reading.Fits (block :: bs, taken) ls where
  taken := htaken
  filled := List.forall_mem_cons.mpr ⟨hfilled, (hbs.fits htaken).filled⟩
  shorter := List.forall_mem_cons.mpr ⟨hshorter, (hbs.fits htaken).shorter⟩

/-- The warning behind a block has no body. -/
theorem unindentUnless_bare (finished : Bool) (what : String) (line : Nat) :
    Bare (unindentUnless finished what line) := by
  cases finished with
  | true => exact .nil
  | false => exact .one ⟨trivial, rfl⟩

/-! ### Paragraphs -/

/-- A literal block has no body, and its lines are there. -/
theorem literalAfter_bare (n : Nat) (ls : List Line) :
    Bare (literalAfter n ls).1 ∧ (literalAfter n ls).2 ≤ ls.length := by
  have hblanks := Extract.extra_le_length ls Text.isBlank
  simp only [literalAfter]
  split
  · exact ⟨.one ⟨trivial, rfl⟩, Nat.zero_le _⟩
  · rename_i l rest hdrop
    have hlength := congrArg List.length hdrop
    simp only [List.length_drop, List.length_cons] at hlength
    split
    · refine ⟨.cons ⟨trivial, rfl⟩ (unindentUnless_bare _ _ _), ?_⟩
      have := Extract.extra_le_length rest Extract.inBlock
      simp only [Extract.indented, Extract.finish]
      omega
    · split
      · refine ⟨.append ?_ (.one ⟨trivial, rfl⟩), ?_⟩
        · split
          · exact .one ⟨trivial, rfl⟩
          · exact .nil
        · refine Nat.le_trans (Nat.add_le_add_left (Extract.extra_le_length _ _) _) ?_
          simp only [List.length_cons]
          omega
      · exact ⟨.one ⟨trivial, rfl⟩, Nat.zero_le _⟩

variable {n : Nat} {l : Line} {rest : List Line}

/-- A paragraph has no body either, with or without the literal block behind
    it. -/
theorem paragraph_bare :
    Bare (paragraph n l rest).1 ∧ (paragraph n l rest).2 ≤ rest.length := by
  have hmore := Extract.extra_le_length rest
    fun (x : Line) => !Text.isBlank x && !x.isIndented
  simp only [paragraph]
  split
  · obtain ⟨hbare, htaken⟩ := literalAfter_bare
      (n + 1 + (rest.takeWhile fun (x : Line) => !Text.isBlank x && !x.isIndented).length)
      (rest.drop (rest.takeWhile fun (x : Line) => !Text.isBlank x && !x.isIndented).length)
    simp only [List.length_drop] at htaken
    exact ⟨.cons ⟨trivial, rfl⟩ hbare, by omega⟩
  · exact ⟨.one ⟨trivial, rfl⟩, hmore⟩

/-- So it fits wherever it stands. -/
theorem paragraph_fits : (paragraph n l rest).Fits (l :: rest) :=
  paragraph_bare.1.fits (Nat.lt_succ_of_le paragraph_bare.2)

/-! ### Titles and transitions -/

/-- A complaint before a paragraph. -/
theorem complaint_fits {p : Problem} :
    Reading.Fits (.problem p :: (paragraph n l rest).1, (paragraph n l rest).2) (l :: rest) :=
  (Bare.cons (b := .problem p) ⟨trivial, rfl⟩ paragraph_bare.1).fits
    (Nat.lt_succ_of_le paragraph_bare.2)

/-- A line too short for a title is a line. -/
theorem shortOverline_fits : (shortOverline n l rest).Fits (l :: rest) := complaint_fits

/-- One bare block that takes lines which are there. -/
theorem single_fits {block : Block} {taken : Nat} {ls : List Line}
    (hblock : block.Filled ∧ block.cuts = []) (htaken : taken < ls.length) :
    Reading.Fits ([block], taken) ls :=
  (Bare.one hblock).fits htaken

/-- A title between two lines takes no more lines than there are. -/
theorem overlined_fits (how : Manner) {title : Line} :
    (overlined how n l title rest).Fits (l :: title :: rest) := by
  simp only [overlined]
  split
  · split
    · exact shortOverline_fits
    · exact single_fits ⟨trivial, rfl⟩ (by simp)
  · split
    · split
      · exact shortOverline_fits
      · exact single_fits ⟨trivial, rfl⟩ (by simp)
    · split
      · split
        · exact shortOverline_fits
        · exact single_fits ⟨trivial, rfl⟩ (by simp)
      · split
        · exact shortOverline_fits
        · exact single_fits ⟨trivial, rfl⟩ (by simp)

/-- A line of punctuation in each of its readings. -/
theorem adornment_fits (how : Manner) : (adornment how n l rest).Fits (l :: rest) := by
  have halone : (if decide (l.length < 4) = true then paragraph n l rest
      else ([Block.transition n], 0) : Reading).Fits (l :: rest) := by
    split
    · exact paragraph_fits
    · exact single_fits ⟨trivial, rfl⟩ (by simp)
  simp only [adornment]
  split
  · split
    · exact paragraph_fits
    · split
      · exact complaint_fits
      · exact single_fits ⟨trivial, rfl⟩ (by simp)
  · split
    · exact halone
    · split
      · exact halone
      · split
        · split
          · exact shortOverline_fits
          · exact single_fits ⟨trivial, rfl⟩ (by simp)
        · exact overlined_fits how

/-- A title with its line takes one line more, and has no body. -/
theorem underlined_bare (how : Manner) (n : Nat) (title underline : Line) :
    (∀ reading, (underlined how n title underline).1 = some reading →
      Bare reading.1 ∧ reading.2 = 1) ∧ Bare (underlined how n title underline).2 := by
  simp only [underlined]
  split
  · refine ⟨nofun, ?_⟩
    split
    · exact .one ⟨trivial, rfl⟩
    · exact .nil
  · split
    · refine ⟨fun reading h => ?_, .nil⟩
      obtain rfl := Option.some.inj h
      exact ⟨.one ⟨trivial, rfl⟩, rfl⟩
    · refine ⟨fun reading h => ?_, .nil⟩
      obtain rfl := Option.some.inj h
      refine ⟨.append ?_ (.one ⟨trivial, rfl⟩), rfl⟩
      intro b hb
      obtain ⟨p, -, rfl⟩ := List.mem_map.mp hb
      exact ⟨trivial, rfl⟩

/-! ### Lists -/

section Lists

variable {α σ : Type} {item : σ → Nat → Line → List Line → Option (α × σ × Extract)}

/-- Items take lines that are there. -/
theorem collect_taken_le
    (one : ∀ s o l rest a s' e, item s (o + 1) l rest = some (a, s', e) → e.extra ≤ rest.length)
    (s : σ) (o : Nat) (ls : List Line) : (collect item s (o + 1) ls).2.1 ≤ ls.length := by
  induction hlen : ls.length using Nat.strong_induction_on generalizing s o ls with
  | _ len ih =>
    cases ls with
    | nil => simp [collect_nil]
    | cons l rest =>
      cases hitem : item s (o + 1) l rest with
      | none => simp [collect_of_none hitem]
      | some found =>
        obtain ⟨a, s', e⟩ := found
        have hextra := one s o l rest a s' e hitem
        have hrest := ih (rest.drop e.extra).length
          (by simp only [List.length_drop, ← hlen, List.length_cons]; omega)
          s' (o + 1 + e.extra) (rest.drop e.extra) rfl
        rw [show o + 1 + e.extra + 1 = o + 1 + 1 + e.extra by omega] at hrest
        rw [collect_of_some hitem]
        simp only [List.length_drop, ← hlen, List.length_cons] at hrest ⊢
        omega

/-- A list whose first item is there, and all of whose items have shorter
    bodies, fits. -/
theorem listReading_fits {what : String} (block : List α → Block) (body : α → Body)
    (hfilled : ∀ items, items ≠ [] → (block items).Filled)
    (hcuts : ∀ items, (block items).cuts = items.map body)
    (one : ∀ s o l rest a s' e, item s (o + 1) l rest = some (a, s', e) →
      (body a).Shorter ⟨o, l :: rest⟩ ∧ e.extra ≤ rest.length ∧ e.Stops rest)
    {s : σ} {o : Nat} {l : Line} {rest : List Line} (first : (item s (o + 1) l rest).isSome) :
    (listReading what (o + 1) block (collect item s (o + 1) (l :: rest))).Fits (l :: rest) := by
  obtain ⟨⟨a, s', e⟩, hitem⟩ := Option.isSome_iff_exists.mp first
  have htaken := collect_taken_le (fun s o l rest a s' e h => (one s o l rest a s' e h).2.1)
    s o (l :: rest)
  obtain ⟨hshorter, -⟩ := collect_spec (P := fun b a => (body a).Shorter b)
    (fun b k a _ h => h.of_drop)
    (fun s o l rest a s' e h => ⟨(one s o l rest a s' e h).1, (one s o l rest a s' e h).2.2⟩)
    s o (l :: rest)
  have hne : (collect item s (o + 1) (l :: rest)).1 ≠ [] := by
    rw [collect_of_some hitem]
    exact List.cons_ne_nil _ _
  refine .of_cons (unindentUnless_bare _ _ _) ?_ (hfilled _ hne) fun c hc => ?_
  · exact Nat.lt_of_le_of_lt (Nat.sub_le_sub_right htaken 1) (by simp)
  · rw [hcuts] at hc
    obtain ⟨a, ha, rfl⟩ := List.mem_map.mp hc
    exact (hshorter a ha).of_offset

end Lists

section Items

variable {o : Nat}

/-- An item's body is shorter than what is left, the marker being cut off. -/
theorem listItem_fits (o n : Nat) (rest : List Line) {width : Nat} (hpos : 0 < width)
    (hwidth : width ≤ l.length) :
    (listItem width n l rest).1.body.Shorter ⟨o, l :: rest⟩ ∧
      (listItem width n l rest).2.extra ≤ rest.length := by
  simp only [listItem]
  split
  · exact ⟨Extract.firstKnown_shorter hpos hwidth, Extract.extra_le_length _ _⟩
  · exact ⟨Extract.known_shorter hpos hwidth, Extract.extra_le_length _ _⟩

/-- By the items, each of which is behind a bullet. -/
theorem bulletList_fits {bullet : Char} {width : Nat} (hl : Pattern.bullet? l = some (bullet, width)) :
    (bulletList bullet (o + 1) (l :: rest)).Fits (l :: rest) := by
  refine listReading_fits (.bulletList _) ListItem.body (fun _ h => h) (fun _ => rfl) ?_ (by simp [hl])
  intro _ o l rest a _ e h
  split at h
  · rename_i b width hbullet
    split at h
    · obtain ⟨rfl, -, rfl⟩ := by simpa using h
      obtain ⟨hpos, hwidth⟩ := Pattern.bullet?_width hbullet
      obtain ⟨hshorter, hextra⟩ := listItem_fits o (o + 1) rest hpos hwidth
      exact ⟨hshorter, hextra, (listItem_placed (p := fun _ => True) width trivial).2⟩
    · cases h
  · cases h

/-- By the items; a number that the list can hold makes the first of them
    one. -/
theorem enumeratedList_fits {first : Pattern.Enumerator}
    (hl : Pattern.enumerator? l = some first) (hholds : enumeratorHolds rest = true) :
    (enumeratedList first (o + 1) (l :: rest)).Fits (l :: rest) := by
  refine listReading_fits (.enumeratedList _ _) ListItem.body (fun _ h => h) (fun _ => rfl) ?_
    (by simp [hl, hholds])
  intro _ o l rest a _ e h
  split at h
  · rename_i enumerator henumerator
    split at h
    · obtain ⟨rfl, -, rfl⟩ := by simpa using h
      obtain ⟨hpos, hwidth⟩ := Pattern.enumerator?_width henumerator
      obtain ⟨hshorter, hextra⟩ := listItem_fits o (o + 1) rest hpos hwidth
      exact ⟨hshorter, hextra, (listItem_placed (p := fun _ => True) _ trivial).2⟩
    · cases h
  · cases h

/-- By the items, each of which is behind a field's name. -/
theorem fieldList_fits (hl : (Pattern.field? l).isSome) :
    (fieldList (o + 1) (l :: rest)).Fits (l :: rest) := by
  refine listReading_fits (.fieldList _) HeadedItem.body (fun _ h => h)
    (fun _ => rfl) ?_ (by simpa using hl)
  intro _ o l rest a _ e h
  obtain ⟨⟨name, width⟩, hfield, hpair⟩ := Option.map_eq_some_iff.mp h
  obtain ⟨rfl, -, rfl⟩ := by simpa using hpair
  obtain ⟨hpos, hwidth⟩ := Pattern.field?_width hfield
  exact ⟨Extract.firstKnown_shorter hpos hwidth, Extract.extra_le_length _ _,
    Extract.firstKnown_stops width l rest⟩

/-- By the items, each of which is behind its options. -/
theorem optionList_fits (hl : (Pattern.options? l).isSome) :
    (optionList (o + 1) (l :: rest)).Fits (l :: rest) := by
  refine listReading_fits (.optionList _) HeadedItem.body (fun _ h => h)
    (fun _ => rfl) ?_ (by simpa using hl)
  intro _ o l rest a _ e h
  obtain ⟨mark, hoptions, hpair⟩ := Option.map_eq_some_iff.mp h
  obtain ⟨rfl, -, rfl⟩ := by simpa using hpair
  obtain ⟨hpos, hwidth⟩ := Pattern.options?_width hoptions
  exact ⟨Extract.firstKnown_shorter hpos hwidth, Extract.extra_le_length _ _,
    Extract.firstKnown_stops mark.length l rest⟩

/-- A definition is indented below its term. -/
theorem definitionItem_fits (o n : Nat) (l : Line) {next : Line} (more : List Line)
    (hblank : Text.isBlank next = false) (hindent : next.isIndented = true) :
    (definitionItem n l next more).1.body.Shorter ⟨o, l :: next :: more⟩ ∧
      (definitionItem n l next more).2.extra ≤ (next :: more).length := by
  constructor
  · have hshorter : (definitionItem n l next more).1.body.Shorter
        ((⟨o, l :: next :: more⟩ : Body).drop 1) :=
      Extract.indented_shorter hblank hindent
    exact hshorter.of_drop
  · exact Nat.succ_le_succ (Extract.extra_le_length _ _)

/-- By the items; the first one has its definition on the next line. -/
theorem definitionList_fits {next : Line} {more : List Line} (hl : Pattern.isPlain l = true)
    (hblank : Text.isBlank next = false) (hindent : next.isIndented = true) :
    (definitionList (o + 1) (l :: next :: more)).Fits (l :: next :: more) := by
  refine listReading_fits (.definitionList _) DefinitionItem.body
    (fun _ h => h) (fun _ => rfl) ?_ (by simp [hl, hblank, hindent])
  intro _ o l rest a _ e h
  split at h
  · rename_i next more
    split at h
    · rename_i hcond
      simp only [Bool.and_eq_true, Bool.not_eq_true'] at hcond
      obtain ⟨rfl, -, rfl⟩ := by simpa using h
      obtain ⟨hshorter, hextra⟩ := definitionItem_fits o (o + 1) l more hcond.1.2 hcond.2
      exact ⟨hshorter, hextra, (definitionItem_placed hcond.1.1 hcond.1.2 hcond.2).2⟩
    · cases h
  · cases h

/-! ### Other constructs -/

/-- A block quote loses its indentation. -/
theorem blockQuote_fits (hblank : Text.isBlank l = false) (hindent : l.isIndented = true) :
    (blockQuote n l rest).Fits (l :: rest) := by
  refine .of_cons (unindentUnless_bare _ _ _)
    (Nat.lt_succ_of_le (Extract.extra_le_length _ _)) trivial fun c hc => ?_
  obtain rfl := List.mem_singleton.mp hc
  exact Extract.indented_shorter hblank hindent

/-- A line block holds lines only. -/
theorem lineBlock_fits : (lineBlock n l rest).Fits (l :: rest) := by
  refine .of_cons (unindentUnless_bare _ _ _)
    (Nat.lt_succ_of_le (Extract.extra_le_length _ _)) ?_ nofun
  simp [Block.Filled]

/-- A table and the error about it have no body; the lines behind it that
    belong to neither are taken along. -/
theorem gridTable_fits : (gridTable n l rest).Fits (l :: rest) := by
  have hmore := Extract.extra_le_length rest
    fun (x : Line) => !Text.isBlank x && (x.head? = some '+' || x.head? = some '|')
  simp only [gridTable]
  split
  · exact single_fits ⟨trivial, rfl⟩ (Nat.lt_succ_of_le hmore)
  · refine single_fits ⟨trivial, rfl⟩ (Nat.lt_succ_of_le ?_)
    refine Nat.le_trans (Nat.add_le_add_left (Extract.extra_le_length _ _) _) ?_
    simp only [List.length_drop]
    exact Nat.le_of_eq (Nat.add_sub_of_le hmore)

/-- A table between borders ends with the lines. -/
theorem simpleTableExtent_le (borders : Nat) (ls : List Line) :
    simpleTableExtent borders ls ≤ ls.length := by
  induction ls generalizing borders with
  | nil => exact Nat.le_refl _
  | cons l rest ih =>
    simp only [simpleTableExtent, List.length_cons]
    split
    · split
      · exact Nat.zero_le _
      · have := ih borders
        omega
    · rw [Nat.add_comm]
      exact Nat.succ_le_succ (ih _)

/-- The warning behind explicit markup has no body. -/
theorem explicitEnd_bare (e : Extract) (n : Nat) (rest : List Line) :
    Bare (explicitEnd e n rest) :=
  unindentUnless_bare _ _ _

/-- Explicit markup is shorter than the lines that it is cut out of: its mark
    is not there. -/
theorem explicitBlock_fits {width : Nat} (hpos : 0 < width) (hwidth : width ≤ l.length) :
    (explicitBlock width n l rest).Fits (l :: rest) := by
  refine .of_cons (explicitEnd_bare _ _ _)
    (Nat.lt_succ_of_le (Extract.extra_le_length _ _)) trivial fun c hc => ?_
  obtain rfl := List.mem_singleton.mp hc
  exact Extract.firstKnown_shorter hpos hwidth

/-- So is an anonymous target. -/
theorem anonymousTarget_fits {width : Nat} (hpos : 0 < width) (hwidth : width ≤ l.length) :
    (anonymousTarget width n l rest).Fits (l :: rest) := by
  refine .of_cons (explicitEnd_bare _ _ _)
    (Nat.lt_succ_of_le (Extract.extra_le_length _ _)) trivial fun c hc => ?_
  obtain rfl := List.mem_singleton.mp hc
  exact Extract.firstKnown_shorter hpos hwidth

/-- Text that starts nothing else. -/
theorem text_fits (how : Manner) (hl : Pattern.isPlain l = true) :
    (text how (o + 1) l rest).Fits (l :: rest) := by
  unfold text
  split
  · exact paragraph_fits
  · rename_i next more
    split
    · obtain ⟨hreading, hcomplaints⟩ := underlined_bare how (o + 1) l next
      split
      · rename_i reading _ hfound
        obtain ⟨hbare, htaken⟩ := hreading reading (by simp [hfound])
        exact hbare.fits (by rw [htaken]; simp)
      · rename_i complaints hnone
        rw [hnone] at hcomplaints
        exact (hcomplaints.append paragraph_bare.1).fits (Nat.lt_succ_of_le paragraph_bare.2)
    · split
      · rename_i hnext
        simp only [Bool.and_eq_true, Bool.not_eq_true'] at hnext
        exact definitionList_fits hl hnext.1 hnext.2
      · exact paragraph_fits

/-- The reading of a construct fits, whichever it is, if the number of an
    enumerator does. -/
theorem block_fits (how : Manner) (o : Nat) (l : Line) (rest : List Line) :
    (block how (o + 1) l rest).Fits (l :: rest) ∨
      ¬Pattern.Countable l ∧
        block how (o + 1) l rest = ([.stuckList (o + 1) how.first], rest.length) := by
  have hstarts := block_starts how (o + 1) l rest
  generalize block how (o + 1) l rest = reading at hstarts ⊢
  cases hstarts with
  | stuckList h => exact .inr ⟨h, rfl⟩
  | blank => exact .inl (Bare.nil.fits (Nat.succ_pos _))
  | blockQuote hblank h => exact .inl (blockQuote_fits hblank h)
  | bulletList h => exact .inl (bulletList_fits h)
  | enumeratedList h hholds => exact .inl (enumeratedList_fits h hholds)
  | paragraph => exact .inl paragraph_fits
  | fieldList h => exact .inl (fieldList_fits h)
  | optionList h => exact .inl (optionList_fits h)
  | doctest =>
    exact .inl (single_fits ⟨trivial, rfl⟩ (Nat.lt_succ_of_le (Extract.extra_le_length _ _)))
  | lineBlock => exact .inl lineBlock_fits
  | gridTable => exact .inl gridTable_fits
  | simpleTable =>
    exact .inl (single_fits ⟨trivial, rfl⟩ (Nat.lt_succ_of_le (simpleTableExtent_le _ _)))
  | explicitBlock h =>
    obtain ⟨hmark, hwidth⟩ := Pattern.marker?_width h
    exact .inl (explicitBlock_fits (Nat.lt_of_lt_of_le (by decide) hmark) hwidth)
  | anonymousTarget h =>
    obtain ⟨hmark, hwidth⟩ := Pattern.marker?_width h
    exact .inl (anonymousTarget_fits (Nat.lt_of_lt_of_le (by decide) hmark) hwidth)
  | adornment => exact .inl (adornment_fits how)
  | text hblank h => exact .inl (text_fits how h)

end Items

/-- The blocks of some lines are filled, and what they cut out is shorter
    than the lines; but the list that reading gets stuck at is not filled. -/
theorem blocks_fit (how : Manner) (o : Nat) (ls : List Line) :
    ∀ found ∈ blocks how (o + 1) ls,
      (found.Filled ∧ ∀ c ∈ found.cuts, c.Shorter ⟨o, ls⟩) ∨
        ∃ line, found = .stuckList line how.first := by
  induction hlen : ls.length using Nat.strong_induction_on generalizing o ls with
  | _ len ih =>
    cases ls with
    | nil => simp [blocks]
    | cons l rest =>
      rw [blocks_cons]
      refine List.forall_mem_append.mpr ⟨fun found hmem => ?_, fun found hmem => ?_⟩
      · rcases block_fits how o l rest with hfits | ⟨-, hstuck⟩
        · exact .inl ⟨hfits.filled found hmem,
            fun c hc => (hfits.shorter found hmem c hc).of_offset⟩
        · rw [hstuck] at hmem
          exact .inr ⟨_, List.mem_singleton.mp hmem⟩
      · rw [show o + 1 + 1 + (block how (o + 1) l rest).2
          = o + 1 + (block how (o + 1) l rest).2 + 1 by omega] at hmem
        have hlength : (rest.drop (block how (o + 1) l rest).2).length < len := by
          simp only [List.length_drop, ← hlen, List.length_cons]
          omega
        refine (ih _ hlength _ _ rfl found hmem).imp_left ?_
        rintro ⟨hfilled, hshorter⟩
        refine ⟨hfilled, fun c hc => ?_⟩
        have hdrop : c.Shorter ((⟨o, l :: rest⟩ : Body).drop
            (1 + (block how (o + 1) l rest).2)) := by
          simpa only [Body.drop, Nat.add_comm 1, List.drop_succ_cons] using
            (hshorter c hc).of_offset
        exact hdrop.of_drop

end Reader

namespace Body

theorem blocks_fit (b : Body) (titles : Bool) (width : List Char → Nat) {block : Block}
    (h : block ∈ b.blocks titles width) :
    (block.Filled ∧ ∀ c ∈ block.cuts, c.Shorter b) ∨
      ∃ line, block = .stuckList line (b.offset + 1) :=
  Reader.blocks_fit (b.manner titles width) b.offset b.lines block h

/-- The bodies inside a block are shorter than the body it stands in. -/
theorem bodies_shorter (b : Body) (titles : Bool) (width : List Char → Nat) {block : Block}
    (h : block ∈ b.blocks titles width) : ∀ c ∈ block.bodies, c.Shorter b := by
  intro c hc
  rcases b.blocks_fit titles width h with ⟨-, hcuts⟩ | ⟨line, rfl⟩
  · exact hcuts c (Block.cuts_of_mem_bodies hc)
  · cases hc

/-! ## Turn by turn -/

/-- The blocks of a body from the line on that `i` lines are before. -/
def blocksFrom (b : Body) (titles : Bool) (width : List Char → Nat) (i : Nat) : List Block :=
  Reader.blocks (b.manner titles width) (b.offset + i + 1) (b.lines.drop i)

/-- One turn of reading a body, at the line that `i` lines are before: what
    is found there, and how many lines are before the next turn. -/
def turn (b : Body) (titles : Bool) (width : List Char → Nat) (i : Nat) : List Block × Nat :=
  match b.lines.drop i with
  | [] => ([], i)
  | l :: rest =>
    let (found, taken) := Reader.block (b.manner titles width) (b.offset + i + 1) l rest
    (found, i + 1 + taken)

/-- A turn goes on by at least one line, and not beyond the last. -/
theorem turn_progress (b : Body) (titles : Bool) (width : List Char → Nat) {i : Nat}
    (h : i < b.lines.length) (hcount : Pattern.Countable b.lines[i]) :
    i < (b.turn titles width i).2 ∧ (b.turn titles width i).2 ≤ b.lines.length := by
  have hlines := List.drop_eq_getElem_cons h
  have hfits : (Reader.block (b.manner titles width) (b.offset + i + 1) b.lines[i]
      (b.lines.drop (i + 1))).Fits (b.lines[i] :: b.lines.drop (i + 1)) :=
    (Reader.block_fits (b.manner titles width) _ _ _).resolve_right fun hstuck => hstuck.1 hcount
  have htaken := hfits.taken
  simp only [List.length_cons, List.length_drop] at htaken
  simp only [turn, hlines]
  omega

/-- Reading a body is its turns, one after the other. -/
theorem blocksFrom_turn (b : Body) (titles : Bool) (width : List Char → Nat) {i : Nat}
    (h : i < b.lines.length) :
    b.blocksFrom titles width i
      = (b.turn titles width i).1 ++ b.blocksFrom titles width (b.turn titles width i).2 := by
  have hlines := List.drop_eq_getElem_cons h
  simp only [blocksFrom, turn, hlines, Reader.blocks_cons, List.drop_drop]
  congr 2
  omega

end Body

end MarkupLint
