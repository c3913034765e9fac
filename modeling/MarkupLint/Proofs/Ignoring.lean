import MarkupLint.Proofs.Fingerprint
import MarkupLint.Proofs.Resilience

/-! # An ignored directive is inert

    The block of a directive is its line and the lines after it that are
    blank or indented.  If the directive is ignored, reading the block adds
    nothing to the document, whatever the block holds, and reading goes on at
    the first line after it: a text is read as if every line of the block
    were empty (`Site.read_blanked`).  The two texts are not of the same
    size, so they are not read with the same depth; but both depths are
    enough (`Site.readWithin_depth`). -/

namespace MarkupLint

open Discipline

/-! ## The line of a directive -/

namespace Text

/-- What is neither an ASCII letter nor an ASCII digit is none in any script. -/
theorem not_isWordChar_ascii {c : Char} (small : c.toNat < 0x80) (h : c.isAlphanum = false) :
    isWordChar c = false := by
  rw [isWordChar, if_pos small, h]

/-- No range of letters and numbers holds white space. -/
theorem wordRanges_spare_blanks : ∀ r ∈ wordRanges.toList, ∀ code ∈ blankCodes,
    ¬(r.1 ≤ code ∧ code ≤ r.2) := by
  -- the table is long, so what is evaluated are comparisons of literals
  have hall : wordRanges.toList.all (fun r =>
      blankCodes.all fun code => code.blt r.1 || r.2.blt code) = true := by
    decide +kernel
  intro r hr code hcode hrange
  have hapart := List.all_eq_true.mp (List.all_eq_true.mp hall r hr) code hcode
  rw [Bool.or_eq_true, Nat.blt_eq, Nat.blt_eq] at hapart
  omega

/-- Letters and numbers are no white space. -/
theorem isBlankChar_of_isWordChar {c : Char} (h : isWordChar c = true) : isBlankChar c = false := by
  refine Bool.eq_false_iff.mpr fun hblank => ?_
  have hcode := mem_blankCodes hblank
  have hascii : ∀ n ∈ blankCodes, n < 0x80 → (Char.ofNat n).isAlphanum = false := by decide
  simp only [isWordChar] at h
  split at h
  · have hc := hascii _ hcode ‹_›
    rw [Char.ofNat_toNat, h] at hc
    cases hc
  · obtain ⟨r, hr, hrange⟩ := (inRanges_iff _ _).mp h
    exact wordRanges_spare_blanks r (Array.mem_toList_iff.mpr hr) _ hcode hrange

end Text

namespace Pattern

/-- The marks that join the parts of a name. -/
def nameMarks : List Char := ['-', '.', '_', '+', ':']

/-- A name of a directive: runs of letters and numbers that are joined by
    single marks. -/
inductive IsName : List Char → Prop
  | run {word : List Char} (ne : word ≠ []) (letters : ∀ c ∈ word, Text.isWordChar c = true) :
    IsName word
  | join {word name : List Char} {mark : Char} (ne : word ≠ [])
      (letters : ∀ c ∈ word, Text.isWordChar c = true) (marks : mark ∈ nameMarks)
      (more : IsName name) : IsName (word ++ mark :: name)

theorem isWordChar_of_mark {c : Char} (h : c ∈ nameMarks) : Text.isWordChar c = false := by
  have hmarks : nameMarks.all (fun c => decide (c.toNat < 0x80) && !c.isAlphanum) = true := by
    decide
  have hc := List.all_eq_true.mp hmarks c h
  simp only [Bool.and_eq_true, decide_eq_true_eq, Bool.not_eq_true'] at hc
  exact Text.not_isWordChar_ascii hc.1 hc.2

/-- ASCII letters and digits are a name. -/
theorem IsName.ascii {word : List Char} (ne : word ≠ [])
    (letters : word.all (fun c => decide (c.toNat < 0x80) && c.isAlphanum) = true) :
    IsName word := by
  refine .run ne fun c hc => ?_
  have hletter := List.all_eq_true.mp letters c hc
  simp only [Bool.and_eq_true, decide_eq_true_eq] at hletter
  exact Text.isWordChar_of_isAlphanum hletter.1 hletter.2

/-- A name starts with a letter or a number. -/
theorem IsName.head {name : List Char} (h : IsName name) :
    ∃ c rest, name = c :: rest ∧ Text.isWordChar c = true := by
  cases h with
  | run ne letters =>
    obtain ⟨c, rest, rfl⟩ := List.exists_cons_of_ne_nil ne
    exact ⟨c, rest, rfl, letters c List.mem_cons_self⟩
  | join ne letters =>
    obtain ⟨c, rest, rfl⟩ := List.exists_cons_of_ne_nil ne
    exact ⟨c, _, rfl, letters c List.mem_cons_self⟩

/-- A run of letters and numbers ends where something else follows. -/
theorem takeWhile_word {word rest : List Char} {c : Char}
    (hword : ∀ c ∈ word, Text.isWordChar c = true) (hc : Text.isWordChar c = false) :
    (word ++ c :: rest).takeWhile Text.isWordChar = word := by
  rw [List.takeWhile_append_of_pos hword, List.takeWhile_cons_of_neg (by simp [hc]),
    List.append_nil]

/-- A name that no letter or number follows, not even after one character,
    is read as it stands. -/
theorem IsName.simpleName {name : List Char} (h : IsName name) {c d : Char}
    (hc : Text.isWordChar c = false) (hd : Text.isWordChar d = false) (after : List Char) :
    simpleName (name ++ c :: d :: after) = (name, c :: d :: after) := by
  have hgo : ∀ count, name.length ≤ count →
      simpleName.go count (name ++ c :: d :: after) = (name, c :: d :: after) := by
    induction h with
    | @run word ne letters =>
      rintro (_ | count) hcount
      · exact absurd (List.length_eq_zero_iff.mp (Nat.le_zero.mp hcount)) ne
      · simp only [simpleName.go, takeWhile_word letters hc, List.drop_left, hd,
          Bool.and_false, Bool.false_eq_true, if_false]
    | @join word name mark ne letters marks more ih =>
      rintro (_ | count) hcount
      · simp at hcount
      · obtain ⟨first, rest, rfl, hfirst⟩ := more.head
        have hrest := ih count (by simp only [List.length_append, List.length_cons] at hcount ⊢; omega)
        have hmark : (mark = '-' || mark = '.' || mark = '_' || mark = '+' || mark = ':') = true := by
          simpa [nameMarks, or_assoc] using marks
        have hword : word.isEmpty = false := by simpa using ne
        simp only [List.append_assoc, List.cons_append] at hrest ⊢
        simp only [simpleName.go, takeWhile_word letters (isWordChar_of_mark marks), List.drop_left,
          hword, hmark, hfirst, hrest, Bool.not_false, Bool.and_self, if_true]
  exact hgo _ (by simp)

/-- The two colons after the name of a directive, after a space or not. -/
inductive IsColons : List Char → Prop
  | close : IsColons [':', ':']
  | apart : IsColons [' ', ':', ':']

/-- A name and two colons announce a directive, before a space or the end of
    the line. -/
theorem IsName.directive? {name colons argument : List Char} (h : IsName name)
    (hcolons : IsColons colons) (hargument : argument = [] ∨ argument.head? = some ' ') :
    ∃ width, directive? (name ++ colons ++ argument) = some (name, width) := by
  have hgap : ∃ k, gap? argument = some k := by
    rcases hargument with rfl | hhead
    · exact ⟨0, rfl⟩
    · cases argument with
      | nil => cases hhead
      | cons c rest =>
        obtain rfl := Option.some.inj hhead
        simp [gap?, Line.indent]
  obtain ⟨k, hk⟩ := hgap
  have hcolon : Text.isWordChar ':' = false := isWordChar_of_mark (by decide)
  have hspace : Text.isWordChar ' ' = false := Text.not_isWordChar_ascii (by decide) (by decide)
  rw [List.append_assoc]
  unfold Pattern.directive?
  cases hcolons with
  | close =>
    have hname := h.simpleName hcolon hcolon argument
    obtain ⟨c, rest, rfl, -⟩ := h.head
    refine ⟨(c :: rest).length + 0 + 2 + k, ?_⟩
    simp only [List.cons_append, List.nil_append] at hname ⊢
    rw [hname]
    show (gap? argument).map _ = _
    rw [hk]
    rfl
  | apart =>
    have hname := h.simpleName hspace hcolon (':' :: argument)
    obtain ⟨c, rest, rfl, -⟩ := h.head
    refine ⟨(c :: rest).length + 1 + 2 + k, ?_⟩
    simp only [List.cons_append, List.nil_append] at hname ⊢
    rw [hname]
    show (gap? argument).map _ = _
    rw [hk]
    rfl

end Pattern

/-! ## The block of a directive -/

/-- The block of a directive: a line with its name and its argument, lines
    that are blank or indented, and a blank line. -/
structure DirectiveBlock where
  /-- The spaces before the name, besides one. -/
  margin : Nat := 0
  name : List Char
  colons : List Char := [':', ':']
  argument : List Char
  body : List Line
  last : Line
  isName : Pattern.IsName name
  isColons : Pattern.IsColons colons
  spaced : argument = [] ∨ argument.head? = some ' '
  inBlock : ∀ x ∈ body, Extract.inBlock x = true
  blank : Text.isBlank last = true

namespace DirectiveBlock

/-- The first line after its marker. -/
def text (b : DirectiveBlock) : Line := b.name ++ b.colons ++ b.argument

/-- The first line. -/
def first (b : DirectiveBlock) : Line :=
  '.' :: '.' :: ' ' :: (List.replicate b.margin ' ' ++ b.text)

/-- The lines of the block. -/
def lines (b : DirectiveBlock) : List Line := b.first :: b.body ++ [b.last]

end DirectiveBlock

/-- The first line that is not blank, if there is one, is not indented. -/
def Flush (ls : List Line) : Prop :=
  ∀ x ∈ ls.find? (!Text.isBlank ·), Line.isIndented x = false

instance (ls : List Line) : Decidable (Flush ls) :=
  inferInstanceAs (Decidable (∀ x ∈ ls.find? (!Text.isBlank ·), Line.isIndented x = false))

namespace Extract

theorem trimEnd_cons {l : Line} (hl : Text.isBlank l = false) (ls : List Line) :
    trimEnd (l :: ls) = l :: trimEnd ls := by
  have hlast : [l].dropWhile Text.isBlank = [l] := by simp [hl]
  simp only [trimEnd, List.reverse_cons, List.dropWhile_append]
  split
  · rename_i hempty
    simp [hlast, List.isEmpty_iff.mp hempty]
  · simp

end Extract

namespace Reader

/-- Blank lines are no blocks. -/
theorem blocks_blank_append {blanks : List Line} (hblanks : ∀ x ∈ blanks, Text.isBlank x = true)
    (how : Manner) (n : Nat) (ls : List Line) :
    blocks how n (blanks ++ ls) = blocks how (n + blanks.length) ls := by
  induction blanks generalizing n with
  | nil => rfl
  | cons x blanks ih =>
    have hx : block how n x (blanks ++ ls) = ([], 0) := by
      rw [block, if_pos (hblanks x List.mem_cons_self)]
    rw [List.cons_append, blocks_cons, hx, List.nil_append, List.drop_zero,
      ih (fun y hy => hblanks y (List.mem_cons_of_mem _ hy)), List.length_cons]
    congr 1
    omega

/-- What starts with the marker of explicit markup starts nothing else. -/
theorem block_explicit {text : List Char} {width : Nat}
    (hwidth : Pattern.marker? ['.', '.'] ('.' :: '.' :: ' ' :: text) = some width) (how : Manner) (n : Nat)
    (rest : List Line) :
    block how n ('.' :: '.' :: ' ' :: text) rest
      = explicitBlock width n ('.' :: '.' :: ' ' :: text) rest := by
  have hdot : Text.isBlankChar '.' = false := by decide
  simp [block, Text.isBlank, hdot, Line.isIndented, Line.indent, Pattern.bullet?,
    Pattern.enumeratorParts?, Pattern.sequence?, Pattern.field?, Pattern.options?,
    Pattern.optionName?, Pattern.isDoctest, Pattern.isLineBlock, Pattern.isGridBorder,
    Pattern.isSimpleBorder, Pattern.marker?, Text.dropStart?] at hwidth ⊢
  obtain ⟨k, hk, rfl⟩ := hwidth
  rw [hk]
  rfl

/-- Before lines that are flush, blank lines alone go on with a block. -/
theorem takeWhile_inBlock {ls : List Line} (h : Flush ls) :
    ls.takeWhile Extract.inBlock = ls.takeWhile Text.isBlank := by
  unfold Flush at h
  induction ls with
  | nil => rfl
  | cons x ls ih =>
    cases hx : Text.isBlank x with
    | true =>
      rw [List.find?_cons_of_neg (by simp [hx])] at h
      rw [List.takeWhile_cons_of_pos (by simp [Extract.inBlock, hx]),
        List.takeWhile_cons_of_pos hx, ih h]
    | false =>
      have hindent : Line.isIndented x = false := h x (List.find?_cons_of_pos (by simp [hx]))
      rw [List.takeWhile_cons_of_neg (by simp [Extract.inBlock, hx, hindent]),
        List.takeWhile_cons_of_neg (by simp [hx])]

section Directive

variable (b : DirectiveBlock)

theorem text_first : ∃ c rest, b.text = c :: rest ∧ Text.isWordChar c = true := by
  obtain ⟨c, rest, hname, hc⟩ := b.isName.head
  exact ⟨c, rest ++ b.colons ++ b.argument, by rw [DirectiveBlock.text, hname]; rfl, hc⟩

theorem marker?_directive : Pattern.marker? ['.', '.'] b.first = some (3 + b.margin) := by
  obtain ⟨c, rest, htext, hc⟩ := text_first b
  have hspace : c ≠ ' ' := by
    rintro rfl
    have hblank := Text.isBlankChar_of_isWordChar hc
    cases hblank
  have hindent : Line.indent (' ' :: (List.replicate b.margin ' ' ++ b.text)) = b.margin + 1 := by
    rw [Line.indent, List.takeWhile_cons_of_pos (by rfl),
      List.takeWhile_append_of_pos (fun d hd => by simp [List.eq_of_mem_replicate hd]), htext,
      List.takeWhile_cons_of_neg (by simp [hspace])]
    simp
  have hgap : Pattern.gap? (' ' :: (List.replicate b.margin ' ' ++ b.text))
      = some (b.margin + 1) := by
    rw [Pattern.gap?, hindent]
    rfl
  simp only [DirectiveBlock.first, Pattern.marker?, Text.dropStart?, if_true, Option.bind_some, hgap,
    Option.map_some, List.length_cons, List.length_nil, Option.some.injEq]
  omega

theorem drop_first : b.first.drop (3 + b.margin) = b.text := by
  rw [Nat.add_comm]
  show (List.replicate b.margin ' ' ++ b.text).drop b.margin = b.text
  exact List.drop_left' List.length_replicate

variable {more : List Line} (hmore : Flush more)

include hmore

/-- The lines that the block takes after its first one: its body, and the
    blank lines after that. -/
theorem taken_directive : (b.body ++ b.last :: more).takeWhile Extract.inBlock
    = b.body ++ b.last :: more.takeWhile Text.isBlank := by
  rw [List.takeWhile_append_of_pos b.inBlock,
    List.takeWhile_cons_of_pos (by simp [Extract.inBlock, b.blank]), takeWhile_inBlock hmore]

/-- The block is one block of explicit markup, which ends well. -/
theorem explicitBlock_directive (n : Nat) :
    ∃ lines markup, explicitBlock (3 + b.margin) n b.first (b.body ++ b.last :: more)
      = ([.explicit n (b.text :: lines) markup],
          (b.body ++ b.last :: more.takeWhile Text.isBlank).length) := by
  obtain ⟨c, rest, htext, hc⟩ := text_first b
  have hfirst : Text.isBlank b.text = false := by
    simp [htext, Text.isBlank, Text.isBlankChar_of_isWordChar hc]
  -- The last line that is taken is blank.
  have hlast : ∀ first, Text.isBlank
      ((b.body ++ b.last :: more.takeWhile Text.isBlank).getLastD first) = true := by
    intro first
    have hmem : (b.last :: more.takeWhile Text.isBlank).getLast (List.cons_ne_nil _ _)
        ∈ b.last :: more.takeWhile Text.isBlank := List.getLast_mem _
    rw [List.getLastD_eq_getLast?, List.getLast?_append_of_ne_nil _ (List.cons_ne_nil _ _),
      List.getLast?_eq_some_getLast (List.cons_ne_nil _ _), Option.getD_some]
    rcases List.mem_cons.mp hmem with hmem | hmem
    · rw [hmem]
      exact b.blank
    · exact List.mem_takeWhile_imp hmem
  refine ⟨Extract.trimEnd (Extract.dedent (b.body ++ b.last :: more.takeWhile Text.isBlank)),
    Line.joinLines (b.first :: Extract.trimEnd ((b.body ++ b.last :: more).take
      (b.body ++ b.last :: more.takeWhile Text.isBlank).length)), ?_⟩
  simp only [explicitBlock, Extract.firstKnown, Extract.finish, taken_directive b hmore, explicitEnd,
    hlast, Bool.or_true, Bool.true_or, unindentUnless, if_true, drop_first,
    Extract.trimEnd_cons hfirst]

/-- Lines that begin with the block of a directive are read as that block and
    then as if its lines were blank. -/
theorem blocks_directive (how : Manner) (n : Nat) {blanks : List Line}
    (hblanks : ∀ x ∈ blanks, Text.isBlank x = true) (hlength : blanks.length = b.lines.length) :
    ∃ lines markup, blocks how n (b.lines ++ more)
      = .explicit n (b.text :: lines) markup :: blocks how n (blanks ++ more) := by
  obtain ⟨lines, markup, hblock⟩ := explicitBlock_directive b hmore n
  have hlines : b.lines ++ more = b.first :: (b.body ++ b.last :: more) := by
    simp [DirectiveBlock.lines]
  have hrest : b.body ++ b.last :: more
      = (b.body ++ b.last :: more.takeWhile Text.isBlank) ++ more.dropWhile Text.isBlank := by
    simp [List.takeWhile_append_dropWhile]
  have hskip : blocks how (n + b.lines.length) more
      = blocks how (n + b.lines.length + (more.takeWhile Text.isBlank).length)
          (more.dropWhile Text.isBlank) := by
    conv_lhs => rw [← List.takeWhile_append_dropWhile (p := Text.isBlank) (l := more)]
    exact blocks_blank_append (fun x hx => List.mem_takeWhile_imp hx) _ _ _
  refine ⟨lines, markup, ?_⟩
  calc blocks how n (b.lines ++ more)
      = .explicit n (b.text :: lines) markup
          :: blocks how (n + 1 + (b.body ++ b.last :: more.takeWhile Text.isBlank).length)
            (more.dropWhile Text.isBlank) := by
        rw [hlines, blocks_cons, DirectiveBlock.first, block_explicit (marker?_directive b),
          ← DirectiveBlock.first, hblock]
        dsimp only
        rw [hrest, List.drop_left]
        rfl
    _ = .explicit n (b.text :: lines) markup :: blocks how (n + b.lines.length) more := by
        rw [hskip]
        congr 2
        simp only [DirectiveBlock.lines, List.length_append, List.length_cons, List.length_nil]
        omega
    _ = _ := by rw [blocks_blank_append hblanks, hlength]

end Directive

end Reader

/-! ## Reading around the block -/

namespace Site

variable {site : Site}

/-- An ignored directive accepts every block. -/
theorem read_ignored (body : List Line) (offset : Nat) :
    ∃ block, Directive.ignored.spec.read body offset = .ok block := by
  have harguments : Directive.ignored.spec.readBlockArguments body = .ok [] := rfl
  have hcontent : Directive.ignored.spec.hasContent = true := rfl
  unfold DirectiveSpec.read
  rw [harguments, hcontent, Bool.not_true, Bool.and_false]
  exact ⟨_, rfl⟩

/-- An ignored directive adds nothing, whatever its block holds. -/
theorem block_ignored (read : ReadBody) (b : DirectiveBlock)
    (hignored : site.env.directive? (String.ofList b.name) = some .ignored) (n : Nat)
    (lines : List Line) (markup : List Char) :
    site.block read (.explicit n (b.text :: lines) markup) = pure () := by
  obtain ⟨c, rest, htext, hc⟩ := Reader.text_first b
  obtain ⟨width, hdirective⟩ := b.isName.directive? b.isColons b.spaced
  have hmarked : ∀ mark, Text.isWordChar mark = false →
      isMarked mark ((b.text :: lines).headD []) = false := by
    intro mark hmark
    have hne : c ≠ mark := by
      rintro rfl
      exact Bool.false_ne_true (hmark.symm.trans hc)
    rw [List.headD_cons, htext]
    cases rest <;> simp [isMarked, hne]
  have hcall : directiveText? (b.text :: lines)
      = some (String.ofList b.name, b.text.drop width :: lines) := by
    show (Pattern.directive? b.text).map _ = _
    rw [show Pattern.directive? b.text = _ from hdirective]
    rfl
  have hrun : site.explicit read (b.text :: lines) n (String.ofList markup) = pure [] := by
    obtain ⟨block, hread⟩ := read_ignored (b.text.drop width :: lines) (n - 1)
    unfold explicit directive
    simp only [hmarked '_' (Text.not_isWordChar_ascii (by decide) (by decide)), Bool.false_eq_true,
      hmarked '|' (Text.not_isWordChar_ascii (by decide) (by decide)), if_false, hcall, hignored, hread]
    rfl
  show (do site.add (← site.explicit read (b.text :: lines) n (String.ofList markup))) = _
  rw [hrun]
  rfl

/-- Any two depths beyond the size of a body read it in the same way. -/
theorem readWithin_depth (site : Site) (count : Nat) {body : Body} {depth depth' : Nat}
    (hdepth : body.size < depth) (hdepth' : body.size < depth') :
    readWithin (read count) depth site body = readWithin (read count) depth' site body := by
  funext s
  let v : World := ⟨site.env.files, site.env.clock⟩
  let L : License := .anyOf s.doc.origin
  have hfree : L.Free := License.free_anyOf _
  have hallowed : Reached.Allowed L s.doc.origin site body :=
    fun _ site' _ _ block _ => site'.allowed_of_free hfree block
  have hfile : ∀ f site' b', Reached s.doc.origin site body [f] site' b' →
      (False → site'.titles = false) →
      Contract (growing v v L 0 False) Anything (read count site' b')
        (read count (site'.under v) b') := by
    intro f site' b' hreached _
    have hsite : site'.under v = site' := hreached.under_eq rfl
    have hread : Contract (growing v v L 0 False) Anything (read count (site'.under v) b')
        (read count (site'.under v) b') :=
      site'.grow_read (hfree.covers _) count b' rfl False.elim
    rw [hsite] at hread ⊢
    exact hread
  -- Compared with itself, in one world, reading is the same to any depth.
  have hboth : Contract (growing v v L 0 False) Anything
      (readWithin (read count) depth site body)
      (readWithin (read count) depth' (site.under v) body) :=
    Reached.grow_readWithin rfl (fun _ h => h) hallowed hfile .start hdepth hdepth' False.elim
  exact hboth.run_eq id ⟨Nat.zero_le _, fun _ _ _ _ => Nat.zero_le _, rfl⟩

/-- **An ignored directive is inert.**  Lines that begin with its block are
    read as if every line of the block were blank. -/
theorem read_blanked (site : Site) (b : DirectiveBlock)
    (hignored : site.env.directive? (String.ofList b.name) = some .ignored) {more : List Line}
    (hmore : Flush more) {blanks : List Line} (hblanks : ∀ x ∈ blanks, Text.isBlank x = true)
    (hlength : blanks.length = b.lines.length) (count offset : Nat) :
    Site.read count site ⟨offset, b.lines ++ more⟩ = Site.read count site ⟨offset, blanks ++ more⟩ := by
  cases count with
  | zero => rfl
  | succ count =>
    let how := (Body.mk offset (b.lines ++ more)).manner site.titles site.env.conventions.width
    obtain ⟨lines, markup, hblocks⟩ :=
      Reader.blocks_directive b hmore how (offset + 1) hblanks hlength
    let depth := (Body.mk offset (b.lines ++ more)).size + (Body.mk offset (blanks ++ more)).size
    have hbody : ∀ read : ReadBody,
        (site.blocks ⟨offset, b.lines ++ more⟩).forM (site.block read)
          = (site.blocks ⟨offset, blanks ++ more⟩).forM (site.block read) := by
      intro read
      show (Reader.blocks how _ _).forM _ = _
      rw [hblocks]
      show (site.block read _ >>= fun _ => _) = _
      rw [block_ignored read b hignored, pure_bind]
      rfl
    -- The bodies differ in size, but both are read alike with one depth for both.
    calc readWithin (Site.read count) _ site ⟨offset, b.lines ++ more⟩
        = readWithin (Site.read count) (depth + 1) site ⟨offset, b.lines ++ more⟩ :=
          site.readWithin_depth count (Nat.lt_succ_self _) (by omega)
      _ = readWithin (Site.read count) (depth + 1) site ⟨offset, blanks ++ more⟩ := hbody _
      _ = readWithin (Site.read count) _ site ⟨offset, blanks ++ more⟩ :=
          site.readWithin_depth count (by omega) (Nat.lt_succ_self _)

end Site

/-! ## Linting -/

/-- A name that shows something has a form to be bound under. -/
theorem bindingName_ne_empty {name : String} (h : Text.isBlank name.toList = false) :
    bindingName name ≠ "" := by
  intro hempty
  have hlower : Text.lower (Text.trim name.toList) = [] := by
    simpa [bindingName] using hempty
  have htrim : Text.trim name.toList = [] := List.map_eq_nil_iff.mp hlower
  exact (Shade.trim_eq_empty_iff name).mp (by rw [htrim]) (Shade.of_eq_visible_iff.mpr h)

/-- Where names are all bound to one value, each is bound to it. -/
theorem Data.Table.get?_foldl_const {α : Type} {value : α} {key : String} (hkey : key ≠ "")
    {names : List String} {acc : Table α × Displaced α}
    (h : acc.1.get? key = some value ∨ ∃ name ∈ names, bindingName name = key) :
    ((names.map fun n => (n, value)).foldl installOne acc).1.get? key = some value := by
  induction names generalizing acc with
  | nil =>
    rcases h with h | ⟨_, hmem, -⟩
    · exact h
    · cases hmem
  | cons name names ih =>
    rw [List.map_cons, List.foldl_cons]
    refine ih ?_
    by_cases hname : bindingName name = key
    · refine .inl ?_
      simp only [installOne, hname, hkey, if_false]
      exact get?_set_self _ _ _
    · rcases h with h | ⟨other, hmem, hother⟩
      · refine .inl ?_
        simp only [installOne]
        split
        · exact h
        · exact (get?_set_of_ne _ _ (Ne.symm hname)).trans h
      · refine .inr ⟨other, (List.mem_cons.mp hmem).resolve_left ?_, hother⟩
        rintro rfl
        exact hname hother

/-- A merged list has every name of the lists but the empty one. -/
theorem Catalog.mem_merge_of_mem {names others : List String} {name : String}
    (h : name ∈ names ++ others) (hne : name ≠ "") : name ∈ merge [names, others] := by
  have hfold : ∀ (list acc : List String), name ∈ acc ∨ name ∈ list →
      name ∈ list.foldl addName acc := by
    intro list
    induction list with
    | nil => exact fun acc h => h.resolve_right (List.not_mem_nil)
    | cons x list ih =>
      intro acc h
      refine ih _ ?_
      rcases h with hacc | hmem
      · refine .inl ?_
        unfold addName
        split
        · exact hacc
        · exact List.mem_append_left _ hacc
      · rcases List.mem_cons.mp hmem with rfl | hmem
        · refine .inl ?_
          unfold addName
          split
          · rename_i hkept
            simpa [hne] using hkept
          · exact List.mem_append_right _ (List.mem_singleton_self _)
        · exact .inr hmem
  refine hfold _ [] (.inr ?_)
  simpa using h

namespace Linter

/-- The ignored directives of a lint are bound to what ignores them. -/
theorem directive?_ignored (l : Linter) (o : LintOptions) {ignored name : String}
    (hignored : ignored ∈ l.baseDirectives ++ o.ignoreDirectives)
    (hname : bindingName ignored = bindingName name) (hbound : bindingName name ≠ "") :
    (l.surroundings o).directive? name = some .ignored := by
  have hne : ignored ≠ "" := by
    rintro rfl
    exact hbound hname.symm
  exact Data.Table.get?_foldl_const hbound
    (.inr ⟨ignored, Catalog.mem_merge_of_mem hignored hne, hname⟩)

/-- **An ignored directive is inert.**  Let a text begin with the block of a
    directive that is ignored, and let the first line after it that is not
    blank not be indented.  Linting it gives what linting a text gives in
    which every line of the block is blank: the same records and the same
    dependencies. -/
theorem lint_ignored_directive (l : Linter) (o : LintOptions) (b : DirectiveBlock)
    {ignored : String} (hignored : ignored ∈ l.baseDirectives ++ o.ignoreDirectives)
    (hname : bindingName ignored = bindingName (String.ofList b.name)) {more : List Line}
    (hmore : Flush more) {blanks : List Line} (hblanks : ∀ x ∈ blanks, Text.isBlank x = true)
    (hlength : blanks.length = b.lines.length) {text blanked : List Char}
    (htext : splitLines? (l.newDocument o.source).tabWidth text = some (b.lines ++ more))
    (hblanked : splitLines? (l.newDocument o.source).tabWidth blanked = some (blanks ++ more)) :
    (l.lint text o).1 = (l.lint blanked o).1 := by
  have hbound : bindingName (String.ofList b.name) ≠ "" := by
    obtain ⟨c, rest, hc, hword⟩ := b.isName.head
    refine bindingName_ne_empty ?_
    simp [hc, Text.isBlank, Text.isBlankChar_of_isWordChar hword]
  have hread := Site.read_blanked ((l.newDocument o.source).site (l.surroundings o)) b
    (l.directive?_ignored o hignored hname hbound) hmore hblanks hlength
    ((l.surroundings o).nesting + 1) 0
  rw [lint_eq_finish, lint_eq_finish, Document.parse_eq, Document.parse_eq,
    Document.parseText_of_some _ htext, Document.parseText_of_some _ hblanked, hread]

/-- An ignored directive with an argument, an option and content that is no
    good markup. -/
theorem lint_ignored_directive_seealso :
    let l : Linter :=
      { env := { constructs := .standard, files := {}, clock := 0, nesting := 3 },
        baseDirectives := ["SeeAlso"] }
    (l.lint ".. seealso:: `x\n   :key: 1\n\n   .. bad::\n\t\n\nText.".toList {}).1
      = (l.lint "\n\n\n\n\n\nText.".toList {}).1 := by
  intro l
  let b : DirectiveBlock :=
    { name := "seealso".toList, argument := " `x".toList
      body := ["   :key: 1".toList, [], "   .. bad::".toList], last := []
      isName := .ascii (by decide) (by decide)
      isColons := .close, spaced := .inr rfl, inBlock := by decide, blank := rfl }
  have hignored : "SeeAlso" ∈ l.baseDirectives ++ ({} : LintOptions).ignoreDirectives := by decide
  have hmore : Flush [[], "Text.".toList] := by decide
  have hblanks : ∀ x ∈ List.replicate 5 ([] : Line), Text.isBlank x = true := by decide
  exact lint_ignored_directive l {} b hignored (by decide) hmore hblanks (by decide) (by decide)
    (by decide)

end Linter

end MarkupLint
