import MarkupLint.Proofs.Bullets
import MarkupLint.Proofs.Hanging
import MarkupLint.Proofs.Roles

/-! # Literal blocks keep their text

    Lines that were put some columns further in are the lines they were
    without their common indentation (`Extract.dedent_map_shift`), as long as
    one of them was not indented before.  So a literal block has the text of
    its lines, character by character, and no markup is looked for in it
    (`Document.parse_verbatim`). -/

namespace MarkupLint

/-! ## Lines further in -/

namespace Line

/-- A line so many columns further in; an empty one stays empty. -/
def shift (k : Nat) (l : Line) : Line := if l.isEmpty then [] else List.replicate k ' ' ++ l

variable {l : Line} {k : Nat}

theorem shift_of_ne_nil (h : l ≠ []) (k : Nat) : shift k l = List.replicate k ' ' ++ l := by
  rw [shift, if_neg (by simpa using h)]

theorem drop_shift (k : Nat) (l : Line) : (shift k l).drop k = l := by
  cases l with
  | nil => exact List.drop_nil
  | cons c l => rw [shift_of_ne_nil (List.cons_ne_nil c l), List.drop_left' List.length_replicate]

theorem isBlank_shift (k : Nat) (l : Line) : Text.isBlank (shift k l) = Text.isBlank l := by
  have hspace : Text.isBlankChar ' ' = true := by decide
  cases l with
  | nil => rfl
  | cons c l => simp [shift, Text.isBlank, hspace]

theorem indent_shift (h : l ≠ []) (k : Nat) : (shift k l).indent = k + l.indent := by
  rw [shift_of_ne_nil h, indent, indent, List.takeWhile_append_of_pos (by simp)]
  simp

theorem Clean.shift (h : Clean l) (k : Nat) : Clean (shift k l) := by
  by_cases hl : l = []
  · rw [hl]
    exact .nil
  · rw [shift_of_ne_nil hl]
    refine ⟨List.forall_mem_append.mpr ⟨fun c hc => ?_, h.kept⟩, ?_⟩
    · rw [List.eq_of_mem_replicate hc]
      decide
    · rw [List.getLast?_append_of_ne_nil _ hl]
      exact h.stop

end Line

namespace Extract

variable {ls : List Line} {k : Nat}

/-- What is put further in has as much common indentation. -/
theorem commonIndent_map_shift (h : ∃ l ∈ ls, Text.isBlank l = false ∧ l.isIndented = false)
    (k : Nat) : commonIndent (ls.map (Line.shift k)) = k := by
  have hindent : ∀ l : Line, Text.isBlank l = false → (Line.shift k l).indent = k + l.indent :=
    fun l hl => Line.indent_shift (by rintro rfl; cases hl) k
  have hmin : (((ls.map (Line.shift k)).filter (!Text.isBlank ·)).map Line.indent).min? = some k := by
    rw [List.min?_eq_some_iff]
    constructor
    · obtain ⟨l, hl, hblank, hflush⟩ := h
      refine List.mem_map.mpr ⟨Line.shift k l, List.mem_filter.mpr ⟨List.mem_map_of_mem hl, ?_⟩, ?_⟩
      · rw [Line.isBlank_shift, hblank, Bool.not_false]
      · have hzero : l.indent = 0 := by simpa [Line.isIndented] using hflush
        rw [hindent l hblank, hzero, Nat.add_zero]
    · simp only [List.mem_map, List.mem_filter]
      rintro _ ⟨_, ⟨⟨l, -, rfl⟩, hblank⟩, rfl⟩
      rw [Line.isBlank_shift, Bool.not_eq_true'] at hblank
      rw [hindent l hblank]
      exact Nat.le_add_right _ _
  rw [commonIndent, hmin, Option.getD_some]

/-- Without it, the lines are as they were. -/
theorem dedent_map_shift (h : ∃ l ∈ ls, Text.isBlank l = false ∧ l.isIndented = false) (k : Nat) :
    dedent (ls.map (Line.shift k)) = ls := by
  rw [dedent, commonIndent_map_shift h, List.map_map]
  exact (List.map_congr_left fun l _ => Line.drop_shift k l).trans (List.map_id ls)

theorem inBlock_shift (hk : 0 < k) (l : Line) : inBlock (Line.shift k l) = true := by
  cases l with
  | nil => rfl
  | cons c l =>
    have hindent : 0 < (Line.shift k (c :: l)).indent := by
      rw [Line.indent_shift (List.cons_ne_nil c l)]
      omega
    rw [inBlock, Line.isIndented, decide_eq_true hindent, Bool.or_true]

end Extract

/-! ## The block -/

/-- Lines that a literal block can hold as they are: it starts and ends with
    one that is not blank, and not all of them are indented. -/
structure Verbatim (content : List Line) : Prop where
  clean : ∀ l ∈ content, Line.Clean l
  opening : ∃ l ∈ content.head?, Text.isBlank l = false
  closing : ∃ l ∈ content.getLast?, Text.isBlank l = false
  flush : ∃ l ∈ content, Text.isBlank l = false ∧ l.isIndented = false

/-- A word that announces a literal block, and the block, `k` columns in. -/
def verbatimLines (word : Line) (k : Nat) (content : List Line) : List Line :=
  (word ++ [':', ':']) :: [] :: content.map (Line.shift k)

variable {word : Line} {content : List Line} {k : Nat}

namespace Reader

/-- The block takes all lines and gives them back. -/
theorem literalAfter_shift (h : Verbatim content) (hk : 0 < k) (n : Nat) :
    literalAfter n ([] :: content.map (Line.shift k))
      = ([.literal (n + 1) (Line.joinLines content)], content.length + 1) := by
  obtain ⟨l, hl, hopening⟩ := h.opening
  obtain ⟨rest, rfl⟩ : ∃ rest, content = l :: rest := by
    cases content with
    | nil => cases hl
    | cons x rest => exact ⟨rest, by rw [Option.some.inj hl]⟩
  have hblank : Text.isBlank (Line.shift k l) = false := by rw [Line.isBlank_shift, hopening]
  have hindented : (Line.shift k l).isIndented = true := by
    have hin := Extract.inBlock_shift hk l
    rwa [Extract.inBlock, hblank, Bool.false_or] at hin
  have htaken : (rest.map (Line.shift k)).takeWhile Extract.inBlock = rest.map (Line.shift k) := by
    rw [List.takeWhile_eq_self_iff]
    exact List.forall_mem_map.mpr fun l _ => Extract.inBlock_shift hk l
  have hstop : ∀ x ∈ (l :: rest).getLast?, Text.isBlank x = false := by
    obtain ⟨x, hx, hclosing⟩ := h.closing
    exact fun y hy => Option.some.inj (hx.symm.trans hy) ▸ hclosing
  have htrim : Extract.trimEnd (l :: rest) = l :: rest := by
    have htrim := Extract.trimEnd_append_replicate hstop 0
    rwa [List.replicate_zero, List.append_nil] at htrim
  have hextract : Extract.indented (Line.shift k l) (rest.map (Line.shift k))
      = ⟨l :: rest, rest.length, true⟩ := by
    rw [Extract.indented, htaken, List.drop_length, Extract.finish, ← List.map_cons,
      Extract.dedent_map_shift h.flush, htrim, List.length_map]
    rfl
  have hrun : ([] :: (l :: rest).map (Line.shift k)).takeWhile Text.isBlank = [[]] := by
    rw [List.takeWhile_cons_of_pos rfl, List.map_cons, List.takeWhile_cons_of_neg (by simp [hblank])]
  unfold literalAfter
  rw [hrun]
  simp only [List.length_singleton, List.drop_one, List.tail_cons, List.map_cons, hindented,
    if_true, hextract, unindentUnless]
  rw [List.length_cons, Nat.add_comm (1 + 1), Nat.add_assoc]

/-- Two colons right after a word stand for one, and announce a block. -/
theorem announcement_colons (h : word.isLettered = true) :
    announcement (word ++ [':', ':']) = (word ++ [':'], true) := by
  obtain ⟨c, more, rfl, hc⟩ := Line.start_of_isLettered h
  have hlast : ∃ d front, (c :: more).reverse = d :: front ∧ d.isAlpha = true := by
    obtain ⟨d, front, hreverse⟩ := List.exists_cons_of_ne_nil (List.reverse_ne_nil_iff.mpr
      (List.cons_ne_nil c more))
    have hmem : d ∈ c :: more := List.mem_reverse.mp (hreverse ▸ List.mem_cons_self)
    exact ⟨d, front, hreverse, Line.isAlpha_of_isLettered h d hmem⟩
  obtain ⟨d, front, hreverse, hd⟩ := hlast
  have htrim : Text.trim (c :: more ++ [':', ':']) ≠ [':', ':'] := by
    have hblank : ∀ x ∈ c :: more ++ [':', ':'], Text.isBlankChar x = false :=
      List.forall_mem_append.mpr ⟨fun x hx => Line.isBlankChar_of_isAlpha
        (Line.isAlpha_of_isLettered h x hx), List.forall_mem_cons.mpr ⟨rfl, List.forall_mem_singleton.mpr rfl⟩⟩
    rw [Text.trim_of_not_blank hblank]
    exact fun heq => Line.ne_of_isAlpha hc (by decide) (List.cons.inj heq).1
  have hspace : (d = ' ' || d = '\n') = false := by
    simp [Line.ne_of_isAlpha hd (x := ' ') (by decide), Line.ne_of_isAlpha hd (x := '\n') (by decide)]
  have hback : (':' :: ':' :: d :: front).reverse = c :: more ++ [':', ':'] := by
    rw [← hreverse]
    simp
  rw [← hback] at htrim ⊢
  unfold announcement
  rw [List.reverse_reverse]
  simp only [if_neg htrim, hspace, Bool.false_eq_true, if_false]
  rw [← hreverse]
  simp

/-- The lines are a paragraph and a literal block. -/
theorem blocks_verbatimLines (hword : word.isLettered = true) (h : Verbatim content) (hk : 0 < k)
    (how : Manner) (n : Nat) :
    blocks how n (verbatimLines word k content)
      = [.paragraph n (word ++ [':']) none, .literal (n + 2) (Line.joinLines content)] := by
  have hstarts : startsText (word ++ [':', ':']) = true := by
    obtain ⟨c, more, rfl, hc⟩ := Line.start_of_isLettered hword
    exact Line.startsText_of_isAlpha hc _
  have hblank : Text.isBlank ([] : Line) = true := rfl
  have hblock : block how n (word ++ [':', ':']) ([] :: content.map (Line.shift k))
      = ([.paragraph n (word ++ [':']) none, .literal (n + 2) (Line.joinLines content)],
        content.length + 1) := by
    have hadornment : Pattern.isAdornment [] = false := rfl
    have hindented : Line.isIndented [] = false := rfl
    rw [block_of_startsText hstarts]
    simp only [text, hadornment, hblank, hindented, Bool.false_eq_true, if_false, Bool.not_true,
      Bool.false_and, paragraph, List.takeWhile_cons_of_neg, List.length_nil, List.drop_zero, if_true,
      Line.joinLines, List.intercalate_singleton, announcement_colons hword, not_false_eq_true]
    rw [literalAfter_shift h hk, Nat.zero_add]
    rfl
  rw [verbatimLines, blocks_cons, hblock]
  dsimp only
  rw [List.drop_eq_nil_of_le (by simp), blocks, List.append_nil]

end Reader

/-! ## The document -/

namespace Site

variable {g : Forest} {site : Site} {s : ParseState}

/-- A literal block is hung up with its text. -/
theorem literal_hung (site : Site) (read : ReadBody) (line : Nat) {text : List Char} (hne : text ≠ [])
    (hs : s.doc.forest.WellFormed) (hp : site.place s < s.doc.forest.size) :
    ∃ g i, site.block read (.literal line text) s = .ok ⟨⟩ (s.withForest g) ∧
      s.doc.forest.Hung g (site.place s) [i]
        [.node { kind := .literalBlock, line := line } [.leaf text]] := by
  obtain ⟨g, i, helement, hmade⟩ := Build.textElement_made { kind := .literalBlock, line := line }
    (String.ofList text) hs
  rw [if_neg (by simpa using hne)] at hmade
  obtain ⟨h, hadd, hhung⟩ := site.add_hung hmade hs hp
  exact ⟨h, i, (Parse.bind_ok (Parse.build_ok helement) _).trans hadd, hhung⟩

end Site

namespace Verbatim

theorem text_ne_nil (h : Verbatim content) : Line.joinLines content ≠ [] := by
  obtain ⟨l, hl, hblank⟩ := h.opening
  intro hnone
  cases content with
  | nil => cases hl
  | cons x rest =>
    obtain rfl := Option.some.inj hl
    have hx : x = [] := by
      cases rest with
      | nil => simpa [Line.joinLines] using hnone
      | cons y rest =>
        rw [Line.joinLines_cons_cons] at hnone
        simp at hnone
    rw [hx] at hblank
    cases hblank

/-- The lines of the text, with or without a line feed at its end. -/
theorem splitLines?_text (hword : word.isLettered = true) (h : Verbatim content)
    {ending : List Char} (hending : ending = [] ∨ ending = ['\n']) (k : Nat) (width : Int) :
    splitLines? width (Line.joinLines (verbatimLines word k content) ++ ending)
      = some (verbatimLines word k content) := by
  have hword' : Line.Tidy (word ++ [':', ':']) := by
    refine ⟨List.forall_mem_append.mpr ⟨fun c hc => ?_, by simp⟩, by simp⟩
    exact Line.printable_of_isAlpha (Line.isAlpha_of_isLettered hword c hc)
  have hclean : ∀ l ∈ verbatimLines word k content, Line.Clean l :=
    List.forall_mem_cons.mpr ⟨hword'.clean, List.forall_mem_cons.mpr ⟨.nil,
      List.forall_mem_map.mpr fun l hl => (h.clean l hl).shift k⟩⟩
  have hlast : ∃ l ∈ (verbatimLines word k content).getLast?, l ≠ [] := by
    obtain ⟨l, hl, hblank⟩ := h.closing
    refine ⟨Line.shift k l, ?_, ?_⟩
    · rw [verbatimLines, List.getLast?_cons_of_ne_nil (List.cons_ne_nil _ _),
        List.getLast?_cons_of_ne_nil (by rintro hnone; simp_all), List.getLast?_map, hl]
      rfl
    · rintro hnil
      rw [← Line.isBlank_shift k, hnil] at hblank
      cases hblank
  refine splitLines?_of_clean hclean hlast ?_ hending width
  obtain ⟨c, more, rfl, hc⟩ := Line.start_of_isLettered hword
  exact fun heq => Line.ne_of_isAlpha hc (by decide) (Option.some.inj heq)

end Verbatim

/-- **Literal blocks keep their text.**  Lines without tabs, line breaks,
    other white space that is replaced and spaces at their end, of which the
    first and the last are not blank and some line that is not blank is not
    indented, may stand any number of columns in, below a word that announces
    them: they are one literal block whose text is these lines, whatever they
    hold, and nothing is said. -/
theorem Document.parse_verbatim {word : Line} {content : List Line} {k : Nat}
    (hword : word.isLettered = true) (h : Verbatim content) (hk : 0 < k) {ending : List Char}
    (hending : ending = [] ∨ ending = ['\n']) (env : Surroundings) (source : String)
    (settings : Settings) (reporter : Reporter) :
    let d : Document := { new source settings with reporter := reporter }
    ∃ g, d.parse env (Line.joinLines (verbatimLines word k content) ++ ending)
        = (.ok (), { d with forest := g }) ∧
      g.shape d.root = .node { kind := .document, source := source }
        [.node { kind := .paragraph, line := 1, source := source } [.leaf (word ++ [':'])],
          .node { kind := .literalBlock, line := 3 } [.leaf (Line.joinLines content)]] := by
  intro d
  have hd : d.forest.WellFormed := wellFormed_new source settings
  have hroot : d.root < d.forest.size := Nat.zero_lt_one
  let site : Site := d.site env
  let body : Body := ⟨0, verbatimLines word k content⟩
  let read : ReadBody :=
    ⟨Site.readWithin (Site.read env.nesting) body.size, Site.read env.nesting⟩
  have hplain := Line.plain_of_isLettered hword
  have hne : word ++ [':'] ≠ [] := by simp
  have hescape : '\\' ∉ word ++ [':'] := by
    simpa using Inline.not_mem_of_isPlain hplain (by decide)
  obtain ⟨f, made, hinline, hmade, hmessages, -⟩ := Parse.inlineParse_of_pieces_eq_nil hne
    (Inline.pieces_colon hplain) hescape site 1 (s := { doc := d }) hd
  obtain ⟨f, i, hparagraph, hhung⟩ := Site.paragraph_hung hne hinline hmade hmessages hd hroot
  obtain ⟨g, j, hliteral, hhung'⟩ := site.literal_hung read 3 h.text_ne_nil
    (s := ParseState.withForest { doc := d } f) hhung.wellFormed
    (Nat.lt_of_lt_of_le hroot hhung.size)
  have hread : Site.read (env.nesting + 1) site body { doc := d }
      = .ok ⟨⟩ (ParseState.withForest { doc := d } g) := by
    show (Reader.blocks (body.manner true env.conventions.width) 1
      (verbatimLines word k content)).forM (site.block read) { doc := d } = _
    rw [Reader.blocks_verbatimLines hword h hk]
    have hblock : site.block read (.paragraph 1 (word ++ [':']) none) { doc := d }
        = .ok ⟨⟩ (ParseState.withForest { doc := d } f) := hparagraph
    exact (Site.forM_cons hblock _).trans (Site.forM_cons hliteral _)
  obtain ⟨hparse, hshape⟩ := parse_hung rfl rfl
    (h.splitLines?_text hword hending k d.tabWidth) hread (hhung.trans hhung' hd)
  exact ⟨g, hparse, hshape⟩

/-- Markup, an empty line, a further indented one and one with nothing but a
    no-break space. -/
theorem Document.parse_verbatim_markup :
    let content : List Line := ["*a* |b|_".toList, [], "  .. c::".toList, ['\u00a0'], "d\x60".toList]
    let d : Document := { new "d.rst" {} with reporter := (new "d.rst" {}).reporter }
    Line.isLettered ['S', 'e', 'e'] = true ∧ Verbatim content ∧ (0 < 3) ∧ (['\n'] = [] ∨ ['\n'] = ['\n']) ∧
      ∃ g, d.parse Site.standardTop.env
          (Line.joinLines (verbatimLines ['S', 'e', 'e'] 3 content) ++ ['\n'])
          = (.ok (), { d with forest := g }) ∧
        g.shape d.root = .node { kind := .document, source := "d.rst" }
          [.node { kind := .paragraph, line := 1, source := "d.rst" } [.leaf ['S', 'e', 'e', ':']],
            .node { kind := .literalBlock, line := 3 } [.leaf (Line.joinLines content)]] := by
  intro content d
  have hword : Line.isLettered ['S', 'e', 'e'] = true := by decide
  have hkept : ∀ l ∈ content, ∀ c ∈ l, c ∉ ['\t', '\n', '\r', '\x0b', '\x0c'] := by simp [content]
  have hstop : ∀ l ∈ content, l.getLast? ≠ some ' ' := by simp [content]
  have h : Verbatim content :=
    { clean := fun l hl => ⟨hkept l hl, hstop l hl⟩
      opening := ⟨_, rfl, by decide +kernel⟩
      closing := ⟨_, rfl, by decide +kernel⟩
      flush := ⟨_, List.mem_cons_self, by decide +kernel, by decide +kernel⟩ }
  exact ⟨hword, h, by decide, .inr rfl,
    parse_verbatim hword h (by decide) (.inr rfl) Site.standardTop.env "d.rst" {} _⟩

end MarkupLint
