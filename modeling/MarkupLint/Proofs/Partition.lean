import Mathlib.Data.List.Forall2
import Mathlib.Data.List.Nodup
import MarkupLint.Proofs.Arguments
import MarkupLint.Proofs.Content

/-! # What becomes of the lines of a directive block

    Every line of a block that can be read and is not blank is used once
    (`DirectiveSpec.Partition`).  The lines with the options fall into
    fields, each with the lines that go on with it (`OptionField`), and
    every field gives one option. -/

namespace MarkupLint

/-- A field of an option block and the lines that go on with it. -/
structure OptionField where
  name : List Char
  width : Nat
  first : Line
  more : List Line
  isField : Pattern.field? first = some (name, width)
  goesOn : ∀ l ∈ more, Pattern.field? l = none ∧ l.isIndented = true

namespace OptionField

/-- The lines of a field. -/
def lines (o : OptionField) : List Line := o.first :: o.more

/-- The option that a field names. -/
def key (o : OptionField) : String := String.ofList (Text.lower o.name)

/-- What a field says, line by line; nothing for a first line that holds the
    name alone. -/
def texts (o : OptionField) : List (List Char) :=
  let first := Text.trim (o.first.drop o.width)
  (if first.isEmpty then [] else [first]) ++ o.more.map Text.trim

/-- The value that a field gives to be converted. -/
def value (o : OptionField) : String := String.ofList (Line.joinLines o.texts)

/-- A field with one more line. -/
def goOn (o : OptionField) (l : Line) (hfield : Pattern.field? l = none)
    (hindented : l.isIndented = true) : OptionField :=
  { o with
    more := o.more ++ [l]
    goesOn := List.forall_mem_append.mpr
      ⟨o.goesOn, List.forall_mem_singleton.mpr ⟨hfield, hindented⟩⟩ }

@[simp] theorem lines_goOn (o : OptionField) {l : Line} (hfield : Pattern.field? l = none)
    (hindented : l.isIndented = true) : (o.goOn l hfield hindented).lines = o.lines ++ [l] := rfl

@[simp] theorem texts_goOn (o : OptionField) {l : Line} (hfield : Pattern.field? l = none)
    (hindented : l.isIndented = true) :
    (o.goOn l hfield hindented).texts = o.texts ++ [Text.trim l] := by
  simp [texts, goOn]

end OptionField

/-- One more line is a field of its own or goes on with the last one. -/
theorem addRawLine_fields {fields : List OptionField} {l : Line}
    {after : List (List Char × List (List Char))}
    (h : addRawLine (fields.map fun o => (o.name, o.texts)) l = .ok after) :
    ∃ fields' : List OptionField, after = fields'.map (fun o => (o.name, o.texts)) ∧
      fields'.flatMap OptionField.lines = fields.flatMap OptionField.lines ++ [l] := by
  simp only [addRawLine] at h
  split at h
  · rename_i name width hfield
    cases h
    refine ⟨fields ++ [⟨name, width, l, [], hfield, List.forall_mem_nil _⟩], ?_, ?_⟩
    · simp [OptionField.texts]
    · simp [OptionField.lines]
  · rename_i hfield
    split at h
    · cases h
    · rename_i hnot
      have hindented : l.isIndented = true := by simpa using hnot
      rcases List.eq_nil_or_concat fields with rfl | ⟨before, o, rfl⟩
      · cases h
      · rw [List.concat_eq_append, List.map_append, List.reverse_append] at h
        simp only [List.map_cons, List.map_nil, List.reverse_cons, List.reverse_nil, List.nil_append,
          List.cons_append] at h
        cases h
        refine ⟨before ++ [o.goOn l hfield hindented], ?_, ?_⟩
        · rw [List.map_append, List.map_singleton, OptionField.texts_goOn, List.reverse_reverse]
          rfl
        · simp

/-- The lines with the options fall into fields. -/
theorem rawOptions_fields {lines : List Line} {raw : List (List Char × List (List Char))}
    (h : rawOptions lines = .ok raw) :
    ∃ fields : List OptionField, raw = fields.map (fun o => (o.name, o.texts)) ∧
      fields.flatMap OptionField.lines = lines := by
  suffices hfrom : ∀ (lines : List Line) (before : List OptionField),
      lines.foldlM addRawLine (before.map fun o => (o.name, o.texts)) = .ok raw →
        ∃ fields : List OptionField, raw = fields.map (fun o => (o.name, o.texts)) ∧
          fields.flatMap OptionField.lines = before.flatMap OptionField.lines ++ lines from
    hfrom lines [] h
  intro lines
  induction lines with
  | nil =>
    intro before h
    cases h
    exact ⟨before, rfl, (List.append_nil _).symm⟩
  | cons l lines ih =>
    intro before h
    rw [List.foldlM_cons] at h
    cases hnext : addRawLine (before.map fun o => (o.name, o.texts)) l with
    | error e =>
      rw [hnext] at h
      cases h
    | ok next =>
      rw [hnext] at h
      obtain ⟨fields, rfl, hfields⟩ := addRawLine_fields hnext
      obtain ⟨all, hall, hlines⟩ := ih fields h
      exact ⟨all, hall, by rw [hlines, hfields, List.append_assoc]; rfl⟩

/-- An option is what the converter of its name makes of the value of a
    field. -/
structure Converts (known : Data.Table Converter) (o : OptionField) (option : String × String) :
    Prop where
  key : option.1 = o.key
  converted : ∃ converter, known.get? o.key = some converter ∧
    converter.convert o.value = .ok option.2

/-- A new key stands at the end. -/
theorem Data.Table.set_of_not_has {α : Type} {t : Data.Table α} {key : String} (value : α)
    (h : t.has key = false) : t.set key value = t ++ [(key, value)] := by
  induction t with
  | nil => rfl
  | cons p t ih =>
    rw [Data.Table.has, Data.Table.get?_cons] at h
    split at h
    · cases h
    · rename_i hne
      rw [Data.Table.set, if_neg hne, ih h]
      rfl

/-- An option goes to the end under its own key, with the value that its
    converter gives. -/
theorem addOption_gives {known : Data.Table Converter} {found after : Data.Table String}
    {o : OptionField} (h : addOption known found (o.name, o.texts) = .ok after) :
    ∃ option, after = found ++ [option] ∧ Converts known o option ∧ option.1 ∉ found.keys := by
  simp only [addOption] at h
  split at h
  · cases h
  · rename_i converter hconverter
    split at h
    · cases h
    · rename_i hhas
      rw [Bool.not_eq_true] at hhas
      split at h
      · rename_i v hv
        cases h
        refine ⟨(o.key, v), Data.Table.set_of_not_has v hhas, ⟨rfl, converter, hconverter, hv⟩, ?_⟩
        exact (Data.Table.get?_eq_none_iff _ _).mp
          (Option.isNone_iff_eq_none.mp (Option.isSome_eq_false_iff.mp hhas))
      · cases h

/-- Every field gives one option, and no two give one of the same name. -/
theorem addOptions_gives {known : Data.Table Converter} {fields : List OptionField}
    {found : Data.Table String}
    (h : (fields.map fun o => (o.name, o.texts)).foldlM (addOption known) [] = .ok found) :
    List.Forall₂ (Converts known) fields found ∧ found.keys.Nodup := by
  suffices hfrom : ∀ (fields done : List OptionField) (before : Data.Table String),
      List.Forall₂ (Converts known) done before → before.keys.Nodup →
      (fields.map fun o => (o.name, o.texts)).foldlM (addOption known) before = .ok found →
        List.Forall₂ (Converts known) (done ++ fields) found ∧ found.keys.Nodup from
    hfrom fields [] [] .nil List.nodup_nil h
  intro fields
  induction fields with
  | nil =>
    intro done before hdone hnodup h
    cases h
    rw [List.append_nil]
    exact ⟨hdone, hnodup⟩
  | cons o fields ih =>
    intro done before hdone hnodup h
    rw [List.map_cons, List.foldlM_cons] at h
    cases hnext : addOption known before (o.name, o.texts) with
    | error e =>
      rw [hnext] at h
      cases h
    | ok next =>
      rw [hnext] at h
      obtain ⟨option, rfl, hgives, hnew⟩ := addOption_gives hnext
      rw [List.append_cons]
      refine ih (done ++ [o]) _ ?_ ?_ h
      · exact List.rel_append hdone (.cons hgives .nil)
      · rw [Data.Table.keys, List.map_append]
        exact List.nodup_append.mpr ⟨hnodup, List.nodup_singleton _, by
          rintro a ha b hb rfl
          obtain rfl := List.mem_singleton.mp hb
          exact hnew ha⟩

/-! ## Texts cut at white space -/

/-- Cutting a text into arguments cuts no word. -/
theorem words_splitArguments (count : Nat) (s : List Char) :
    (splitArguments count s).flatMap Text.words = Text.words s := by
  have hgap := @isBlankChar_of_isArgumentGap
  induction count generalizing s with
  | zero =>
    rw [splitArguments, ← Text.words_dropWhile (s := s) fun _ => hgap]
    generalize s.dropWhile isArgumentGap = rest
    split
    · rename_i hempty
      rw [List.isEmpty_iff.mp hempty]
      rfl
    · rw [List.flatMap_singleton, Text.words_dropRightWhile fun _ => hgap]
  | succ count ih =>
    rw [splitArguments, ← Text.words_dropWhile (s := s) fun _ => hgap]
    generalize s.dropWhile isArgumentGap = rest
    split
    · -- A gap ends the first argument.
      rename_i hlt
      have hsplit := List.takeWhile_append_dropWhile (p := (!isArgumentGap ·)) (l := rest)
      rw [Extract.drop_takeWhile_length, List.flatMap_cons, ih]
      cases hrest : rest.dropWhile (!isArgumentGap ·) with
      | nil =>
        rw [hrest, List.append_nil] at hsplit
        rw [hsplit] at hlt
        exact absurd hlt (Nat.lt_irrefl _)
      | cons c more =>
        have hc : isArgumentGap c = true := by
          have hhead := List.head?_dropWhile_not (!isArgumentGap ·) rest
          rw [hrest] at hhead
          simpa using hhead
        rw [hrest] at hsplit
        conv_rhs => rw [← hsplit]
        rw [Text.words_append_cons (hgap hc), Text.words_cons (hgap hc)]
    · split
      · rename_i hempty
        rw [List.isEmpty_iff.mp hempty]
        rfl
      · exact List.flatMap_singleton _ _

/-- The words of the arguments are those of the lines they stand in. -/
theorem words_readArguments {spec : DirectiveSpec} {lines : List Line} {arguments : List (List Char)}
    (h : readArguments spec lines = .ok arguments) :
    Text.words ([' '].intercalate arguments) = lines.flatMap Text.words := by
  have hlines : Text.words (Line.joinLines lines) = lines.flatMap Text.words :=
    Text.words_intercalate (by decide) lines
  rw [Text.words_intercalate (by decide), ← hlines]
  simp only [readArguments] at h
  split at h
  · cases h
  · split at h
    · split at h
      · cases h
        exact words_splitArguments _ _
      · cases h
    · cases h
      exact Text.flatMap_words _ fun w => Text.isWord_of_mem_words

/-! ## The parts of a block -/

namespace DirectiveSpec

variable {spec : DirectiveSpec} {body : List Line} {offset : Nat} {block : Invocation}
  {before after : List Line} {fields : List OptionField}

/-- The lines of a list that are not blank. -/
def solid (ls : List Line) : List Line := ls.filter (!Text.isBlank ·)

@[simp] theorem solid_append (ls ms : List Line) : solid (ls ++ ms) = solid ls ++ solid ms :=
  List.filter_append ..

theorem solid_cons_blank {l : Line} (hl : Text.isBlank l = true) (ls : List Line) :
    solid (l :: ls) = solid ls :=
  List.filter_cons_of_neg (by simp [hl])

theorem solid_eq_self {ls : List Line} (h : ∀ l ∈ ls, Text.isBlank l = false) : solid ls = ls :=
  List.filter_eq_self.mpr fun l hl => by rw [h l hl]; rfl

theorem solid_dropWhile (ls : List Line) : solid (ls.dropWhile Text.isBlank) = solid ls := by
  induction ls with
  | nil => rfl
  | cons l ls ih =>
    by_cases hl : Text.isBlank l = true
    · rw [List.dropWhile_cons_of_pos hl, ih, solid_cons_blank hl]
    · rw [List.dropWhile_cons_of_neg hl]

/-- No line is lost that is not blank. -/
theorem solid_trimEnd (ls : List Line) : solid (Extract.trimEnd ls) = solid ls := by
  have hreverse : ∀ ms : List Line, solid ms.reverse = (solid ms).reverse := fun ms =>
    List.filter_reverse
  rw [Extract.trimEnd, hreverse, solid_dropWhile, hreverse, List.reverse_reverse]

/-- Nor at the start of a block. -/
theorem solid_blockLines (body : List Line) : solid (blockLines body) = solid body := by
  rw [blockLines, solid_trimEnd]
  cases body with
  | nil => rfl
  | cons l ls =>
    by_cases hl : Text.isBlank l = true
    · rw [solid_cons_blank hl]
      simp [hl]
    · simp [hl]

/-- There is no blank line among the first ones. -/
theorem headLines_not_blank (spec : DirectiveSpec) (body : List Line) :
    ∀ l ∈ spec.headLines body, Text.isBlank l = false := by
  intro l hl
  rw [headLines] at hl
  split at hl
  · simpa using List.mem_takeWhile_imp hl
  · cases hl

/-- Between the first lines and the content there is a blank line. -/
theorem solid_drop_tailLines (h : spec.isDivided body = true) :
    solid ((spec.tailLines body).drop 1) = solid (spec.tailLines body) := by
  rw [tailLines, headLines, if_pos h, Extract.drop_takeWhile_length]
  cases hrest : (blockLines body).dropWhile (!Text.isBlank ·) with
  | nil => rfl
  | cons l ls =>
    have hhead := List.head?_dropWhile_not (!Text.isBlank ·) (blockLines body)
    rw [hrest] at hhead
    rw [solid_cons_blank (by simpa using hhead)]
    rfl

/-- The content has all lines that belong to it and are not blank. -/
theorem solid_content (spec : DirectiveSpec) (body : List Line) :
    solid (spec.content body) = solid (spec.wholeContent body) := by
  rw [content, contentBlanks, Extract.drop_takeWhile_length, solid_dropWhile]

/-- The content starts with a line that is not blank. -/
theorem head?_content {l : Line} (h : (spec.content body).head? = some l) : Text.isBlank l = false := by
  rw [content, contentBlanks, Extract.drop_takeWhile_length] at h
  have hhead := List.head?_dropWhile_not Text.isBlank (spec.wholeContent body)
  rw [h] at hhead
  simpa using hhead

/-- Content comes from what is left of the arguments and from behind the
    options. -/
theorem solid_wholeContent (spec : DirectiveSpec) (body : List Line) :
    solid (spec.wholeContent body)
      = (if spec.isLeftover body then spec.argumentLines body else []) ++ solid (spec.tailLines body) := by
  rw [wholeContent]
  split
  · rw [solid_append, solid_eq_self (spec.argumentLines_not_blank body)]
  · rw [List.nil_append]
    split
    · rename_i hdivided
      exact solid_drop_tailLines hdivided
    · rename_i hdivided
      rw [tailLines, headLines, if_neg hdivided]
      rfl

/-- Content is read only where there may be any. -/
theorem hasContent_of_read (h : spec.read body offset = .ok block) (hne : block.content ≠ []) :
    spec.hasContent = true := by
  rw [(read_eq_ok h).2.2.1] at hne
  simp only [read] at h
  cases hoptions : spec.readBlockOptions body with
  | error e =>
    rw [hoptions] at h
    cases h
  | ok options =>
    cases harguments : spec.readBlockArguments body with
    | error e =>
      rw [hoptions, harguments] at h
      cases h
    | ok arguments =>
      simp only [hoptions, harguments, bind, Except.bind] at h
      split at h
      · cases h
      · rename_i hpermitted
        cases hcontent : spec.hasContent with
        | true => rfl
        | false => exact absurd (by simp [hcontent, hne]) hpermitted

/-- How the lines of a body were used: those `before` the options, the
    `fields` with the options, and those `after`.  The lines before are the
    arguments, or content of a directive that takes none. -/
structure Partition (spec : DirectiveSpec) (body : List Line) (block : Invocation)
    (before : List Line) (fields : List OptionField) (after : List Line) : Prop where
  /-- Every line that is not blank is used once. -/
  lines : solid body = before ++ fields.flatMap OptionField.lines ++ after
  arguments : spec.takesArguments = true →
    Text.words ([' '].intercalate block.arguments) = before.flatMap Text.words
  noArguments : spec.takesArguments = false → block.arguments = []
  options : List.Forall₂ (Converts (spec.options.getD [])) fields block.options
  keys : block.options.keys.Nodup
  content : solid block.content = if spec.takesArguments then after else before ++ after
  permitted : block.content ≠ [] → spec.hasContent = true
  opening : ∀ l, block.content.head? = some l → Text.isBlank l = false

/-- Options are fields, one after the other, that take all option lines. -/
theorem readBlockOptions_gives {options : Data.Table String}
    (h : spec.readBlockOptions body = .ok options) :
    ∃ fields : List OptionField, fields.flatMap OptionField.lines = spec.optionLines body ∧
      List.Forall₂ (Converts (spec.options.getD [])) fields options ∧ options.keys.Nodup := by
  rw [readBlockOptions] at h
  cases hknown : spec.options with
  | none =>
    rw [hknown] at h
    cases h
    exact ⟨[], by simp [optionLines, hknown], .nil, List.nodup_nil⟩
  | some known =>
    rw [hknown] at h
    simp only [readOptions, bind, Except.bind] at h
    cases hraw : rawOptions (spec.optionLines body) with
    | error e =>
      rw [hraw] at h
      cases h
    | ok raw =>
      rw [hraw] at h
      obtain ⟨fields, rfl, hlines⟩ := rawOptions_fields hraw
      exact ⟨fields, hlines, addOptions_gives h⟩

/-- **A directive block loses no line.**  In a block that can be read, every
    line that is not blank is used once and in order: as a line with
    arguments, as a field of the options or an indented line that goes on
    with one, or as a line of the content.  The arguments have the words of
    their lines; each field gives the option of its name, which is one that
    the directive knows, with the value that the converter of that name
    returned; and content there is only where it is permitted, starting with
    a line that is not blank. -/
theorem read_partition (h : spec.read body offset = .ok block) :
    ∃ before fields after, spec.Partition body block before fields after := by
  obtain ⟨hoptions, harguments, hcontent, -⟩ := read_eq_ok h
  obtain ⟨fields, hfields, hgives, hkeys⟩ := readBlockOptions_gives hoptions
  rw [readBlockArguments] at harguments
  have hleftover : spec.isLeftover body
      = (!(spec.argumentLines body).isEmpty && !spec.takesArguments) := rfl
  refine ⟨spec.argumentLines body, fields, solid (spec.tailLines body), ?_, fun htakes => ?_,
    fun htakes => ?_, hgives, hkeys, ?_, hasContent_of_read h, fun l hl => ?_⟩
  · rw [← solid_blockLines, ← spec.headLines_append_tailLines body, solid_append,
      solid_eq_self (spec.headLines_not_blank body), hfields, spec.argumentLines_append_optionLines]
  · rw [if_pos htakes] at harguments
    exact words_readArguments harguments
  · rw [htakes] at harguments
    exact (Except.ok.inj harguments).symm
  · rw [hcontent, solid_content, solid_wholeContent, hleftover]
    cases spec.takesArguments with
    | true => simp
    | false =>
      cases hlines : spec.argumentLines body with
      | nil => simp
      | cons l ls => simp
  · rw [hcontent] at hl
    exact head?_content hl

/-- A block with an argument, an option on two lines and content. -/
theorem read_partition_figure :
    ∃ (spec : DirectiveSpec) (body : List Line) (block : Invocation),
      body = ["a b".toList, ":alt: x".toList, "   y".toList, [], "text".toList] ∧
      spec.read body 0 = .ok block ∧ block.arguments = ["a b".toList] ∧
      block.options = [("alt", "x\ny")] ∧ block.content = ["text".toList] ∧
      ∃ before fields after, spec.Partition body block before fields after := by
  let spec : DirectiveSpec :=
    { required := 1
      finalWhitespace := true
      options := some [("alt", .unchanged)]
      hasContent := true }
  let block : Invocation :=
    { arguments := ["a b".toList]
      options := [("alt", "x\ny")]
      content := ["text".toList]
      contentOffset := 4 }
  have hread : spec.read ["a b".toList, ":alt: x".toList, "   y".toList, [], "text".toList] 0
      = .ok block := by
    decide +kernel
  exact ⟨spec, _, block, rfl, hread, rfl, rfl, rfl, read_partition hread⟩

end DirectiveSpec

end MarkupLint
