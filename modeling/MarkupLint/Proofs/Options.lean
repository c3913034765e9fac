import MarkupLint.Proofs.Content

/-! # Option values

    The value of an option is what its converter makes of a text that stands
    in the lines with the options, so it is no longer than these lines.  The
    values of a table are no longer than the text they are read from. -/

namespace MarkupLint

/-! ## The size of lines -/

/-- The characters of some lines, and one more for each of them. -/
def lineSize (ls : List Line) : Nat := charCount ls + ls.length

@[simp] theorem lineSize_nil : lineSize [] = 0 := rfl

@[simp] theorem lineSize_cons (l : Line) (ls : List Line) :
    lineSize (l :: ls) = l.length + 1 + lineSize ls := by
  simp only [lineSize, charCount_cons, List.length_cons]
  omega

@[simp] theorem lineSize_append (as bs : List Line) :
    lineSize (as ++ bs) = lineSize as + lineSize bs := by
  simp only [lineSize, charCount_append, List.length_append]
  omega

theorem Body.size_eq_lineSize (b : Body) : b.size = lineSize b.lines := b.size_eq

/-- Fewer lines are no more. -/
theorem lineSize_le_of_sublist {as bs : List Line} (h : as.Sublist bs) :
    lineSize as ≤ lineSize bs :=
  Nat.add_le_add (charCount_le_of_sublist h) h.length_le

/-- Nor are lines of which something is cut off. -/
theorem Pared.lineSize_le {short long : List Line} (h : Pared short long) :
    lineSize short ≤ lineSize long :=
  Nat.add_le_add h.charCount_le h.length_le

/-- A text is shorter than its lines are together with their ends. -/
theorem joinLines_length (ls : List Line) :
    (Line.joinLines ls).length + (if ls = [] then 0 else 1) = lineSize ls := by
  induction ls with
  | nil => rfl
  | cons l ls ih =>
    cases ls with
    | nil => simp [Line.joinLines]
    | cons next ls =>
      simp only [Line.joinLines, List.intercalate_cons_cons, List.length_append, List.length_cons,
        List.length_nil, reduceCtorEq, if_false, lineSize_cons] at ih ⊢
      omega

/-- A text is as large as its lines, each counted with its end. -/
theorem lineSize_splitOn (text : List Char) :
    lineSize (Text.splitOn '\n' text) = text.length + 1 := by
  have hjoin : Line.joinLines (Text.splitOn '\n' text) = text := Text.intercalate_splitOn '\n' text
  have hlength := joinLines_length (Text.splitOn '\n' text)
  rw [hjoin, if_neg (Text.splitOn_ne_nil _ _)] at hlength
  exact hlength.symm

/-! ## Options -/

/-- Trimming makes no text longer. -/
theorem Text.trim_length_le (s : List Char) : (Text.trim s).length ≤ s.length := by
  simp only [Text.trim, Text.dropRightWhile, List.length_reverse]
  exact Nat.le_trans (List.dropWhile_suffix _).length_le (by simpa using (List.dropWhile_suffix _).length_le)

/-- What every step keeps holds after all of them. -/
theorem foldlM_keeps {α β ε : Type} {step : β → α → Except ε β} {P : β → Prop} {xs : List α}
    (hstep : ∀ b, P b → ∀ a ∈ xs, ∀ c, step b a = .ok c → P c) {b c : β} (hb : P b)
    (h : xs.foldlM step b = .ok c) : P c := by
  induction xs generalizing b with
  | nil =>
    cases h
    exact hb
  | cons a xs ih =>
    rw [List.foldlM_cons] at h
    cases hnext : step b a with
    | error e =>
      rw [hnext] at h
      cases h
    | ok next =>
      rw [hnext] at h
      exact ih (fun b hb a ha => hstep b hb a (List.mem_cons_of_mem _ ha))
        (hstep b hb a List.mem_cons_self next hnext) h

/-- One more line makes an option longer by that line at most. -/
theorem addRawLine_size {before after : List (List Char × List (List Char))} {l : Line} {k : Nat}
    (h : addRawLine before l = .ok after) (hbefore : ∀ o ∈ before, lineSize o.2 ≤ k) :
    ∀ o ∈ after, lineSize o.2 ≤ k + (l.length + 1) := by
  have hold : ∀ o ∈ before, lineSize o.2 ≤ k + (l.length + 1) := fun o ho =>
    Nat.le_trans (hbefore o ho) (Nat.le_add_right _ _)
  simp only [addRawLine] at h
  split at h
  · rename_i name width hfield
    cases h
    refine List.forall_mem_append.mpr ⟨hold, List.forall_mem_singleton.mpr ?_⟩
    have htrim := Text.trim_length_le (l.drop width)
    simp only [List.length_drop] at htrim
    dsimp only
    split
    · simp
    · simp only [lineSize_cons, lineSize_nil]
      omega
  · split at h
    · cases h
    · split at h
      · rename_i name values rest hreverse
        have hmem : ∀ o ∈ (name, values) :: rest, o ∈ before := by
          intro o ho
          rw [← hreverse] at ho
          exact List.mem_reverse.mp ho
        cases h
        refine List.forall_mem_append.mpr ⟨?_, List.forall_mem_singleton.mpr ?_⟩
        · exact fun o ho => hold o (hmem o (List.mem_cons_of_mem _ (List.mem_reverse.mp ho)))
        · have hlast : lineSize values ≤ k := hbefore _ (hmem _ List.mem_cons_self)
          have htrim := Text.trim_length_le l
          simp only [lineSize_append, lineSize_cons, lineSize_nil]
          omega
      · cases h

/-- The lines of an option stand in the lines with the options. -/
theorem rawOptions_size {lines : List Line} {found : List (List Char × List (List Char))}
    (h : rawOptions lines = .ok found) : ∀ o ∈ found, lineSize o.2 ≤ lineSize lines := by
  suffices hfrom : ∀ (lines : List Line) (before : List (List Char × List (List Char))) (k : Nat),
      (∀ o ∈ before, lineSize o.2 ≤ k) → ∀ found, lines.foldlM addRawLine before = .ok found →
        ∀ o ∈ found, lineSize o.2 ≤ k + lineSize lines by
    simpa using hfrom lines [] 0 (by simp) found h
  intro lines
  induction lines with
  | nil =>
    rintro before k hbefore found ⟨⟩
    simpa using hbefore
  | cons l lines ih =>
    intro before k hbefore found hfound
    rw [List.foldlM_cons] at hfound
    cases hnext : addRawLine before l with
    | error e =>
      rw [hnext] at hfound
      cases hfound
    | ok next =>
      rw [hnext] at hfound
      intro o ho
      have := ih next _ (addRawLine_size hnext hbefore) found hfound o ho
      simp only [lineSize_cons]
      omega

/-- The value of an option is what its converter makes of a text in the
    lines with the options. -/
def Converted (known : Data.Table Converter) (size : Nat) (key value : String) : Prop :=
  ∃ converter values, known.get? key = some converter ∧
    converter.convert (String.ofList (Line.joinLines values)) = .ok value ∧ lineSize values ≤ size

/-- An option is added as its converter reads it. -/
theorem addOption_converted {known : Data.Table Converter} {before after : Data.Table String}
    {o : List Char × List (List Char)} {size : Nat} (h : addOption known before o = .ok after)
    (ho : lineSize o.2 ≤ size)
    (hbefore : ∀ key value, before.get? key = some value → Converted known size key value) :
    ∀ key value, after.get? key = some value → Converted known size key value := by
  simp only [addOption] at h
  split at h
  · cases h
  · rename_i converter hconverter
    split at h
    · cases h
    · split at h
      · rename_i v hv
        cases h
        intro key value hget
        by_cases hkey : key = String.ofList (Text.lower o.1)
        · subst hkey
          rw [Data.Table.get?_set_self] at hget
          obtain rfl := Option.some.inj hget
          exact ⟨converter, o.2, hconverter, hv, ho⟩
        · rw [Data.Table.get?_set_of_ne _ _ hkey] at hget
          exact hbefore key value hget
      · cases h

/-- By the fields: every option that is found is what its converter reads. -/
theorem readOptions_converted {known : Data.Table Converter} {lines : List Line}
    {found : Data.Table String} (h : readOptions known lines = .ok found) :
    ∀ key value, found.get? key = some value → Converted known (lineSize lines) key value := by
  simp only [readOptions, bind, Except.bind] at h
  cases hraw : rawOptions lines with
  | error e =>
    rw [hraw] at h
    cases h
  | ok raw =>
    rw [hraw] at h
    refine foldlM_keeps (P := fun t : Data.Table String => ∀ key value, t.get? key = some value →
      Converted known (lineSize lines) key value) (fun t ht o ho next hnext => ?_) (by simp) h
    exact addOption_converted hnext (rawOptions_size hraw o ho) ht

namespace DirectiveSpec

/-- The options of a block that can be read are converted from its lines. -/
theorem read_option {spec : DirectiveSpec} {body : List Line} {offset : Nat} {block : Invocation}
    (h : spec.read body offset = .ok block) {key value : String}
    (hvalue : block.options.get? key = some value) :
    ∃ known, spec.options = some known ∧ Converted known (lineSize body) key value := by
  obtain ⟨hoptions, -, -, -⟩ := read_eq_ok h
  simp only [readBlockOptions] at hoptions
  split at hoptions
  · rename_i known hknown
    obtain ⟨converter, values, hconverter, hconvert, hsize⟩ :=
      readOptions_converted hoptions key value hvalue
    refine ⟨known, hknown, converter, values, hconverter, hconvert, Nat.le_trans hsize ?_⟩
    have hhead : (spec.optionLines body).Sublist (spec.headLines body) := by
      rw [← spec.argumentLines_append_optionLines body]
      exact List.sublist_append_right _ _
    exact lineSize_le_of_sublist (hhead.trans ((spec.headLines_isStart body).sublist.trans
      ((blockLines_isStart body).sublist.trans (List.drop_sublist _ _))))
  · rw [← Except.ok.inj hoptions] at hvalue
    cases hvalue

/-- The content of a block is made of its lines. -/
theorem content_sublist (spec : DirectiveSpec) (body : List Line) :
    (spec.content body).Sublist body := by
  have hblock := spec.headLines_append_tailLines body
  have hhead := spec.argumentLines_append_optionLines body
  have hwhole : (spec.wholeContent body).Sublist (blockLines body) := by
    simp only [wholeContent]
    split
    · rw [← hblock, ← hhead]
      exact (List.sublist_append_left _ _).append (List.Sublist.refl _)
    · split
      · rw [← hblock]
        exact (List.drop_sublist 1 _).trans (List.sublist_append_right _ _)
      · exact List.Sublist.refl _
  exact (List.drop_sublist _ _).trans (hwhole.trans
    ((blockLines_isStart body).sublist.trans (List.drop_sublist _ _)))

end DirectiveSpec

/-! ## Numbers -/

namespace Text

/-- A digit is worth what it says. -/
theorem digitValue?_ten {c : Char} (h : c.isDigit = true) :
    digitValue? 10 c = some (c.toNat - '0'.toNat) := by
  have hrange : '0' ≤ c ∧ c ≤ '9' := by
    simpa [Char.isDigit, Char.le_def] using h
  have hnine : c.toNat ≤ '9'.toNat := hrange.2
  have hlt : c.toNat - '0'.toNat < 10 := by
    have : '9'.toNat = 57 := rfl
    have : '0'.toNat = 48 := rfl
    omega
  simp only [digitValue?, hrange, and_self, if_true]
  simpa [Option.filter] using hlt

/-- A number is read from the digits that it is written in. -/
theorem digitsValue?_toDigits (n : Nat) : digitsValue? 10 (Nat.toDigits 10 n) = some n := by
  have hfold : ∀ (cs : List Char) (a : Nat), (∀ c ∈ cs, c.isDigit = true) →
      cs.foldlM (fun n c => (digitValue? 10 c).map (n * 10 + ·)) a
        = some (Nat.ofDigitChars 10 cs a) := by
    intro cs
    induction cs with
    | nil => exact fun a _ => rfl
    | cons c cs ih =>
      intro a hcs
      obtain ⟨hc, hrest⟩ := List.forall_mem_cons.mp hcs
      rw [List.foldlM_cons, digitValue?_ten hc, Nat.ofDigitChars_cons, Nat.mul_comm]
      exact ih _ hrest
  rw [digitsValue?, if_neg (by simp [Nat.toDigits_ne_nil]),
    hfold _ _ fun c hc => Nat.isDigit_of_mem_toDigits (by decide) (by decide) hc,
    Nat.ofDigitChars_ten_toDigits]

/-- What is read as an integer fits a word. -/
theorem fitsWord_of_int? {s : List Char} {n : Int} (h : int? s = some n) : fitsWord n = true := by
  have hguard : ∀ (fits : Int → Bool) (value : Int),
      (if fits value = true then .ok value else .error .outOfRange : Except IntegerError Int).toOption
        = some n → fits n = true := by
    intro fits value hvalue
    by_cases hfits : fits value = true
    · rw [if_pos hfits] at hvalue
      rwa [Option.some.inj hvalue] at hfits
    · rw [if_neg hfits] at hvalue
      cases hvalue
  unfold int? parseInt parseIntBase at h
  dsimp only at h
  split at h
  · cases h
  · exact hguard fitsWord _ h

/-- Digits without a sign are read for their value. -/
theorem parseInt_digits {cs : List Char} {k : Nat} (hcs : ∀ c ∈ cs, c.isDigit = true)
    (hvalue : digitsValue? 10 cs = some k) (hfits : fitsWord k = true) : parseInt cs = .ok k := by
  unfold parseInt parseIntBase
  split
  rename_i hsign
  split at hsign
  · exact absurd (hcs '-' List.mem_cons_self) (by decide)
  · exact absurd (hcs '+' List.mem_cons_self) (by decide)
  · cases hsign
    simp only [hvalue, Bool.false_eq_true, if_false]
    exact if_pos hfits

/-- An integer that was read can be written and read again. -/
theorem int?_intText {s : List Char} {n : Int} (h : int? s = some n) :
    int? (intText n).toList = some n := by
  have hfits := fitsWord_of_int? h
  cases n with
  | ofNat k =>
    rw [intText, String.toList_ofList, int?, parseInt_digits (fun c =>
      Nat.isDigit_of_mem_toDigits (by decide) (by decide)) (digitsValue?_toDigits k) hfits]
    rfl
  | negSucc k =>
    have hread : parseInt ('-' :: Nat.toDigits 10 (k + 1)) = .ok (.negSucc k) := by
      unfold parseInt parseIntBase
      simp only [digitsValue?_toDigits, if_true]
      exact if_pos hfits
    rw [intText, String.toList_ofList, int?, hread]
    rfl

end Text

/-- The value of an option that has to be an integer is the text of one. -/
theorem Converter.int?_of_convert {c : Converter} (hc : c = .integer ∨ c = .nonNegativeInt)
    {s value : String} (h : c.convert s = .ok value) : (Text.int? value.toList).isSome := by
  have hinteger : ∀ {n : Int}, integerText s = .ok n → (Text.int? (Text.intText n).toList).isSome := by
    intro n hn
    unfold integerText at hn
    split at hn
    · rename_i m hm
      obtain rfl := Except.ok.inj hn
      rw [Text.int?_intText hm]
      rfl
    · cases hn
  rcases hc with rfl | rfl
  · cases hread : integerText s with
    | error e =>
      rw [convert, hread] at h
      cases h
    | ok n =>
      rw [convert, hread] at h
      obtain rfl := Except.ok.inj h
      exact hinteger hread
  · cases hread : integerText s with
    | error e =>
      rw [convert, nonNegative, hread] at h
      cases h
    | ok n =>
      rw [convert, nonNegative, hread] at h
      simp only [bind, Except.bind] at h
      split at h
      · cases h
      · obtain rfl := Except.ok.inj h
        exact hinteger hread

/-! ## Comma-separated values -/

namespace Data.Csv

/-- Newlines in a table are no longer than they were. -/
theorem normalize_length (s : List Char) : (normalize s).length ≤ s.length := by
  fun_induction normalize s with
  | case1 => simp
  | case2 => simp
  | case3 rest ih =>
    simp only [List.length_cons]
    omega
  | case4 c rest _ _ ih => simpa using ih

/-- A field and what is left are no longer than the text. -/
theorem plainField_length (d : Dialect) (s : List Char) :
    (plainField d s).1.length + (plainField d s).2.2.length ≤ s.length := by
  fun_induction plainField d s with
  | case1 => simp
  | case2 => simp
  | case3 => simp
  | case4 c rest _ _ field ending after heq ih =>
    simp only [heq, List.length_cons] at ih ⊢
    omega

/-- Nor is a field in quotes. -/
theorem quotedField_length (d : Dialect) (s : List Char) :
    (quotedField d s).1.length + (quotedField d s).2.2.length ≤ s.length := by
  fun_induction quotedField d s <;> simp_all only [List.length_cons, List.length_nil] <;> omega

/-- So in both cases. -/
theorem field_length (d : Dialect) (s : List Char) :
    (field d s).1.length + (field d s).2.2.length ≤ s.length := by
  have hstart : ∀ p : Char → Bool, (if d.trim then s.dropWhile p else s).length ≤ s.length := by
    intro p
    split
    · exact (List.dropWhile_suffix p).length_le
    · exact Nat.le_refl _
  have hs := hstart fun c => c ≠ '\n' && Text.isBlankChar c
  simp only [field]
  split
  · rename_i rest hrest
    have := quotedField_length d rest
    rw [hrest, List.length_cons] at hs
    omega
  · exact Nat.le_trans (plainField_length d _) hs

/-- No value of a record is longer than the text, nor is what is left. -/
theorem record_length (d : Dialect) (count : Nat) (s : List Char) :
    (∀ v ∈ (record d count s).1, v.length ≤ s.length) ∧ (record d count s).2.length ≤ s.length := by
  induction count generalizing s with
  | zero => simp [record]
  | succ count ih =>
    have hfield := field_length d s
    simp only [record]
    split
    · rename_i f rest heq
      rw [heq] at hfield
      obtain ⟨hfields, hafter⟩ := ih rest
      dsimp only at hfield ⊢
      refine ⟨List.forall_mem_cons.mpr ⟨by omega, fun v hv => ?_⟩, by omega⟩
      exact Nat.le_trans (hfields v hv) (by omega)
    · rename_i f rest heq
      rw [heq] at hfield
      dsimp only at hfield ⊢
      exact ⟨List.forall_mem_singleton.mpr (by omega), by omega⟩

/-- By the records: none has a longer value. -/
theorem recordsWithin_length (d : Dialect) (count : Nat) (s : List Char) :
    ∀ row ∈ recordsWithin d count s, ∀ v ∈ row, v.length ≤ s.length := by
  induction count generalizing s with
  | zero => simp [recordsWithin]
  | succ count ih =>
    simp only [recordsWithin]
    split
    · simp
    · rename_i c rest heq
      have hs : (c :: rest).length ≤ s.length := by
        rw [← heq]
        exact (List.dropWhile_suffix _).length_le
      obtain ⟨hfields, hafter⟩ := record_length d (rest.length + 2) (c :: rest)
      refine List.forall_mem_cons.mpr ⟨fun v hv => Nat.le_trans (hfields v hv) hs, ?_⟩
      exact fun row hrow v hv => Nat.le_trans (ih _ row hrow v hv) (Nat.le_trans hafter hs)

/-- A value is no longer than the text it is read from. -/
theorem records?_length {d : Dialect} {s : List Char} {rows : List (List (List Char))}
    (h : records? d s = some rows) : ∀ row ∈ rows, ∀ v ∈ row, v.length ≤ s.length := by
  simp only [records?] at h
  split at h
  · obtain rfl := Option.some.inj h
    exact fun row hrow v hv =>
      Nat.le_trans (recordsWithin_length d _ _ row hrow v hv) (normalize_length s)
  · cases h

end Data.Csv

end MarkupLint
