import MarkupLint.Parse.Body
import MarkupLint.Proofs.Depth

/-! # The content of directives

    Explicit markup uses a directive in two ways: it is the directive, or it
    defines a substitution by it.  `Site.call?` is the use that the parser
    runs.  The content of a directive is lines of its block, one for one
    from some line on, but for options that stand in the middle of it; the
    number of the line before the content is right unless such options or
    blank lines before the directive of a substitution were passed over. -/

namespace MarkupLint

/-! ## The directive of explicit markup -/

namespace Site

/-- The use of the directive of a name, if there is one and its block can be
    read. -/
def callIn? (site : Site) (name : String) (body : List Line) (line : Nat)
    (markup substitution : String) : Option (Directive × Call) :=
  match site.env.directive? name with
  | none => none
  | some d =>
    match d.spec.read body (line - 1) with
    | .ok block => some (d, site.call block name line markup substitution)
    | .error _ => none

/-- The use of a directive that some lines are. -/
def callAt? (site : Site) (lines : List Line) (line : Nat) (markup substitution : String) :
    Option (Directive × Call) :=
  match directiveText? lines with
  | some (name, body) => site.callIn? name body line markup substitution
  | none => none

/-- The name of the substitution that explicit markup defines, and the lines
    that define it. -/
def definition? (lines : List Line) : Option (String × List Line) :=
  match lines with
  | [] => none
  | first :: rest =>
    (Pattern.substitution? first).map fun (name, width) =>
      (collapseName (String.ofList name), (first.drop width :: rest).dropWhile Text.isBlank)

/-- The name of the substitution that explicit markup defines; empty if it
    defines none. -/
def definedName (lines : List Line) : String :=
  if isMarked '|' (lines.headD []) then ((definition? lines).map (·.1)).getD "" else ""

/-- The lines in which explicit markup may use a directive. -/
def directiveLines (lines : List Line) : List Line :=
  if isMarked '|' (lines.headD []) then ((definition? lines).map (·.2)).getD [] else lines

/-- The use of a directive in explicit markup. -/
def call? (site : Site) (lines : List Line) (line : Nat) (markup : String) :
    Option (Directive × Call) :=
  if isMarked '_' (lines.headD []) then none
  else site.callAt? (directiveLines lines) line markup (definedName lines)

/-- The text after the name of the directive in explicit markup. -/
def directiveBody (lines : List Line) : List Line :=
  ((directiveText? (directiveLines lines)).map (·.2)).getD []

/-- How many lines are passed over before the directive: the blank ones
    before the definition of a substitution. -/
def passedOver (lines : List Line) : Nat := lines.length - (directiveLines lines).length

variable {site : Site} {lines body : List Line} {line : Nat} {markup substitution name : String}
  {d : Directive} {c : Call}

theorem callIn?_eq_some (h : site.callIn? name body line markup substitution = some (d, c)) :
    site.env.directive? name = some d ∧ ∃ block, d.spec.read body (line - 1) = .ok block ∧
      c = site.call block name line markup substitution := by
  simp only [callIn?] at h
  split at h
  · cases h
  · rename_i d' hd
    split at h
    · rename_i block hblock
      obtain ⟨rfl, rfl⟩ := Prod.mk.inj (Option.some.inj h)
      exact ⟨hd, block, hblock, rfl⟩
    · cases h

theorem call?_eq_some (h : site.call? lines line markup = some (d, c)) :
    ∃ name, directiveText? (directiveLines lines) = some (name, directiveBody lines) ∧
      site.env.directive? name = some d ∧
      ∃ block, d.spec.read (directiveBody lines) (line - 1) = .ok block ∧
        c = site.call block name line markup (definedName lines) := by
  simp only [call?] at h
  split at h
  · cases h
  · simp only [callAt?] at h
    split at h
    · rename_i name body htext
      refine ⟨name, by simp [directiveBody, htext], ?_⟩
      simpa [directiveBody, htext] using callIn?_eq_some h
    · cases h

/-- The lines of the directive are those of the markup from some line on,
    without what stands before it. -/
theorem directiveLines_pared (h : directiveLines lines ≠ []) :
    Pared (directiveLines lines) (lines.drop (passedOver lines)) := by
  by_cases hmarked : isMarked '|' (lines.headD []) = true
  · simp only [passedOver, directiveLines, hmarked, if_true] at h ⊢
    cases lines with
    | nil => exact absurd rfl h
    | cons top below =>
      cases hname : Pattern.substitution? top with
      | none => simp [definition?, hname] at h
      | some found =>
        obtain ⟨name, width⟩ := found
        simp only [definition?, hname, Option.map_some, Option.getD_some]
        have hsplit := List.takeWhile_append_dropWhile (p := Text.isBlank)
          (l := top.drop width :: below)
        have hlength := congrArg List.length hsplit
        simp only [List.length_append, List.length_cons] at hlength
        rw [show (top :: below).length - ((top.drop width :: below).dropWhile Text.isBlank).length
          = ((top.drop width :: below).takeWhile Text.isBlank).length by
            simp only [List.length_cons]; omega, ← Extract.drop_takeWhile_length]
        -- A first line that is passed over takes what stood before it along.
        cases htaken : (top.drop width :: below).takeWhile Text.isBlank with
        | nil => exact .cons (List.drop_suffix width top) (.of_start List.prefix_rfl)
        | cons blank blanks => exact .of_start List.prefix_rfl
  · simp only [passedOver, directiveLines, hmarked, Bool.false_eq_true, if_false, Nat.sub_self,
      List.drop_zero]
    exact .of_start List.prefix_rfl

theorem directiveBody_pared (h : directiveText? (directiveLines lines) = some (name, body)) :
    Pared body (lines.drop (passedOver lines)) := by
  cases hlines : directiveLines lines with
  | nil =>
    rw [hlines] at h
    cases h
  | cons first rest =>
    have hpared := directiveLines_pared (by rw [hlines]; exact List.cons_ne_nil _ _)
    rw [hlines] at h hpared
    obtain ⟨⟨word, width⟩, -, heq⟩ := Option.map_eq_some_iff.mp h
    obtain ⟨-, rfl⟩ := Prod.mk.inj heq
    exact Pared.trans (.cons (List.drop_suffix width first) (.of_start List.prefix_rfl)) hpared

/-- What becomes of the answer of a directive. -/
def answered (site : Site) (line : Nat) (markup : String) :
    Except Complaint (List NodeId) → Parse (List NodeId)
  | .ok nodes => return nodes
  | .error e => return e.messages ++ [← site.raise e.level line e.text (some markup)]

theorem directive_of_callIn?
    (h : site.callIn? name body line markup substitution = some (d, c)) (read : ReadBody) :
    site.directive read name body line markup substitution
      = (c.run read name d).run >>= site.answered line markup := by
  obtain ⟨hd, block, hblock, rfl⟩ := callIn?_eq_some h
  simp only [directive, hd, hblock]
  rfl

/-- Without such a use there is nothing that is read. -/
theorem directive_of_callIn?_none
    (h : site.callIn? name body line markup substitution = none) (read read' : ReadBody) :
    site.directive read name body line markup substitution
      = site.directive read' name body line markup substitution := by
  simp only [callIn?] at h
  simp only [directive]
  cases hd : site.env.directive? name with
  | none => rfl
  | some d =>
    rw [hd] at h
    cases hblock : d.spec.read body (line - 1) with
    | ok block => simp [hblock] at h
    | error e => simp only [hblock]

theorem explicit_direct (hunder : isMarked '_' (lines.headD []) = false)
    (hbar : isMarked '|' (lines.headD []) = false) {text : List Line}
    (htext : directiveText? lines = some (name, text)) (read : ReadBody) :
    site.explicit read lines line markup = site.directive read name text line markup "" := by
  simp only [explicit, hunder, hbar, htext, Bool.false_eq_true, if_false]

/-- What becomes of the nodes of the directive that explicit markup uses: it
    may define a substitution by them. -/
def concluded (site : Site) (lines : List Line) (line : Nat) (markup : String)
    (nodes : List NodeId) : Parse (List NodeId) :=
  if isMarked '|' (lines.headD []) then
    divide nodes >>= site.defineSubstitution (definedName lines) line markup
  else return nodes

theorem concluded_of_use (hbar : isMarked '|' (lines.headD []) = false) :
    site.concluded lines line markup = pure := by
  funext nodes
  rw [concluded, hbar, if_neg Bool.false_ne_true]

theorem concluded_of_definition (hbar : isMarked '|' (lines.headD []) = true) :
    site.concluded lines line markup = fun nodes =>
      divide nodes >>= site.defineSubstitution (definedName lines) line markup := by
  funext nodes
  rw [concluded, if_pos hbar]

/-- A substitution that a directive defines does with the nodes what it
    does. -/
theorem explicit_defined (site : Site) (line : Nat) (markup : String)
    (hunder : isMarked '_' (lines.headD []) = false)
    (hbar : isMarked '|' (lines.headD []) = true) {text : List Line}
    (htext : directiveText? (directiveLines lines) = some (name, text)) (read : ReadBody) :
    site.explicit read lines line markup
      = site.directive read name text line markup (definedName lines)
        >>= site.concluded lines line markup := by
  cases lines with
  | nil => simp [directiveLines, definition?, directiveText?] at htext
  | cons first rest =>
    simp only [directiveLines, hbar, if_true, definition?] at htext
    cases hname : Pattern.substitution? first with
    | none => simp [hname, directiveText?] at htext
    | some found =>
      obtain ⟨word, width⟩ := found
      simp only [hname, Option.map_some, Option.getD_some] at htext
      have hbody : (first.drop width :: rest).dropWhile Text.isBlank ≠ [] := by
        intro hnil
        rw [hnil] at htext
        cases htext
      rw [concluded_of_definition hbar]
      simp only [explicit, hunder, hbar, Bool.false_eq_true, if_false, if_true, definedName,
        definition?, hname, Option.map_some, Option.getD_some, substitutionDefinition,
        List.isEmpty_iff, hbody, definitionNodes, htext, bind_assoc]

/-- The parser runs the directive that explicit markup uses, with that use
    of it. -/
theorem explicit_of_call? (h : site.call? lines line markup = some (d, c)) :
    ∃ shown, ∀ read : ReadBody, site.explicit read lines line markup
      = (c.run read shown d).run >>= fun answer =>
        site.answered line markup answer >>= site.concluded lines line markup := by
  simp only [call?] at h
  split at h
  · cases h
  rename_i hunder
  simp only [callAt?] at h
  split at h
  · rename_i name text htext
    refine ⟨name, fun read => ?_⟩
    cases hbar : isMarked '|' (lines.headD []) with
    | false =>
      simp only [directiveLines, definedName, hbar, Bool.false_eq_true, if_false] at htext h
      rw [explicit_direct (by simpa using hunder) hbar htext, directive_of_callIn? h,
        concluded_of_use hbar]
      simp only [bind_pure]
    | true =>
      rw [explicit_defined site line markup (by simpa using hunder) hbar htext,
        directive_of_callIn? h, bind_assoc]
  · cases h

/-- Explicit markup that uses no directive hands nothing on to be read. -/
theorem explicit_of_call?_none (h : site.call? lines line markup = none) (read read' : ReadBody) :
    site.explicit read lines line markup = site.explicit read' lines line markup := by
  simp only [call?] at h
  cases hunder : isMarked '_' (lines.headD []) with
  | true => simp only [explicit, hunder, if_true]
  | false =>
    simp only [hunder, Bool.false_eq_true, if_false, callAt?] at h
    cases htext : directiveText? (directiveLines lines) with
    | some found =>
      obtain ⟨name, text⟩ := found
      simp only [htext] at h
      have hdirective := directive_of_callIn?_none h read read'
      cases hbar : isMarked '|' (lines.headD []) with
      | false =>
        simp only [directiveLines, definedName, hbar, Bool.false_eq_true, if_false] at htext hdirective
        rw [explicit_direct hunder hbar htext, explicit_direct hunder hbar htext, hdirective]
      | true =>
        rw [explicit_defined site line markup hunder hbar htext,
          explicit_defined site line markup hunder hbar htext, hdirective]
    | none =>
      cases hbar : isMarked '|' (lines.headD []) with
      | false =>
        simp only [directiveLines, hbar, Bool.false_eq_true, if_false] at htext
        simp only [explicit, hunder, hbar, htext, Bool.false_eq_true, if_false]
      | true =>
        simp only [explicit, hunder, hbar, Bool.false_eq_true, if_false, if_true]
        cases lines with
        | nil => rfl
        | cons first rest =>
          simp only [substitutionDefinition]
          cases hname : Pattern.substitution? first with
          | none => rfl
          | some found =>
            obtain ⟨word, width⟩ := found
            simp only [directiveLines, hbar, if_true, definition?, hname, Option.map_some,
              Option.getD_some] at htext
            simp only [definitionNodes, htext]

end Site

/-! ## The parts of a directive block -/

namespace DirectiveSpec

variable {spec : DirectiveSpec} {body : List Line} {offset : Nat} {block : Invocation}

/-- What a block that can be read gives. -/
theorem read_eq_ok (h : spec.read body offset = .ok block) :
    spec.readBlockOptions body = .ok block.options ∧
      spec.readBlockArguments body = .ok block.arguments ∧
      block.content = spec.content body ∧
      block.contentOffset = offset + spec.contentStart body + spec.contentBlanks body := by
  simp only [read] at h
  cases hoptions : spec.readBlockOptions body with
  | error e =>
    rw [hoptions] at h
    cases h
  | ok options =>
    cases harguments : spec.readBlockArguments body with
    | error e =>
      rw [hoptions, harguments] at h
      cases h
    | ok arguments =>
      simp only [hoptions, harguments, bind, Except.bind] at h
      split at h
      · cases h
      · cases h
        exact ⟨rfl, rfl, rfl, rfl⟩

/-- How many lines with options are cut out of the content before its line
    of an index: options that stand after lines which are content. -/
def cutOut (spec : DirectiveSpec) (body : List Line) (k : Nat) : Nat :=
  if spec.isLeftover body && decide ((spec.argumentLines body).length ≤ k) then
    (spec.optionLines body).length
  else 0

/-- The lines of a block are lines of the text after the directive's name. -/
theorem blockLines_isStart (body : List Line) : blockLines body <+: body.drop (blankStart body) := by
  simp only [blockLines, blankStart]
  split
  · rw [List.drop_one]
    exact Extract.trimEnd_isStart _
  · exact Extract.trimEnd_isStart _

theorem headLines_isStart (spec : DirectiveSpec) (body : List Line) :
    spec.headLines body <+: blockLines body := by
  simp only [headLines]
  split
  · exact List.takeWhile_prefix _
  · exact List.nil_prefix

/-- The arguments and the options are the lines that may hold them. -/
theorem argumentLines_append_optionLines (spec : DirectiveSpec) (body : List Line) :
    spec.argumentLines body ++ spec.optionLines body = spec.headLines body := by
  have hend : spec.optionLines body <:+ spec.headLines body := by
    simp only [optionLines]
    split
    · exact List.dropWhile_suffix _
    · exact List.nil_suffix
  obtain ⟨before, hbefore⟩ := hend
  rw [argumentLines, ← hbefore]
  simp

theorem headLines_append_tailLines (spec : DirectiveSpec) (body : List Line) :
    spec.headLines body ++ spec.tailLines body = blockLines body := by
  obtain ⟨after, hafter⟩ := spec.headLines_isStart body
  rw [tailLines, ← hafter, List.drop_left]

theorem argumentLines_not_blank (spec : DirectiveSpec) (body : List Line) :
    ∀ l ∈ spec.argumentLines body, Text.isBlank l = false := by
  intro l hl
  have hhead : l ∈ spec.headLines body := List.mem_of_mem_take hl
  simp only [headLines] at hhead
  split at hhead
  · simpa using List.mem_takeWhile_imp hhead
  · cases hhead

/-- Content that starts before the options does not start with a blank
    line. -/
theorem contentBlanks_of_isLeftover (h : spec.isLeftover body = true) :
    spec.contentBlanks body = 0 := by
  have hcases := h
  simp only [isLeftover, Bool.and_eq_true, Bool.not_eq_true', List.isEmpty_eq_false_iff] at hcases
  obtain ⟨first, rest, hlines⟩ := List.exists_cons_of_ne_nil hcases.1
  have hfirst := spec.argumentLines_not_blank body first (by simp [hlines])
  simp [contentBlanks, wholeContent, h, hlines, hfirst]

theorem wholeContent_line {j : Nat} {l : Line} (h : (spec.wholeContent body)[j]? = some l) :
    (blockLines body)[spec.contentStart body - blankStart body + j + spec.cutOut body j]?
      = some l := by
  have hblock := spec.headLines_append_tailLines body
  have hhead := spec.argumentLines_append_optionLines body
  simp only [wholeContent] at h
  simp only [contentStart, cutOut, Nat.add_sub_cancel_left]
  by_cases hleftover : spec.isLeftover body = true
  · rw [if_pos hleftover] at h
    rw [if_pos hleftover, hleftover, ← hblock, ← hhead]
    by_cases hj : j < (spec.argumentLines body).length
    · rw [List.getElem?_append_left hj] at h
      rw [if_neg (by simpa using hj), List.append_assoc, List.getElem?_append_left (by omega)]
      simpa using h
    · rw [List.getElem?_append_right (by omega)] at h
      rw [if_pos (by simpa using hj), List.getElem?_append_right (by simp; omega)]
      simp only [List.length_append]
      rwa [show 0 + j + (spec.optionLines body).length
        - ((spec.argumentLines body).length + (spec.optionLines body).length)
        = j - (spec.argumentLines body).length by omega]
  · rw [if_neg hleftover] at h
    simp only [hleftover, Bool.false_and, Bool.false_eq_true, if_false]
    split at h
    · rename_i hdivided
      rw [if_pos hdivided, ← hblock, List.getElem?_append_right (by omega)]
      rw [List.getElem?_drop] at h
      rwa [show (spec.headLines body).length + 1 + j + 0 - (spec.headLines body).length = 1 + j by
        omega]
    · rename_i hdivided
      rw [if_neg hdivided]
      simpa using h

/-- The content of a block is its lines from some line on, without options
    that stand in the middle. -/
theorem content_line {k : Nat} {l : Line} (h : (spec.content body)[k]? = some l) :
    body[spec.contentStart body + spec.contentBlanks body + k + spec.cutOut body k]? = some l := by
  rw [content, List.getElem?_drop] at h
  have hblock := wholeContent_line h
  have hcut : spec.cutOut body (spec.contentBlanks body + k) = spec.cutOut body k := by
    simp only [cutOut]
    cases hleftover : spec.isLeftover body with
    | false => simp
    | true => rw [contentBlanks_of_isLeftover hleftover, Nat.zero_add]
  obtain ⟨after, hafter⟩ := blockLines_isStart body
  have hbody := congrArg (·[spec.contentStart body - blankStart body
    + (spec.contentBlanks body + k) + spec.cutOut body k]?) hafter
  rw [hcut] at hblock
  have hlt := (List.getElem?_eq_some_iff.mp hblock).1
  simp only [List.getElem?_append_left hlt, hblock, List.getElem?_drop] at hbody
  rw [hbody]
  congr 1
  have : blankStart body ≤ spec.contentStart body := by simp [contentStart]
  omega

end DirectiveSpec

/-! ## Line numbers -/

namespace Site

/-- Nothing is passed over before the directive, and no options stand before
    a line of its content that is counted from a line before them. -/
def Straight (spec : DirectiveSpec) (lines : List Line) : Prop :=
  passedOver lines = 0 ∧
    ∀ k < (spec.content (directiveBody lines)).length, spec.cutOut (directiveBody lines) k = 0

instance (spec : DirectiveSpec) (lines : List Line) : Decidable (Straight spec lines) :=
  inferInstanceAs (Decidable (_ ∧ _))

variable {b : Body} {titles : Bool} {width : List Char → Nat} {line : Nat} {lines : List Line}
  {markup : List Char} {site : Site} {d : Directive} {c : Call}

/-- The content of a directive is lines of the body it stands in, after the
    number it goes by as far as nothing was passed over or cut out. -/
theorem content_shown (hblock : Block.explicit line lines markup ∈ b.blocks titles width)
    (hcall : site.call? lines line (String.ofList markup) = some (d, c)) {k : Nat} {l : Line}
    (hl : c.content[k]? = some l) :
    b.Shows (c.contentOffset + k + 1 + passedOver lines + d.spec.cutOut (directiveBody lines) k)
      (l <:+ ·) := by
  obtain ⟨hline, hbelow, -⟩ := b.blocks_placed titles width _ hblock
  obtain ⟨first, hfirst, -⟩ := hline
  have hpos : 1 ≤ line := Nat.le_trans (Nat.le_add_left 1 _) (Body.range_of_line? hfirst).1
  obtain ⟨name, htext, -, block, hread, rfl⟩ := call?_eq_some hcall
  obtain ⟨-, -, hcontent, hoffset⟩ := DirectiveSpec.read_eq_ok hread
  have hbody := DirectiveSpec.content_line (hcontent ▸ hl)
  obtain ⟨y, hy, hsuffix⟩ := directiveBody_pared htext _ l hbody
  rw [List.getElem?_drop] at hy
  obtain ⟨z, hz, hyz⟩ := hbelow.lines _ y (Body.line?_of_getElem? hy)
  refine ⟨z, ?_, hsuffix.trans hyz⟩
  rw [← hz]
  congr 1
  show block.contentOffset + k + 1 + _ + _ = _
  rw [hoffset]
  omega

/-- The content of a directive that is straight lies below the body it
    stands in. -/
theorem content_below (hblock : Block.explicit line lines markup ∈ b.blocks titles width)
    (hcall : site.call? lines line (String.ofList markup) = some (d, c))
    (hstraight : Straight d.spec lines) (hne : c.content ≠ []) :
    (⟨c.contentOffset, c.content⟩ : Body).Below b := by
  have hshown : ∀ k l, c.content[k]? = some l → b.Shows (c.contentOffset + 1 + k) (l <:+ ·) := by
    intro k l hl
    have hlt : k < (d.spec.content (directiveBody lines)).length := by
      obtain ⟨name, -, -, block, hread, rfl⟩ := call?_eq_some hcall
      rw [← (DirectiveSpec.read_eq_ok hread).2.2.1]
      exact (List.getElem?_eq_some_iff.mp hl).1
    have := content_shown hblock hcall hl
    rw [hstraight.1, hstraight.2 k hlt] at this
    rwa [show c.contentOffset + 1 + k = c.contentOffset + k + 1 + 0 + 0 by omega]
  have hrange : ∀ k < c.content.length, b.offset + 1 ≤ c.contentOffset + 1 + k ∧
      c.contentOffset + 1 + k ≤ b.offset + b.lines.length := by
    intro k hk
    obtain ⟨l, hl, -⟩ := hshown k _ (List.getElem?_eq_getElem hk)
    exact Body.range_of_line? hl
  have hlength : 0 < c.content.length := List.length_pos_iff.mpr hne
  have hfirst := (hrange 0 hlength).1
  have hlast := (hrange (c.content.length - 1) (by omega)).2
  refine ⟨?_, ?_, fun n l hl => ?_⟩
  · dsimp only
    omega
  · dsimp only
    omega
  · simp only [Body.line?] at hl
    split at hl
    · obtain ⟨l', hl', hsuffix⟩ := hshown _ l hl
      rw [show c.contentOffset + 1 + (n - c.contentOffset - 1) = n by omega] at hl'
      exact ⟨l', hl', hsuffix⟩
    · cases hl

/-- **The content of a directive is numbered by the lines of the text.**
    Explicit markup in a body that lies below the lines of a text uses a
    directive, by itself or to define a substitution, and the parser runs the
    directive with this use of it.  If the directive is straight, every line
    of its content is the line of the text with the number that the call gives
    it, without some of the characters it starts with, so the content lies
    below the text like the body.  In general a line of the content stands
    further down: by the lines that were passed over, and behind options that
    were cut out by these. -/
theorem content_names_source_lines {source : List Line} (hb : b.Below ⟨0, source⟩)
    (hblock : Block.explicit line lines markup ∈ b.blocks titles width)
    (hcall : site.call? lines line (String.ofList markup) = some (d, c)) :
    (∃ shown, ∀ read : ReadBody, site.explicit read lines line (String.ofList markup)
      = (c.run read shown d).run >>= fun answer =>
        site.answered line (String.ofList markup) answer
          >>= site.concluded lines line (String.ofList markup)) ∧
    (Straight d.spec lines →
      (∀ (k : Nat) (l : Line), c.content[k]? = some l →
        ∃ cut, source[c.contentOffset + k]?.map (·.drop cut) = some l) ∧
      (c.content ≠ [] → (⟨c.contentOffset, c.content⟩ : Body).Below ⟨0, source⟩)) ∧
    ∀ (k : Nat) (l : Line), c.content[k]? = some l →
      ∃ cut, source[c.contentOffset + k + passedOver lines
        + d.spec.cutOut (directiveBody lines) k]?.map (·.drop cut) = some l := by
  refine ⟨explicit_of_call? hcall, fun hstraight => ?_, fun k l hl => ?_⟩
  · have hbelow : c.content ≠ [] → (⟨c.contentOffset, c.content⟩ : Body).Below ⟨0, source⟩ :=
      fun hne => (content_below hblock hcall hstraight hne).trans hb
    refine ⟨fun k l hl => ?_, hbelow⟩
    have hne : c.content ≠ [] := fun hnil => by simp [hnil] at hl
    obtain ⟨-, -, cut, hcut⟩ := (hbelow hne).source_line (Body.line?_of_getElem? hl)
    exact ⟨cut, by rwa [show c.contentOffset + 1 + k - 1 = c.contentOffset + k by omega] at hcut⟩
  · obtain ⟨l', hl', t, rfl⟩ := content_shown hblock hcall hl
    obtain ⟨-, -, cut, hcut⟩ := hb.source_line hl'
    rw [show c.contentOffset + k + 1 + passedOver lines + d.spec.cutOut (directiveBody lines) k - 1
      = c.contentOffset + k + passedOver lines + d.spec.cutOut (directiveBody lines) k by omega]
      at hcut
    cases hsource : source[c.contentOffset + k + passedOver lines
        + d.spec.cutOut (directiveBody lines) k]? with
    | none => simp [hsource] at hcut
    | some y =>
      simp only [hsource, Option.map_some, Option.some.injEq] at hcut
      refine ⟨cut + t.length, ?_⟩
      rw [Option.map_some, ← List.drop_drop, hcut, List.drop_left]

/-- A site at the top of a text with the standard constructs. -/
def standardTop : Site where
  env := { constructs := .standard, files := {}, clock := 0 : Environment }.surroundings
  source := ""
  titles := true
  parent := 0
  includes := []

/-- What can be told of the use of a directive at that site. -/
def standardCall? (source lines : List Line) : Option (Directive × Call) :=
  standardTop.call? lines 1 (String.ofList (Line.joinLines source))

/-- A note with an option before its content. -/
theorem content_names_source_lines_note :
    let source := [".. note::".toList, "   :class: x".toList, [], "   a".toList]
    let lines := ["note::".toList, ":class: x".toList, [], "a".toList]
    ∃ d c, Block.explicit 1 lines (Line.joinLines source) ∈ standardTop.blocks ⟨0, source⟩ ∧
      standardCall? source lines = some (d, c) ∧ Straight d.spec lines ∧
      c.content[0]? = some "a".toList ∧
      ∃ cut, source[c.contentOffset + 0]?.map (·.drop cut) = some "a".toList := by
  intro source lines
  have hblock : Block.explicit 1 lines (Line.joinLines source) ∈ standardTop.blocks ⟨0, source⟩ := by
    decide +kernel
  have hknown : (standardCall? source lines).map (fun p => (p.2.content, decide (Straight p.1.spec lines)))
      = some (["a".toList], true) := by decide +kernel
  obtain ⟨⟨d, c⟩, hcall, hfacts⟩ := Option.map_eq_some_iff.mp hknown
  obtain ⟨hcontent, hstraight⟩ := Prod.mk.inj hfacts
  have hline : c.content[0]? = some "a".toList := by
    rw [show c.content = ["a".toList] from hcontent]
    rfl
  have hstraight : Straight d.spec lines := of_decide_eq_true hstraight
  exact ⟨d, c, hblock, hcall, hstraight, hline,
    ((content_names_source_lines (.refl _) hblock hcall).2.1 hstraight).1 0 _ hline⟩

/-- Two uses whose content is not where its numbers say: text that goes on
    after the options of a note, and a directive on the line below the name of
    the substitution that it defines. -/
theorem content_misnumbered :
    (let source := [".. note:: a".toList, "   :class: x".toList, [], "   b".toList]
     let lines := ["note:: a".toList, ":class: x".toList, [], "b".toList]
     ∃ d c, Block.explicit 1 lines (Line.joinLines source) ∈ standardTop.blocks ⟨0, source⟩ ∧
       standardCall? source lines = some (d, c) ∧ c.content[2]? = some "b".toList ∧
       ¬∃ cut, source[c.contentOffset + 2]?.map (·.drop cut) = some "b".toList) ∧
    (let source := [".. |s|".toList, "   replace:: t".toList]
     let lines := ["|s|".toList, "replace:: t".toList]
     ∃ d c, Block.explicit 1 lines (Line.joinLines source) ∈ standardTop.blocks ⟨0, source⟩ ∧
       standardCall? source lines = some (d, c) ∧ c.content[0]? = some "t".toList ∧
       ¬∃ cut, source[c.contentOffset + 0]?.map (·.drop cut) = some "t".toList) := by
  -- A line that is no end of another one is not got by dropping characters.
  have hno : ∀ {source : List Line} {n : Nat} {y l : Line}, source[n]? = some y → ¬l <:+ y →
      ¬∃ cut, source[n]?.map (·.drop cut) = some l := by
    rintro source n y l hy hsuffix ⟨cut, hcut⟩
    rw [hy, Option.map_some, Option.some.injEq] at hcut
    exact hsuffix (hcut ▸ List.drop_suffix cut y)
  constructor
  · intro source lines
    have hknown : (standardCall? source lines).map (fun p => (p.2.content, p.2.contentOffset))
        = some (["a".toList, [], "b".toList], 0) := by decide +kernel
    obtain ⟨⟨d, c⟩, hcall, hfacts⟩ := Option.map_eq_some_iff.mp hknown
    obtain ⟨hcontent, hoffset⟩ := Prod.mk.inj hfacts
    dsimp only at hcontent hoffset
    refine ⟨d, c, by decide +kernel, hcall, by rw [hcontent]; rfl, ?_⟩
    rw [hoffset]
    exact hno (y := []) rfl (by decide)
  · intro source lines
    have hknown : (standardCall? source lines).map (fun p => (p.2.content, p.2.contentOffset))
        = some (["t".toList], 0) := by decide +kernel
    obtain ⟨⟨d, c⟩, hcall, hfacts⟩ := Option.map_eq_some_iff.mp hknown
    obtain ⟨hcontent, hoffset⟩ := Prod.mk.inj hfacts
    dsimp only at hcontent hoffset
    refine ⟨d, c, by decide +kernel, hcall, by rw [hcontent]; rfl, ?_⟩
    rw [hoffset]
    exact hno (y := ".. |s|".toList) rfl (by decide)

end Site

end MarkupLint
