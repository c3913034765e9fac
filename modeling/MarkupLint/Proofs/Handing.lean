import MarkupLint.Directive.Run
import MarkupLint.Proofs.Building
import MarkupLint.Proofs.Options

/-! # What is handed on to be read

    A block hands the bodies inside it on to the parser, and explicit markup
    what its directive reads: its content, the cells of a table, or the text
    of a file.  `Call.Hands` and `Site.Hands` list these bodies, each with
    the site it is read at and the file it comes from.  A body from the text
    at hand is smaller than the body it was found in; so files apart,
    reading goes only so deep. -/

namespace MarkupLint

/-- How the text of a file is read: in place of the directive that includes
    it, or as the cells of a table. -/
inductive FileUse where
  | included
  | cells
  deriving DecidableEq, Repr

/-- A file that is being read. -/
structure OpenFile where
  use : FileUse
  path : String
  deriving DecidableEq, Repr

/-- Whether a standard directive reads its content as a body. -/
def StandardDirective.readsContent : StandardDirective → Bool
  | .admonition _ | .titledAdmonition | .figure | .topic | .sidebar | .quotation _ | .compound
  | .container | .header | .footer | .replace | .classes | .metadata | .table | .listTable => true
  | _ => false

/-- Whether a directive reads the content of a use of it as a body. -/
def Directive.readsContent (u : DirectiveUse) : Directive → Bool
  | .standard d => d.readsContent
  | .ignored => false
  | .custom d => d.behaviour.answer u matches .nested

/-- What reads the bodies that come from a file, or from the text at hand. -/
def ReadBody.pick (read : ReadBody) : Option OpenFile → Site → Body → Parse Unit
  | none => read.within
  | some _ => read.file

namespace Call

/-- The values that a table finds in a text and reads as bodies. -/
def Values (c : Call) (text value : List Char) : Prop :=
  ∃ rows, c.values? text = some rows ∧ (∃ row ∈ rows, value ∈ row) ∧ Text.isBlank value = false

/-- The texts with values that a table finds where it stands: its header and
    its content. -/
def ownTexts (c : Call) : List (List Char) :=
  (c.option? "header").toList.map String.toList
    ++ if c.content.isEmpty then [] else [Line.joinLines c.content]

/-- The path of the file with the values of a table. -/
def tablePath (c : Call) : String := c.resolvePath (c.option "file")

/-- The bodies that a use of a directive hands on to be read, each at its
    site and with the file it comes from, if it comes from one. -/
inductive Hands (c : Call) (o : Origin) : Directive → Option OpenFile → Site → Body → Prop
  | content {d : Directive} (reads : d.readsContent c.toDirectiveUse = true) (parent : NodeId) :
    Hands c o d none (c.site.within parent) ⟨c.contentOffset, c.content⟩
  | cell {text value : List Char} (own : text ∈ c.ownTexts) (found : c.Values text value)
      (parent : NodeId) :
    Hands c o (.standard .csvTable) none (c.site.within parent)
      ⟨c.contentOffset, Text.splitOn '\n' value⟩
  | filed {text value : List Char} (empty : c.content.isEmpty = true) (named : c.has "file" = true)
      (alone : c.has "url" = false)
      (readable : c.site.env.readText c.tablePath (c.option "encoding") = .ok text)
      (found : c.Values text value) (parent : NodeId) :
    Hands c o (.standard .csvTable) (some ⟨.cells, c.tablePath⟩) (c.site.within parent)
      ⟨c.contentOffset, Text.splitOn '\n' value⟩
  | included {path : String} {text : List Char} {lines : List Line}
      (admitted : c.includePath o.source = .ok path)
      (chosen : c.includedText path (c.site.env.readText path (c.option "encoding")) = .ok text)
      (plain : c.isVerbatim = false) (split : splitLines? (c.tabWidth o.tabWidth) text = some lines)
      (parent : NodeId) :
    Hands c o (.standard .includeFile) (some ⟨.included, path⟩) (c.includedSite path parent)
      ⟨0, lines⟩

end Call

/-- The bodies that a block hands on to be read. -/
inductive Site.Hands (site : Site) (o : Origin) : Block → Option OpenFile → Site → Body → Prop
  | nested {block : Block} {c : Body} (inside : c ∈ block.bodies) (parent : NodeId) :
    Hands site o block none (site.within parent) c
  | called {line : Nat} {lines : List Line} {markup : List Char} {d : Directive} {c : Call}
      {file : Option OpenFile} {site' : Site} {body : Body}
      (use : site.call? lines line (String.ofList markup) = some (d, c))
      (handed : c.Hands o d file site' body) :
    Hands site o (.explicit line lines markup) file site' body

/-- What is handed on is read in the same environment. -/
theorem Site.Hands.env {site site' : Site} {o : Origin} {block : Block} {file : Option OpenFile}
    {body : Body} (h : site.Hands o block file site' body) : site'.env = site.env := by
  cases h with
  | nested => rfl
  | called use handed =>
    obtain ⟨name, -, -, invocation, -, rfl⟩ := Site.call?_eq_some use
    cases handed <;> rfl

/-! ## Bodies from the text at hand -/

namespace Call

theorem swapChars_length (a b : Char) (s : List Char) : (swapChars a b s).length = s.length := by
  have hone : ∀ (old new : Char) (s : List Char),
      (Text.replaceChar old [new] s).length = s.length := by
    intro old new s
    induction s with
    | nil => rfl
    | cons c s ih =>
      simp only [Text.replaceChar, List.flatMap_cons, List.length_append, List.length_cons] at ih ⊢
      split <;> simp only [List.length_cons, List.length_nil] <;> omega
  simp only [swapChars, hone]

theorem Values.length_le {c : Call} {text value : List Char} (h : c.Values text value) :
    value.length ≤ text.length := by
  obtain ⟨rows, hrows, ⟨row, hrow, hvalue⟩, -⟩ := h
  obtain ⟨rows', hread, rfl⟩ := Option.map_eq_some_iff.mp hrows
  obtain ⟨row', hrow', rfl⟩ := List.mem_map.mp hrow
  obtain ⟨value', hvalue', rfl⟩ := List.mem_map.mp hvalue
  have hle := Data.Csv.records?_length hread row' hrow' value' hvalue'
  -- Another quote character is exchanged for the usual one and back.
  by_cases hquote : (c.option "quote").toList.head?.getD '"' = '"'
  · simpa only [hquote, if_true] using hle
  · simpa only [hquote, if_false, swapChars_length] using hle

/-- A value that is read is not empty. -/
theorem Values.pos {c : Call} {text value : List Char} (h : c.Values text value) :
    0 < value.length := by
  obtain ⟨-, -, -, hblank⟩ := h
  cases value with
  | nil => cases hblank
  | cons => exact Nat.succ_pos _

end Call

namespace Site

variable {site : Site} {lines : List Line} {line : Nat} {markup : String} {d : Directive} {c : Call}

/-- The text of a directive is part of its markup. -/
theorem directiveBody_size
    (h : site.call? lines line markup = some (d, c)) :
    lineSize (directiveBody lines) ≤ lineSize lines := by
  obtain ⟨name, htext, -⟩ := call?_eq_some h
  exact Nat.le_trans (directiveBody_pared htext).lineSize_le
    (lineSize_le_of_sublist (List.drop_sublist _ _))

theorem content_size (h : site.call? lines line markup = some (d, c)) :
    lineSize c.content ≤ lineSize lines := by
  obtain ⟨name, -, -, block, hread, rfl⟩ := call?_eq_some h
  obtain ⟨-, -, hcontent, -⟩ := DirectiveSpec.read_eq_ok hread
  refine Nat.le_trans ?_ (directiveBody_size h)
  show lineSize block.content ≤ _
  rw [hcontent]
  exact lineSize_le_of_sublist (d.spec.content_sublist _)

/-- The values of an option are converted from the lines of the markup. -/
theorem option_converted (h : site.call? lines line markup = some (d, c)) {key value : String}
    (hvalue : c.option? key = some value) :
    ∃ known, d.spec.options = some known ∧ Converted known (lineSize lines) key value := by
  obtain ⟨name, -, -, block, hread, rfl⟩ := call?_eq_some h
  obtain ⟨known, hknown, converter, values, hconverter, hconvert, hsize⟩ :=
    DirectiveSpec.read_option hread hvalue
  exact ⟨known, hknown, converter, values, hconverter, hconvert,
    Nat.le_trans hsize (directiveBody_size h)⟩

/-- The texts with values that a table finds where it stands are shorter
    than its markup, unless they are empty. -/
theorem ownTexts_length (h : site.call? lines line markup = some (.standard .csvTable, c))
    {text : List Char} (htext : text ∈ c.ownTexts) (hne : 0 < text.length) :
    text.length < lineSize lines := by
  have hjoin : ∀ ls : List Line, 0 < (Line.joinLines ls).length →
      (Line.joinLines ls).length < lineSize ls := by
    intro ls hpos
    have hlength := joinLines_length ls
    split at hlength
    · rename_i hnil
      subst hnil
      cases hpos
    · omega
  rcases List.mem_append.mp htext with hheader | hcontent
  · obtain ⟨value, hvalue, rfl⟩ := List.mem_map.mp hheader
    obtain ⟨known, hknown, converter, values, hconverter, hconvert, hsize⟩ :=
      option_converted h (Option.mem_toList.mp hvalue)
    obtain rfl := Option.some.inj hknown
    -- The header is taken as it stands.
    obtain rfl : converter = .unchanged := by
      have hheader : (StandardDirective.csvTable.spec.options.getD []).get? "header"
          = some .unchanged := rfl
      exact Option.some.inj (hconverter.symm.trans hheader)
    obtain rfl := Except.ok.inj hconvert
    rw [String.toList_ofList] at hne ⊢
    exact Nat.lt_of_lt_of_le (hjoin values hne) hsize
  · split at hcontent
    · cases hcontent
    · obtain rfl := List.mem_singleton.mp hcontent
      exact Nat.lt_of_lt_of_le (hjoin _ hne) (content_size h)

/-- **A body that comes from no file is smaller than the body it was found
    in.** -/
theorem Hands.size_lt {o : Origin} {b : Body} {block : Block}
    (hblock : block ∈ site.blocks b) {site' : Site} {body : Body}
    (h : site.Hands o block none site' body) : body.size < b.size := by
  rcases b.blocks_fit site.titles _ hblock with ⟨-, hcuts⟩ | ⟨n, rfl⟩
  · cases h with
    | nested inside => exact (hcuts _ (Block.cuts_of_mem_bodies inside)).size_lt
    | @called line lines markup _ _ _ _ _ use handed =>
      have hcut : lineSize lines < b.size := by
        have := (hcuts ⟨line - 1, lines⟩ (List.mem_singleton_self _)).size_lt
        rwa [Body.size_eq_lineSize] at this
      cases handed with
      | content =>
        rw [Body.size_eq_lineSize]
        exact Nat.lt_of_le_of_lt (content_size use) hcut
      | @cell text value own found =>
        have hlength := found.length_le
        have hpos := found.pos
        have := ownTexts_length use own (by omega)
        rw [Body.size_eq_lineSize, lineSize_splitOn]
        omega
  · -- The list that reading gets stuck at has no bodies.
    cases h with
    | nested inside => cases inside

end Site

end MarkupLint
