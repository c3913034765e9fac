import MarkupLint.Parse.Body
import MarkupLint.Proofs.Progress

/-! # Line numbers at every depth

    The bodies inside a block lie below the body of the block, and with them
    every body that is reached through blocks, however deep: quotations, and
    the items of bullet, enumerated, field, option and definition lists.  So
    their lines are lines of the text under the numbers they go by, and what
    is reported with such a number is reported about that line. -/

namespace MarkupLint

/-- The line numbers a block reports: those of its nodes and of its
    complaints. -/
def Block.numbers : Block → List Nat
  | .problem p => [p.line]
  | .paragraph line _ stray => line :: stray.toList
  | .heading h => h.line :: (h.shortage.map Problem.line).toList
  | .bulletList line items | .enumeratedList line _ items => line :: items.map (·.line)
  | .stuckList line first => [line, first]
  | .fieldList line items | .optionList line items => line :: items.map (·.line)
  | .definitionList line items =>
    line :: items.flatMap fun item =>
      if item.announces then [item.line, item.line + 1] else [item.line]
  | .lineBlock line lines => line :: lines.map (·.1)
  | .literal line _ | .transition line | .quote line _ | .doctest line _ | .table line _
  | .explicit line _ _ | .anonymousTarget line _ => [line]

/-- The bodies that are read for a text, with whether titles are allowed in
    them: the lines of the text, and the bodies inside the blocks of such a
    body.  Tabs are expanded to multiples of `tabWidth`, and `width` says how
    many columns a text takes. -/
inductive Within (tabWidth : Int) (width : List Char → Nat) (text : List Char) :
    Bool → Body → Prop
  | top {source : List Line} (split : splitLines? tabWidth text = some source) :
    Within tabWidth width text true ⟨0, source⟩
  | inside {titles : Bool} {b c : Body} {block : Block}
      (outer : Within tabWidth width text titles b) (found : block ∈ b.blocks titles width)
      (nested : c ∈ block.bodies) : Within tabWidth width text false c

/-! ## What the parser reads -/

theorem forM_congr {α : Type} {items : List α} {f g : α → Parse Unit}
    (h : ∀ a ∈ items, f a = g a) : items.forM f = items.forM g := by
  induction items with
  | nil => rfl
  | cons a items ih =>
    simp only [List.forM] at ih ⊢
    rw [h a List.mem_cons_self, ih fun a ha => h a (List.mem_cons_of_mem _ ha)]

/-- The parser hands nothing but the bodies inside a block to `read`,
    explicit markup apart: readers that agree on these bodies cannot be told
    apart. -/
theorem Site.block_congr {site : Site} {read read' : ReadBody} {block : Block}
    (hmarkup : ∀ line lines markup, block ≠ .explicit line lines markup)
    (h : ∀ parent, ∀ c ∈ block.bodies, read (site.within parent) c = read' (site.within parent) c) :
    site.block read block = site.block read' block := by
  cases block with
  | explicit line lines markup => exact absurd rfl (hmarkup line lines markup)
  | quote line body =>
    simp only [Site.block, h _ body (List.mem_singleton_self body)]
  | bulletList line items =>
    simp only [Site.block, Site.listItems]
    refine congrArg _ (funext fun list => forM_congr fun item hitem => ?_)
    simp only [h _ item.body (List.mem_map_of_mem hitem)]
  | enumeratedList line start items =>
    have hitems : ∀ list, site.listItems read list items = site.listItems read' list items := by
      intro list
      refine forM_congr fun item hitem => ?_
      simp only [h _ item.body (List.mem_map_of_mem hitem)]
    simp only [Site.block, Site.enumeratedList, hitems]
  | fieldList line items =>
    simp only [Site.block, Site.fields]
    refine congrArg _ (funext fun list => forM_congr fun item hitem => ?_)
    simp only [h _ item.body (List.mem_map_of_mem hitem)]
  | optionList line items =>
    simp only [Site.block, Site.optionItems]
    refine congrArg _ (funext fun list => forM_congr fun item hitem => ?_)
    simp only [h _ item.body (List.mem_map_of_mem hitem)]
  | definitionList line items =>
    simp only [Site.block, Site.definitions]
    refine congrArg _ (funext fun list => forM_congr fun item hitem => ?_)
    simp only [h _ item.body (List.mem_map_of_mem hitem)]
  | _ => rfl

/-! ## Bodies below the text -/

theorem Body.blocks_placed (b : Body) (titles : Bool) (width : List Char → Nat) :
    ∀ block ∈ b.blocks titles width, block.Placed b :=
  Reader.blocks_placed (b.manner titles width) b.offset b.lines

/-- A body with a line has a first one. -/
theorem Body.first_line {b : Body} {n : Nat} {l : Line} (h : b.line? n = some l) :
    ∃ first, b.line? (b.offset + 1) = some first := by
  have hrange := Body.range_of_line? h
  have hpos : 0 < b.lines.length := by omega
  exact ⟨b.lines[0], Body.line?_of_getElem? (List.getElem?_eq_getElem hpos)⟩

/-- A list that reading gets stuck at reports the first line of its body. -/
theorem Body.first_of_stuckList {b : Body} {titles : Bool} {width : List Char → Nat}
    {line first : Nat} (h : .stuckList line first ∈ b.blocks titles width) :
    first = b.offset + 1 := by
  rcases b.blocks_fit titles width h with ⟨hfilled, -⟩ | ⟨line', heq⟩
  · cases hfilled
  · exact (Block.stuckList.inj heq).2

namespace Block.Placed

variable {b : Body} {block : Block}

/-- The numbers of a block are numbers of lines. -/
theorem numbers_shown (h : block.Placed b)
    (hstuck : ∀ line first, block = .stuckList line first → first = b.offset + 1) :
    ∀ n ∈ block.numbers, ∃ l, b.line? n = some l := by
  intro n hn
  cases block with
  | problem p =>
    obtain rfl := List.mem_singleton.mp hn
    exact Body.Shows.exists_line h
  | paragraph line text stray =>
    rcases List.mem_cons.mp hn with rfl | hn
    · exact h.1.exists_line
    · exact (h.2.2 n (by simpa using hn)).exists_line
  | heading head =>
    rcases List.mem_cons.mp hn with rfl | hn
    · exact h.title.exists_line
    · obtain ⟨p, hp, rfl⟩ := by simpa using hn
      exact Body.Shows.exists_line (h.shortage p hp)
  | bulletList line items | enumeratedList line start items | fieldList line items
  | optionList line items =>
    rcases List.mem_cons.mp hn with rfl | hn
    · exact h.1.exists_line
    · obtain ⟨item, hitem, rfl⟩ := List.mem_map.mp hn
      exact (h.2 item hitem).marker.exists_line
  | stuckList line first =>
    rcases List.mem_pair.mp hn with rfl | rfl
    · exact Body.Shows.exists_line h
    · obtain ⟨l, hl⟩ := Body.Shows.exists_line h
      exact hstuck _ _ rfl ▸ Body.first_line hl
  | definitionList line items =>
    rcases List.mem_cons.mp hn with rfl | hn
    · exact h.1.exists_line
    · obtain ⟨item, hitem, hn⟩ := List.mem_flatMap.mp hn
      have hplaced := h.2 item hitem
      have hcases : n = item.line ∨ n = item.line + 1 := by
        split at hn <;> simp_all
      rcases hcases with rfl | rfl
      · exact hplaced.term.exists_line
      · exact hplaced.next.exists_line
  | lineBlock line lines =>
    rcases List.mem_cons.mp hn with rfl | hn
    · exact h.1.exists_line
    · obtain ⟨q, hq, rfl⟩ := List.mem_map.mp hn
      exact (h.2 q hq).exists_line
  | transition line =>
    obtain rfl := List.mem_singleton.mp hn
    exact Body.Shows.exists_line h
  | literal line text | quote line body | doctest line text | table line text
  | explicit line lines markup | anonymousTarget line lines =>
    obtain rfl := List.mem_singleton.mp hn
    exact h.1.exists_line

/-- The bodies inside a block lie below the body it stands in. -/
theorem below_bodies (h : block.Placed b) : ∀ c ∈ block.bodies, c.Below b := by
  intro c hc
  cases block with
  | quote line body =>
    obtain rfl := List.mem_singleton.mp hc
    exact h.2.2
  | bulletList line items | enumeratedList line start items | fieldList line items
  | optionList line items | definitionList line items =>
    obtain ⟨item, hitem, rfl⟩ := List.mem_map.mp hc
    exact (h.2 item hitem).below
  | _ => cases hc

end Block.Placed

namespace Body

/-- The numbers of all enumerators of a body fit 64 bits, wherever in a line
    they stand. -/
def Countable (b : Body) : Prop := ∀ l ∈ b.lines, ∀ s, s <:+ l → Pattern.Countable s

instance (b : Body) : Decidable b.Countable :=
  decidable_of_iff (∀ l ∈ b.lines, ∀ s ∈ l.tails, Pattern.Countable s) (by simp [Countable])

variable {b c : Body}

theorem mem_lines_of_line? {n : Nat} {l : Line} (h : b.line? n = some l) : l ∈ b.lines := by
  simp only [line?] at h
  split at h
  · exact List.mem_of_getElem? h
  · cases h

/-- What lies below such a body is such a body. -/
theorem Countable.of_below (h : b.Countable) (hc : c.Below b) : c.Countable := by
  intro l hl s hs
  obtain ⟨k, hk⟩ := List.mem_iff_getElem?.mp hl
  obtain ⟨l', hl', hsuffix⟩ := hc.lines _ l (line?_of_getElem? hk)
  exact h l' (mem_lines_of_line? hl') s (hs.trans hsuffix)

/-- Reading gets stuck only at a number that does not fit. -/
theorem not_stuckList (h : ∀ l ∈ b.lines, Pattern.Countable l) (titles : Bool)
    (width : List Char → Nat) (line first : Nat) : .stuckList line first ∉ b.blocks titles width := by
  intro hblock
  obtain ⟨l, hl, hcount⟩ := b.blocks_placed titles width _ hblock
  exact hcount (h l (mem_lines_of_line? hl))

theorem Countable.not_stuckList (h : b.Countable) (titles : Bool) (width : List Char → Nat)
    (line first : Nat) : .stuckList line first ∉ b.blocks titles width :=
  Body.not_stuckList (fun l hl => h l hl l List.suffix_rfl) titles width line first

end Body

/-- A body that is read lies below the lines of the text. -/
theorem Within.lies_below {tabWidth : Int} {width : List Char → Nat} {text : List Char}
    {titles : Bool} {b : Body} (h : Within tabWidth width text titles b) :
    ∃ source, splitLines? tabWidth text = some source ∧ b.Below ⟨0, source⟩ := by
  induction h with
  | top split => exact ⟨_, split, .refl _⟩
  | inside outer found nested ih =>
    obtain ⟨source, hsource, hbelow⟩ := ih
    exact ⟨source, hsource,
      ((Body.blocks_placed _ _ _ _ found).below_bodies _ nested).trans hbelow⟩

/-- A line of a body below the lines of a text is one of them. -/
theorem Body.Below.source_line {b : Body} {source : List Line} (h : b.Below ⟨0, source⟩) {n : Nat}
    {l : Line} (hl : b.line? n = some l) :
    1 ≤ n ∧ n ≤ source.length ∧ ∃ cut, source[n - 1]?.map (·.drop cut) = some l := by
  obtain ⟨l', hl', t, rfl⟩ := h.lines n l hl
  have hrange := Body.range_of_line? hl'
  simp only [Nat.zero_add] at hrange
  refine ⟨hrange.1, hrange.2, t.length, ?_⟩
  simp only [Body.line?, Nat.sub_zero] at hl'
  rw [if_pos (by omega)] at hl'
  simp [hl']

/-- **Line numbers are right at every depth.**  A body that is read for a
    text starts and ends within the lines of the text, and its lines are
    those lines, one for one, without some of the characters they start
    with.  Every line number that its blocks report is between one and the
    number of lines, and belongs to the line that the block stands on; but a
    list that reading gets stuck at, because its number does not fit 64 bits,
    also reports the first line of its body. -/
theorem numbers_name_source_lines {tabWidth : Int} {width : List Char → Nat} {text : List Char}
    {titles : Bool} {b : Body} (hb : Within tabWidth width text titles b) :
    ∃ source, splitLines? tabWidth text = some source ∧
      b.offset + b.lines.length ≤ source.length ∧
      (∀ (k : Nat) (l : Line), b.lines[k]? = some l →
        ∃ cut, source[b.offset + k]?.map (·.drop cut) = some l) ∧
      ∀ block ∈ b.blocks titles width, block.Placed b ∧
        (∀ line first, block = .stuckList line first → first = b.offset + 1) ∧
        ∀ n ∈ block.numbers, 1 ≤ n ∧ n ≤ source.length ∧
          ∃ l cut, b.line? n = some l ∧ source[n - 1]?.map (·.drop cut) = some l := by
  obtain ⟨source, hsource, hbelow⟩ := hb.lies_below
  refine ⟨source, hsource, by simpa using hbelow.finish, ?_, ?_⟩
  · intro k l hl
    obtain ⟨-, -, cut, hcut⟩ := hbelow.source_line (Body.line?_of_getElem? hl)
    rw [show b.offset + 1 + k - 1 = b.offset + k by omega] at hcut
    exact ⟨cut, hcut⟩
  · intro block hblock
    have hplaced := b.blocks_placed titles width block hblock
    have hstuck : ∀ line first, block = .stuckList line first → first = b.offset + 1 := by
      rintro line first rfl
      exact Body.first_of_stuckList hblock
    refine ⟨hplaced, hstuck, fun n hn => ?_⟩
    obtain ⟨l, hl⟩ := hplaced.numbers_shown hstuck n hn
    obtain ⟨hpos, hle, cut, hcut⟩ := hbelow.source_line hl
    exact ⟨hpos, hle, l, cut, hl, hcut⟩

/-- A quotation inside the item of a list, two levels below the text. -/
theorem numbers_name_source_lines_nested :
    Within 8 Text.textWidth "- x\n\n   y\n".toList false ⟨2, ["y".toList]⟩ ∧
      ∃ source, splitLines? 8 "- x\n\n   y\n".toList = some source ∧
        ∃ cut, source[2]?.map (·.drop cut) = some "y".toList := by
  have hitem : Within 8 Text.textWidth "- x\n\n   y\n".toList false
      ⟨0, ["x".toList, [], " y".toList]⟩ := by
    have htop : splitLines? 8 "- x\n\n   y\n".toList
        = some ["- x".toList, [], "   y".toList] := by decide +kernel
    have hlist : Block.bulletList 1 [⟨1, ⟨0, ["x".toList, [], " y".toList]⟩⟩]
        ∈ (⟨0, ["- x".toList, [], "   y".toList]⟩ : Body).blocks true Text.textWidth := by
      decide +kernel
    exact .inside (.top htop) hlist (by decide)
  have hquote : Within 8 Text.textWidth "- x\n\n   y\n".toList false ⟨2, ["y".toList]⟩ := by
    have hblock : Block.quote 3 ⟨2, ["y".toList]⟩
        ∈ (⟨0, ["x".toList, [], " y".toList]⟩ : Body).blocks false Text.textWidth := by
      decide +kernel
    exact .inside hitem hblock (by decide)
  obtain ⟨source, hsource, -, hlines, -⟩ := numbers_name_source_lines hquote
  exact ⟨hquote, source, hsource, hlines 0 _ rfl⟩

/-- A list on the third line reports the first one. -/
theorem stuckList_numbers_first_line :
    ¬∀ (tabWidth : Int) (width : List Char → Nat) (text : List Char) (titles : Bool) (b : Body),
      Within tabWidth width text titles b → ∀ line first,
        .stuckList line first ∈ b.blocks titles width →
          b.Shows first fun l => (Pattern.enumeratorParts? l).isSome := by
  intro hall
  have htop : splitLines? 8 "a\n\n99999999999999999999. b\n".toList
      = some ["a".toList, [], "99999999999999999999. b".toList] := by decide +kernel
  have hlist : Block.stuckList 3 1
      ∈ (⟨0, ["a".toList, [], "99999999999999999999. b".toList]⟩ : Body).blocks true
        Text.textWidth := by decide +kernel
  obtain ⟨l, hl, henumerator⟩ := hall 8 Text.textWidth _ true _ (.top htop) 3 1 hlist
  obtain rfl : "a".toList = l := by simpa using hl
  exact absurd henumerator (by decide)

end MarkupLint
