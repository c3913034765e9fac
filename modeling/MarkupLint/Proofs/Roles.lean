import MarkupLint.Proofs.Applying
import MarkupLint.Proofs.Content
import MarkupLint.Proofs.Hanging
import MarkupLint.Proofs.Paragraphs

/-! # Roles that a document defines

    The directive that defines a role accepts every name of letters and digits
    that single marks join, and puts an inline role into the table of the
    document (`Site.block_roleText`).  Text applies a role when its name is one
    token (`Parse.inlineParse_applied`), which asks for less than the directive
    accepts: the name must be in ASCII and without a colon.  For such names the
    two meet (`Site.reads_defined_role`); for the others they do not
    (`accepted_role_not_applied`). -/

namespace MarkupLint

open Inline (IsRoleName Applied applied)

variable {name word before after : List Char}

/-! ## Defining a role -/

namespace Pattern

/-- A name with nothing after it is read as it stands. -/
theorem IsName.simpleName_self (h : IsName name) : Pattern.simpleName name = (name, []) := by
  have hgo : ∀ count, name.length ≤ count → Pattern.simpleName.go count name = (name, []) := by
    induction h with
    | @run word ne letters =>
      rintro (_ | count) hcount
      · exact absurd (List.length_eq_zero_iff.mp (Nat.le_zero.mp hcount)) ne
      · simp only [Pattern.simpleName.go, List.takeWhile_eq_self_iff.mpr letters, List.drop_length]
    | @join word name mark ne letters marks more ih =>
      rintro (_ | count) hcount
      · simp at hcount
      · obtain ⟨first, rest, rfl, hfirst⟩ := more.head
        have hrest := ih count (by simp only [List.length_append, List.length_cons] at hcount ⊢; omega)
        have hmark : (mark = '-' || mark = '.' || mark = '_' || mark = '+' || mark = ':') = true := by
          simpa [nameMarks, or_assoc] using marks
        have hword : word.isEmpty = false := by simpa using ne
        simp only [Pattern.simpleName.go, takeWhile_word letters (isWordChar_of_mark marks), List.drop_left,
          hword, hmark, hfirst, hrest, Bool.not_false, Bool.and_self, if_true]
  exact hgo _ (Nat.le_refl _)

/-- No white space is part of a name. -/
theorem IsName.not_blank (h : IsName name) : ∀ c ∈ name, Text.isBlankChar c = false := by
  induction h with
  | run ne letters => exact fun c hc => Text.isBlankChar_of_isWordChar (letters c hc)
  | join ne letters marks more ih =>
    refine List.forall_mem_append.mpr ⟨fun c hc => Text.isBlankChar_of_isWordChar (letters c hc),
      List.forall_mem_cons.mpr ⟨?_, ih⟩⟩
    have hmarks : nameMarks.all (!Text.isBlankChar ·) = true := by decide
    simpa using List.all_eq_true.mp hmarks _ marks

end Pattern

/-- A text without white space is the same without white space at its ends. -/
theorem Text.trim_of_not_blank {s : List Char} (hs : ∀ c ∈ s, isBlankChar c = false) : trim s = s := by
  have hdrop : ∀ {t : List Char}, (∀ c ∈ t, isBlankChar c = false) → t.dropWhile isBlankChar = t := by
    intro t ht
    cases t with
    | nil => rfl
    | cons c t => rw [List.dropWhile_cons_of_neg (by simp [ht c List.mem_cons_self])]
  rw [trim, hdrop hs, dropRightWhile, hdrop (fun c hc => hs c (List.mem_reverse.mp hc)),
    List.reverse_reverse]

theorem Text.isBlank_of_isName (h : Pattern.IsName name) : isBlank name = false := by
  obtain ⟨c, rest, rfl, hword⟩ := h.head
  simp [isBlank, isBlankChar_of_isWordChar hword]

/-- The block of the directive is the name. -/
theorem StandardDirective.read_defineRole (h : Pattern.IsName name) (offset : Nat) :
    StandardDirective.defineRole.spec.read [name] offset
      = .ok { content := [name], contentOffset := offset } := by
  have hblank := Text.isBlank_of_isName h
  have hlines : DirectiveSpec.blockLines [name] = [name] := by
    simp only [DirectiveSpec.blockLines, List.head?_cons, Option.map_some, Option.getD_some, hblank,
      Bool.false_eq_true, if_false]
    rw [Extract.trimEnd_cons hblank]
    rfl
  let spec := StandardDirective.defineRole.spec
  have hdivided : spec.isDivided [name] = false := by
    simp [spec, DirectiveSpec.isDivided, DirectiveSpec.takesArguments, StandardDirective.spec]
  have hargument : spec.argumentLines [name] = [] := by
    simp [DirectiveSpec.argumentLines, DirectiveSpec.headLines, hdivided]
  have hwhole : spec.wholeContent [name] = [name] := by
    simp [DirectiveSpec.wholeContent, DirectiveSpec.isLeftover, hargument, hdivided, hlines]
  have hblanks : spec.contentBlanks [name] = 0 := by
    simp [DirectiveSpec.contentBlanks, hwhole, hblank]
  have hcontent : spec.content [name] = [name] := by
    rw [DirectiveSpec.content, hblanks, hwhole, List.drop_zero]
  have hstart : spec.contentStart [name] = 0 := by
    simp [DirectiveSpec.contentStart, DirectiveSpec.blankStart, DirectiveSpec.isLeftover, hargument,
      hdivided, hblank]
  show spec.read [name] offset = _
  unfold DirectiveSpec.read
  rw [hcontent, hblanks, hstart]
  rfl

/-- The role that a directive with nothing but a name defines. -/
def newRole (name : List Char) : Role :=
  .styled (.generic .inline) (String.ofList (Text.lower name))

namespace Call

theorem roleNames?_eq (h : Pattern.IsName name) :
    roleNames? name = some (String.ofList (Text.lower name), "") := by
  have hne : name.isEmpty = false := by
    obtain ⟨c, rest, rfl, -⟩ := h.head
    rfl
  simp [roleNames?, h.simpleName_self, hne]

/-- A name alone defines an inline role of that name. -/
theorem defineRole_eq (c : Call) (h : Pattern.IsName name) (hcontent : c.content = [name])
    (s : ParseState) :
    c.defineRole.run s = .ok (.ok [])
      { s with roles := s.roles.set (String.ofList (Text.lower name)) (newRole name) } := by
  have htrim : Text.trim name = name := Text.trim_of_not_blank h.not_blank
  have hne : name.isEmpty = false := by
    obtain ⟨c, rest, rfl, -⟩ := h.head
    rfl
  have hread : roleSpec.read [] (c.contentOffset + 1) = .ok { contentOffset := c.contentOffset + 1 } :=
    rfl
  unfold defineRole
  simp only [hcontent, List.headD_cons, htrim, hne, Bool.false_eq_true, if_false, roleNames?_eq h,
    List.drop_one, List.tail_cons, hread]
  rfl

end Call

/-- The state in which the role is defined. -/
def ParseState.withRole (s : ParseState) (name : List Char) : ParseState :=
  { s with roles := s.roles.set (String.ofList (Text.lower name)) (newRole name) }

/-- The text of the line that defines a role, after its marker. -/
def roleText (name : List Char) : Line := "role:: ".toList ++ name

/-- The line that defines a role. -/
def roleLine (name : List Char) : Line := '.' :: '.' :: ' ' :: roleText name

theorem Pattern.directive?_roleText (h : Pattern.IsName name) :
    Pattern.directive? (roleText name) = some ("role".toList, 7) := by
  obtain ⟨c, rest, rfl, hword⟩ := h.head
  have hrole : Pattern.IsName "role".toList := .ascii (by decide) (by decide)
  have hcolon : Text.isWordChar ':' = false := isWordChar_of_mark (by decide)
  have hname := hrole.simpleName hcolon hcolon (' ' :: c :: rest)
  have hspace : c ≠ ' ' := by
    rintro rfl
    cases Text.isBlankChar_of_isWordChar hword
  have hgap : gap? (' ' :: c :: rest) = some 1 := by simp [gap?, Line.indent, hspace]
  rw [show roleText (c :: rest) = "role".toList ++ ':' :: ':' :: ' ' :: c :: rest from rfl]
  unfold Pattern.directive?
  rw [hname]
  simp [hgap]

namespace Site

variable {site : Site} {s : ParseState}

/-- Reading the directive defines the role and adds nothing. -/
theorem block_roleText (read : ReadBody) (h : Pattern.IsName name)
    (hdirective : site.env.directive? "role" = some (.standard .defineRole)) (n : Nat)
    (markup : List Char) :
    site.block read (.explicit n [roleText name] markup) s = .ok () (s.withRole name) := by
  have hcall : directiveText? [roleText name] = some ("role", [name]) := by
    simp only [directiveText?, Pattern.directive?_roleText h, Option.map_some]
    rfl
  have hread : (Directive.standard .defineRole).spec.read [name] (n - 1)
      = .ok { content := [name], contentOffset := n - 1 } := StandardDirective.read_defineRole h _
  have hrun : site.explicit read [roleText name] n (String.ofList markup) s
      = .ok [] (s.withRole name) := by
    have hbar : isMarked '|' ([roleText name].headD []) = false := rfl
    have hunderscore : isMarked '_' ([roleText name].headD []) = false := rfl
    unfold explicit directive
    simp only [hbar, hunderscore, Bool.false_eq_true, if_false, hcall, hdirective, hread]
    have hdefine := (site.call { content := [name], contentOffset := n - 1 } "role" n
      (String.ofList markup) "").defineRole_eq h rfl s
    exact (Parse.bind_ok hdefine _).trans rfl
  exact (Parse.bind_ok hrun _).trans (site.add_nil _)

end Site

/-! ## Applying a role -/

namespace Parse

open Build (Made)

variable {classes : String}

/-- What a styled role makes of a word. -/
theorem styled_made (classes : String) {c : RoleCall} (hne : c.text ≠ "") {d : Document}
    (hd : d.forest.WellFormed) :
    ∃ g i, (Role.styled (.generic .inline) classes).apply c d
        = .ok ⟨[i], [], c.text⟩ { d with forest := g } ∧
      Made d.forest g [i]
        [.node ({ kind := .inline, line := c.line : Node }.setAttr "classes" classes)
          [.node { kind := .text, value := c.text } []]] := by
  obtain ⟨g, i, hrun, hmade⟩ :=
    Build.textElement_made { kind := .inline, line := c.line } c.text hd
  rw [if_neg hne] at hmade
  refine ⟨g.modify i (·.setAttr "classes" classes), i, ?_,
    hmade.modify (·.setAttr "classes" classes) (fun _ => rfl) (fun _ => rfl) fun _ => rfl⟩
  have hkind : (g.get i).kind = .inline := by
    have hbare : (g.get i).bare = _ := hmade.shows.uncons.1
    have hkinds := congrArg Node.kind hbare
    exact hkinds
  have hwrap : (Role.generic .inline).apply c d = .ok ⟨[i], [], c.text⟩ { d with forest := g } := by
    show (c.wrap { kind := .inline }) d = _
    rw [RoleCall.wrap, Contract.bind_run, hrun]
    rfl
  rw [Role.apply, Contract.bind_run, hwrap]
  have hnode : Build.node i { d with forest := g } = .ok (g.get i) { d with forest := g } := rfl
  simp only [List.forM_eq_forM, List.forM_cons, List.forM_nil, Contract.bind_run, hnode, hkind]
  rfl

namespace InlineSite

open Inline

variable {x : InlineSite}

/-- A node gets the line of the text, unless it has it already. -/
theorem place_made {f g : Forest} {i : NodeId} {label : Node} {ts : List Tree} {d : Document}
    (hmade : Made f g [i] [.node label ts]) (hline : label.line = 0 ∨ label.line = x.line) :
    ∃ h, x.place [i] { d with forest := g } = .ok () { d with forest := h } ∧
      Made f h [i] [.node { label with line := x.line } ts] := by
  have hmade' := hmade.modify (fun n => if n.line = 0 then { n with line := x.line } else n)
    (fun m => by split <;> simp_all [Node.bare]) (fun m => by split <;> rfl)
    fun m => by split <;> rfl
  have hlabel : (if label.line = 0 then { label with line := x.line } else label)
      = { label with line := x.line } := by
    split
    · rfl
    · rename_i hne
      rw [← hline.resolve_left hne]
  rw [hlabel] at hmade'
  exact ⟨_, rfl, hmade'⟩

/-- A word to which a role of the document is applied. -/
theorem piece_made (scan : Scan) (start stop : Nat) {s : ParseState}
    (hname : name.isEmpty = false) (hne : word ≠ []) (hescape : '\\' ∉ word)
    (hrole : s.roles.get? (String.ofList (Text.lower name)) = some (.styled (.generic .inline) classes))
    (hs : s.doc.forest.WellFormed) :
    ∃ g i, x.piece scan ⟨start, stop, .interpreted name word⟩ s
        = .ok ⟨[i], [], String.ofList word⟩ (s.withForest g) ∧
      Made s.doc.forest g [i]
        [.node ({ kind := .inline, line := x.line : Node }.setAttr "classes" classes)
          [.leaf word]] := by
  have hshown : roleName name s = .ok (String.ofList name) s := by
    show EStateM.Result.ok _ s = _
    rw [hname]
    rfl
  have hfound : x.site.role? (String.ofList name) s
      = .ok (some (.styled (.generic .inline) classes)) s := by
    unfold Site.role?
    rw [Text.lowerString, String.toList_ofList]
    rw [bind_get, hrole]
    rfl
  have htext : String.ofList (unescape word) ≠ "" := by
    rw [unescape_of_not_mem hescape]
    intro heq
    exact hne (String.ofList_inj.mp (heq.trans String.ofList_nil.symm))
  obtain ⟨g, i, happly, hmade⟩ := styled_made classes
    (c := { name := Text.lowerString (String.ofList name), raw := String.ofList (scan.slice start stop)
            text := String.ofList (unescape word), line := x.line }) htext hs
  simp only [unescape_of_not_mem hescape] at happly hmade
  refine ⟨g, i, ?_, hmade⟩
  show x.interpret name (scan.slice start stop) word s = _
  unfold interpret
  refine (bind_ok hshown _).trans ((bind_ok hfound _).trans ?_)
  rw [unescape_of_not_mem hescape]
  exact build_ok happly

end InlineSite

/-- The text holds the word in an inline node of the role, and nothing is
    said about it. -/
theorem inlineParse_applied (h : Applied before name word after) (site : Site) (line : Nat)
    {s : ParseState} {classes : String}
    (hrole : s.roles.get? (String.ofList (Text.lower name)) = some (.styled (.generic .inline) classes))
    (hs : s.doc.forest.WellFormed) :
    ∃ g made, inlineParse site (applied before name word after) line s = .ok made (s.withForest g) ∧
      Made s.doc.forest g made.nodes
        [.leaf before, .node ({ kind := .inline, line := line : Node }.setAttr "classes" classes)
          [.leaf word], .leaf after] ∧
      made.messages = [] := by
  have hescape : ∀ {text : List Char}, (∀ c ∈ text, Inline.isPlain c = true) → '\\' ∉ text :=
    fun htext => Inline.not_mem_of_isPlain htext (by decide)
  have hafter : 0 < after.length := by
    have hspace := h.spaceAfter
    cases after with
    | nil => cases hspace
    | cons c after => exact Nat.succ_pos _
  obtain ⟨hcut, hstop⟩ := Applied.cut_after before name word after
  generalize hscan : (⟨(applied before name word after).toArray⟩ : Inline.Scan) = scan
  generalize hlast : before.length + (name.length + 2) + 1 + word.length + 1 = stop at hstop
  have hsize : scan.chars.size = stop + after.length := by
    rw [← hscan, List.size_toArray, hcut, List.length_append, hstop]
  have hfront : scan.slice 0 before.length = before := by
    have hslice := Inline.Scan.slice_append [] before
      (':' :: (name ++ ':' :: '\x60' :: (word ++ '\x60' :: after)))
    rwa [List.nil_append, List.length_nil, Nat.zero_add, ← applied, hscan] at hslice
  have hback : scan.slice stop scan.chars.size = after := by
    have hslice := Inline.Scan.slice_append
      (before ++ ':' :: (name ++ ':' :: '\x60' :: (word ++ ['\x60']))) after []
    rwa [List.append_nil, ← hcut, hscan, hstop, ← hsize] at hslice
  have hname : name.isEmpty = false := by
    obtain ⟨c, rest, rfl, -⟩ := h.isRoleName.isName.head
    rfl
  -- What is made from left to right: a leaf, the node of the word, and a leaf again.
  obtain ⟨f₁, first, hfirst, hmade₁, -, -⟩ := InlineSite.gap_made h.length_before hfront
    (hescape h.plainBefore) hs
  obtain ⟨f₂, i, hpiece, hmade₂⟩ := InlineSite.piece_made (x := ⟨site, line⟩) scan before.length stop
    (s := s.withForest f₁) hname h.word_ne_nil (hescape fun c hc => (h.letter hc).1) hrole hmade₁.wellFormed
  obtain ⟨f₃, hplace, hmade₃⟩ := InlineSite.place_made (x := ⟨site, line⟩) (d := s.doc) hmade₂ (.inr rfl)
  obtain ⟨f₄, last, hgap, hmade₄, hnone, -⟩ := InlineSite.gap_made (s := s.withForest f₃)
    (by omega) hback (hescape h.plainAfter) hmade₃.wellFormed
  refine ⟨f₄, ⟨first.nodes ++ [i] ++ last.nodes, [] ++ last.messages,
    first.text ++ String.ofList word ++ last.text⟩, ?_, (hmade₁.append hmade₃).append hmade₄, ?_⟩
  · rw [inlineParse, h.pieces_eq, hscan, hlast]
    unfold InlineSite.assemble
    refine (bind_ok hfirst _).trans ((bind_ok hpiece _).trans ?_)
    refine (bind_ok (build_ok hplace) _).trans ?_
    exact (bind_ok hgap _).trans rfl
  · simp [hnone]

end Parse

/-! ## Reading the lines -/

namespace Reader

/-- Blank lines go on with the directive, and end it. -/
theorem explicitBlock_roleLine (name : List Char) {blanks : List Line} (hne : blanks ≠ [])
    (hblanks : ∀ x ∈ blanks, Text.isBlank x = true) (rest : List Line)
    (hrest : ∀ x ∈ rest.head?, Extract.inBlock x = false) (n : Nat) :
    ∃ markup, explicitBlock 3 n (roleLine name) (blanks ++ rest)
      = ([.explicit n [roleText name] markup], blanks.length) := by
  have htaken : (blanks ++ rest).takeWhile Extract.inBlock = blanks := by
    rw [Extract.takeWhile_append_of_head hrest]
    exact List.takeWhile_eq_self_iff.mpr fun x hx => by
      rw [Extract.inBlock, hblanks x hx, Bool.true_or]
  have hlines : Extract.trimEnd (roleText name :: Extract.dedent blanks) = [roleText name] := by
    have hblank : Text.isBlank (roleText name) = false := rfl
    have hdedent : ∀ x ∈ (Extract.dedent blanks).reverse, Text.isBlank x = true := by
      intro x hx
      obtain ⟨y, hy, rfl⟩ := List.mem_map.mp (List.mem_reverse.mp hx)
      exact List.all_eq_true.mpr fun c hc =>
        List.all_eq_true.mp (hblanks y hy) c (List.mem_of_mem_drop hc)
    rw [Extract.trimEnd_cons hblank, Extract.trimEnd, List.dropWhile_eq_nil_iff.mpr hdedent]
    rfl
  have hlast : Text.isBlank (blanks.getLastD (roleLine name)) = true := by
    rw [List.getLastD_eq_getLast?, List.getLast?_eq_some_getLast hne]
    exact hblanks _ (List.getLast_mem hne)
  have hdrop : (roleLine name).drop 3 = roleText name := rfl
  refine ⟨Line.joinLines (roleLine name :: Extract.trimEnd ((blanks ++ rest).take blanks.length)), ?_⟩
  simp only [explicitBlock, Extract.firstKnown, Extract.finish, htaken, hdrop, hlines, explicitEnd,
    hlast, Bool.or_true, Bool.true_or, unindentUnless, if_true]

/-- The blocks of the lines: the directive, and the paragraph with the text. -/
theorem blocks_roleLine (h : Applied before name word after) {blanks lines rest : List Line}
    {first : Line} (hne : blanks ≠ []) (hblanks : ∀ x ∈ blanks, Text.isBlank x = true)
    (hparagraph : IsParagraph first lines)
    (htext : Line.joinLines (first :: lines) = applied before name word after)
    (hrest : ∀ x ∈ rest.head?, Text.isBlank x = true) (how : Manner) (n : Nat) :
    ∃ markup, blocks how n (roleLine name :: (blanks ++ first :: (lines ++ rest)))
      = .explicit n [roleText name] markup
        :: .paragraph (n + 1 + blanks.length) (applied before name word after) none
        :: blocks how (n + 1 + blanks.length + 1 + lines.length) rest := by
  have hfirst : Extract.inBlock first = false := not_inBlock_of_startsText hparagraph.starts
  have hcolon : (Line.joinLines (first :: lines)).getLast? ≠ some ':' := by
    have hafter : after ≠ [] := by
      rintro rfl
      cases h.spaceAfter
    rw [htext, (Applied.cut_after before name word after).1, List.getLast?_append_of_ne_nil _ hafter]
    exact fun hlast => Inline.not_mem_of_isPlain h.plainAfter (by decide) (List.mem_of_getLast? hlast)
  obtain ⟨markup, hexplicit⟩ := explicitBlock_roleLine name hne hblanks
    (first :: (lines ++ rest)) (fun x hx => Option.some.inj hx ▸ hfirst) n
  have hmarker : Pattern.marker? ['.', '.'] ('.' :: '.' :: ' ' :: roleText name) = some 3 := rfl
  have hblock := block_explicit hmarker how n (blanks ++ first :: (lines ++ rest))
  refine ⟨markup, ?_⟩
  rw [blocks_cons, roleLine, hblock, ← roleLine, hexplicit]
  dsimp only
  rw [List.drop_left, blocks_cons, block_of_isParagraph hparagraph hcolon hrest, htext]
  dsimp only
  rw [List.drop_left]
  rfl

end Reader

/-- **A role that is defined can be applied.**  Let a body go on with the
    directive that defines a role, blank lines, and a paragraph in which the
    role stands between spaces, in a text that is otherwise plain.  Reading
    them defines the role and hangs up the paragraph with the word in an
    inline node of the role's class; the document is otherwise as it was, so
    nothing is said about it, and reading goes on after the paragraph. -/
theorem Site.reads_defined_role (site : Site) (read : ReadBody)
    (hdirective : site.env.directive? "role" = some (.standard .defineRole))
    (h : Applied before name word after) {blanks lines rest : List Line} {first : Line}
    (hne : blanks ≠ []) (hblanks : ∀ x ∈ blanks, Text.isBlank x = true)
    (hparagraph : Reader.IsParagraph first lines)
    (htext : Line.joinLines (first :: lines) = applied before name word after)
    (hrest : ∀ x ∈ rest.head?, Text.isBlank x = true) (how : Reader.Manner) (n : Nat) {s : ParseState}
    (hs : s.doc.forest.WellFormed) (hp : site.place s < s.doc.forest.size) :
    ∃ g i,
      (Reader.blocks how n (roleLine name :: (blanks ++ first :: (lines ++ rest)))).forM
          (site.block read) s
        = (Reader.blocks how (n + 1 + blanks.length + 1 + lines.length) rest).forM
            (site.block read) ((s.withRole name).withForest g) ∧
      s.doc.forest.Hung g (site.place s) [i]
        [.node { kind := .paragraph, line := (n + 1 + blanks.length : Nat), source := site.source }
          [.leaf before,
            .node ({ kind := .inline, line := (n + 1 + blanks.length : Nat) : Node }.setAttr "classes"
                (String.ofList (Text.lower name))) [.leaf word],
            .leaf after]] := by
  obtain ⟨markup, hblocks⟩ := Reader.blocks_roleLine h hne hblanks hparagraph htext hrest how n
  have hrole : (s.withRole name).roles.get? (String.ofList (Text.lower name))
      = some (.styled (.generic .inline) (String.ofList (Text.lower name))) :=
    Data.Table.get?_set_self _ _ _
  obtain ⟨g, made, hinline, hmade, hnone⟩ :=
    Parse.inlineParse_applied h site (n + 1 + blanks.length) hrole hs
  have htextne : applied before name word after ≠ [] := by
    have hlength := h.length_before
    intro heq
    have hnil := congrArg List.length heq
    simp only [applied, List.length_append, List.length_nil] at hnil
    omega
  obtain ⟨g', i, hrun, hhung⟩ := paragraph_hung (s := s.withRole name) htextne hinline hmade hnone hs hp
  refine ⟨g', i, ?_, hhung⟩
  rw [hblocks, forM_cons (site.block_roleText read h.isRoleName.isName hdirective n markup)]
  let text := applied before name word after
  have hblock : site.block read (.paragraph (n + 1 + blanks.length) text none) (s.withRole name)
      = .ok () ((s.withRole name).withForest g') := hrun
  exact forM_cons hblock _

/-- A role of two parts, in a text of two lines. -/
theorem Site.reads_defined_role_joined :
    let name := ['A', '.', 'b']
    let lines : List Line := [roleLine name, [],
      applied ['x', ' '] name ['w'] [' ', 'y'], ['z']]
    let s : ParseState := { doc := Document.new "d.rst" {} }
    ∃ g i,
      (standardTop.blocks ⟨0, lines⟩).forM
          (standardTop.block ⟨fun _ _ => pure (), fun _ _ => pure ()⟩) s
        = .ok () ((s.withRole name).withForest g) ∧
      s.doc.forest.Hung g 0 [i]
        [.node { kind := .paragraph, line := 3 }
          [.leaf ['x', ' '],
            .node ({ kind := .inline, line := 3 : Node }.setAttr "classes" "a.b") [.leaf ['w']],
            .leaf [' ', 'y', '\n', 'z']]] := by
  intro name lines s
  have hname : IsRoleName name :=
    { isName := .join (show ['A'] ≠ [] by decide) (List.all_eq_true.mp (by decide +kernel)) (by decide)
        (.run (show ['b'] ≠ [] by decide) (List.all_eq_true.mp (by decide +kernel)))
      ascii := by simp [name]
      unbroken := by decide }
  have happlied : Applied ['x', ' '] name ['w'] [' ', 'y', '\n', 'z'] :=
    { isRoleName := hname
      word_ne_nil := by decide
      letters := List.all_eq_true.mp (by decide)
      plainBefore := List.all_eq_true.mp (by decide)
      plainAfter := List.all_eq_true.mp (by decide)
      spaceBefore := rfl
      spaceAfter := rfl }
  have hparagraph : Reader.IsParagraph (applied ['x', ' '] name ['w'] [' ', 'y']) [['z']] :=
    { starts := by decide +kernel
      goOn := by decide +kernel
      untitled := by decide +kernel }
  have hblank : ∀ x ∈ [([] : Line)], Text.isBlank x = true := by decide
  have hend : ∀ x ∈ ([] : List Line).head?, Text.isBlank x = true := by decide
  obtain ⟨g, i, hrun, hhung⟩ := standardTop.reads_defined_role ⟨fun _ _ => pure (), fun _ _ => pure ()⟩
    rfl happlied (List.cons_ne_nil _ _) hblank hparagraph rfl hend
    (Body.manner ⟨0, lines⟩ true Text.textWidth) 1
    (Document.wellFormed_new "d.rst" {}) (s := s) (by decide)
  refine ⟨g, i, hrun.trans ?_, hhung⟩
  rw [Reader.blocks]
  rfl

/-- A name may be accepted and still not be applied: with a letter beyond
    ASCII it is no token. -/
theorem accepted_role_not_applied :
    ¬∀ name : List Char, Pattern.IsName name →
      let text := roleLine name ++ '\n' :: '\n' :: applied ['x', ' '] name ['w'] [' ', 'y'] ++ ['\n']
      let d := ((Document.new "d.rst" {}).parse Site.standardTop.env text).2
      d.forest.findAll .inline d.root ≠ [] := by
  intro hall
  have hname : Pattern.IsName ['é'] := .run (by decide) (List.all_eq_true.mp (by decide +kernel))
  exact hall ['é'] hname (by decide +kernel)

end MarkupLint
