import MarkupLint.Directive.Image
import MarkupLint.Parse.Explicit
import MarkupLint.Proofs.Account
import MarkupLint.Proofs.Content
import MarkupLint.Proofs.Plain
import MarkupLint.Proofs.Pledge
import MarkupLint.Proofs.Words

/-! # Phrases in backquotes

    A phrase in backquotes names a target as the destination of another
    target, as the target of an image and in a text.  The latter two take
    the name from the phrase as it stands; the first takes the white space
    out before, so the name is that of the words run together. -/

namespace MarkupLint

namespace Text

theorem squeeze_cons_blank {c : Char} (hc : isBlankChar c = true) (s : List Char) :
    squeeze (c :: s) = squeeze s :=
  List.filter_cons_of_neg (by simp [hc])

theorem squeeze_cons_solid {c : Char} (hc : isBlankChar c = false) (s : List Char) :
    squeeze (c :: s) = c :: squeeze s :=
  List.filter_cons_of_pos (by simp [hc])

/-- The words of a text are all of it but white space. -/
theorem flatten_words (s : List Char) : (words s).flatten = squeeze s := by
  have hgo : ∀ (s word : List Char),
      (wordsBy.go isBlankChar word s).flatten = word.reverse ++ squeeze s := by
    intro s
    induction s with
    | nil =>
      intro word
      rw [wordsBy.go]
      split
      · rename_i hword
        rw [List.isEmpty_iff.mp hword]
        rfl
      · simp [squeeze]
    | cons c s ih =>
      intro word
      rw [wordsBy.go]
      cases hc : isBlankChar c with
      | true =>
        rw [if_pos rfl, squeeze_cons_blank hc]
        split
        · rename_i hword
          rw [ih, List.isEmpty_iff.mp hword]
        · rw [List.flatten_cons, ih]
          rfl
      | false =>
        rw [if_neg Bool.false_ne_true, ih, squeeze_cons_solid hc]
        simp
  exact hgo s []

theorem squeeze_solid (s : List Char) : ∀ c ∈ squeeze s, isBlankChar c = false := fun c hc => by
  simpa using (List.mem_filter.mp hc).2

/-- Words divided by spaces are longer than words run together. -/
theorem length_collapse (s : List Char) :
    (collapse s).length = (squeeze s).length + ((words s).length - 1) := by
  rw [collapse, ← flatten_words]
  generalize words s = ws
  induction ws with
  | nil => rfl
  | cons w ws ih =>
    cases ws with
    | nil => simp [List.intercalate]
    | cons v ws =>
      have hjoin : [' '].intercalate (w :: v :: ws) = w ++ ' ' :: [' '].intercalate (v :: ws) := by
        simp [List.intercalate]
      rw [hjoin]
      simp only [List.length_append, List.length_cons, ih, List.flatten_cons]
      omega

theorem squeeze_ne_nil {s : List Char} (h : words s ≠ []) : squeeze s ≠ [] := by
  obtain ⟨w, ws, hws⟩ := List.exists_cons_of_ne_nil h
  have hw : w ∈ words s := hws ▸ List.mem_cons_self
  rw [← flatten_words, hws, List.flatten_cons]
  exact List.append_ne_nil_of_left_ne_nil (isWord_of_mem_words hw).ne_nil _

/-- The words run together are one word. -/
theorem collapse_squeeze {s : List Char} (h : words s ≠ []) : collapse (squeeze s) = squeeze s := by
  have hword : IsWord (squeeze s) := ⟨squeeze_ne_nil h, squeeze_solid s⟩
  rw [collapse, hword.words_eq]
  simp [List.intercalate]

end Text

/-! ## Names of phrases -/

/-- Words divided by white space, without the characters that mark text
    within backquotes. -/
structure IsPhrase (p : List Char) : Prop where
  words : Text.words p ≠ []
  trimmed : Text.trim p = p
  plain : ∀ c ∈ p, c ≠ '\x60' ∧ c ≠ '<' ∧ c ≠ '>' ∧ c ≠ '\\'

/-- A reference by a phrase. -/
def quoted (p : List Char) : List Char := '\x60' :: p ++ ['\x60', '_']

namespace IsPhrase

variable {p : List Char}

theorem ne_nil (h : IsPhrase p) : p ≠ [] := by
  rintro rfl
  exact h.words rfl

theorem unescape_eq (h : IsPhrase p) : Inline.unescape p = p :=
  Inline.unescape_of_not_mem fun hmem => (h.plain _ hmem).2.2.2 rfl

theorem squeeze_mem {c : Char} (hc : c ∈ Text.squeeze p) : c ∈ p := List.mem_of_mem_filter hc

/-- Only one word is the same with its white space taken out. -/
theorem normalizeName_squeeze (h : IsPhrase p) :
    normalizeName (String.ofList (Text.squeeze p)) = normalizeName (String.ofList p) ↔
      (Text.words p).length = 1 := by
  have hne : 0 < (Text.words p).length := List.length_pos_iff.mpr h.words
  simp only [normalizeName, collapseName, String.toList_ofList, Text.lowerString,
    Text.collapse_squeeze h.words]
  constructor
  · intro heq
    have hlength := congrArg List.length (String.ofList_inj.mp heq)
    rw [Text.length_lower, Text.length_lower, Text.length_collapse] at hlength
    omega
  · intro hone
    obtain ⟨w, hw⟩ := List.length_eq_one_iff.mp hone
    rw [Text.collapse, ← Text.flatten_words, hw]
    simp [List.intercalate]

end IsPhrase

variable {p : List Char}

/-- What is in backquotes is the name that is referred to. -/
theorem reference?_quoted (hne : p ≠ []) (hquote : '\x60' ∉ p) :
    Pattern.reference? (quoted p) = some p := by
  have htake : (p ++ ['\x60', '_']).takeWhile (· ≠ '\x60') = p := by
    rw [List.takeWhile_append_of_pos fun c hc => by
      simp only [ne_eq, decide_not, Bool.not_eq_eq_eq_not, Bool.not_true, decide_eq_false_iff_not]
      rintro rfl
      exact hquote hc]
    simp
  have hsome : (!p.isEmpty) = true := by simpa using hne
  simp only [quoted, List.cons_append, Pattern.reference?, htake, List.drop_left, hsome, beq_self_eq_true,
    Bool.and_self, if_true]

/-- A phrase has no address in angle brackets. -/
theorem IsPhrase.embedded?_eq (h : IsPhrase p) : Parse.embedded? p = none := by
  unfold Parse.embedded?
  split
  · rename_i rest hreverse
    have hmem : '>' ∈ p := List.mem_reverse.mp (hreverse ▸ List.mem_cons_self)
    exact absurd rfl (h.plain _ hmem).2.2.1
  · rfl

/-- A node that was made is what it was made as. -/
theorem Build.element_bare (n : Node) (kids : List NodeId) (d : Document) :
    ∃ i d', Build.element n kids d = .ok i d' ∧ (d'.node i).bare = n.bare := by
  refine ⟨_, _, rfl, ?_⟩
  show (((d.forest.alloc n).2.append d.forest.size kids).get d.forest.size).bare = n.bare
  rw [Forest.bare_append, Forest.get_alloc, if_pos rfl]
  rfl

theorem Build.textElement_bare (n : Node) (text : String) (d : Document) :
    ∃ i d', Build.textElement n text d = .ok i d' ∧ (d'.node i).bare = n.bare := by
  by_cases htext : text = ""
  · rw [Build.textElement, if_pos htext]
    exact Build.element_bare n [] d
  · rw [Build.textElement, if_neg htext]
    exact Build.element_bare n _ _

theorem trim_quoted (p : List Char) : Text.trim (quoted p) = quoted p := by
  have hquoted : quoted p = '\x60' :: (p ++ ['\x60']) ++ ['_'] := by simp [quoted]
  rw [hquoted]
  exact Text.trim_cons_append (by decide) (by decide) _

/-- A target `x` that leads to a phrase. -/
def targetLine (p : List Char) : Line := ['_', 'x', ':', ' '] ++ quoted p

theorem trim_targetLine (p : List Char) : Text.trim (targetLine p) = targetLine p := by
  have hline : targetLine p = '_' :: (['x', ':', ' ', '\x60'] ++ p ++ ['\x60']) ++ ['_'] := by
    simp [targetLine, quoted]
  rw [hline]
  exact Text.trim_cons_append (by decide) (by decide) _

theorem splitTarget?_targetLine (p : List Char) :
    Site.splitTarget? (targetLine p) = some (['x'], quoted p) := by
  have hrest : Text.trim (' ' :: quoted p) = quoted p := by
    rw [Text.trim, List.dropWhile_cons_of_pos (by decide), ← Text.trim, trim_quoted]
  have hname : Site.targetName? '_' ('x' :: ':' :: ' ' :: quoted p) = some (['x'], ' ' :: quoted p) := by
    simp [Site.targetName?]
  have hx : Text.trim ['x'] = ['x'] := by decide
  simp [targetLine, Site.splitTarget?, hname, hrest, hx]

/-- The destination of a target is read without its white space. -/
theorem Site.hyperlinkTarget_quoted (h : IsPhrase p) (site : Site) (line : Nat) :
    site.hyperlinkTarget [targetLine p] line = (do
      let target ← Build.element
        { kind := .target, line := line, source := site.source, names := ["x"]
          refname := normalizeName (String.ofList (Text.squeeze p)) }
      return target :: (← Build.noteTarget target true)) := by
  have hquote : '\x60' ∉ Text.squeeze p := fun hmem => (h.plain _ (IsPhrase.squeeze_mem hmem)).1 rfl
  have hescape : '\\' ∉ Text.squeeze p := fun hmem =>
    (h.plain _ (IsPhrase.squeeze_mem hmem)).2.2.2 rfl
  have hsqueeze : Text.squeeze (quoted p) = quoted (Text.squeeze p) := by
    simp [Text.squeeze, quoted, Text.isBlankChar]
  have hjoin : [' '].intercalate ([targetLine p].map Text.trim) = targetLine p := by
    rw [List.map_singleton, trim_targetLine]
    simp [List.intercalate]
  have hanonymous : Site.isAnonymousTarget (targetLine p) = false := by
    simp [Site.isAnonymousTarget, targetLine, Text.startsWith, Text.dropStart?]
  have hname : normalizeName (String.ofList (Inline.unescape ['x'])) = "x" := by decide +kernel
  rw [Site.hyperlinkTarget, hjoin, splitTarget?_targetLine]
  simp only [hanonymous, Bool.false_eq_true, if_false, Site.makeTarget, List.map_cons,
    List.map_nil, List.flatten_singleton, hsqueeze,
    reference?_quoted (Text.squeeze_ne_nil h.words) hquote, Inline.unescape_of_not_mem hescape,
    Option.isNone_some, Option.toList_some, hname]

/-- The target of an image is read as it stands. -/
theorem Call.imageReference_quoted (h : IsPhrase p) (c : Call) :
    c.imageReference (String.ofList (quoted p))
      = { kind := .reference, line := c.line, source := c.site.source
          refname := normalizeName (String.ofList p) } := by
  have hquote : '\x60' ∉ p := fun hmem => (h.plain _ hmem).1 rfl
  simp only [Call.imageReference, String.toList_ofList, reference?_quoted h.ne_nil hquote, h.unescape_eq]

/-- An image with a target stands in the reference to it. -/
theorem Call.makeImage_target {c : Call} {alignments : List String} {target : String}
    (htarget : c.option? "target" = some target) {nodes : List NodeId} {s s' : ParseState}
    (h : (c.makeImage alignments).run s = .ok (.ok nodes) s') :
    ∃ ref complaints, nodes = ref :: complaints ∧
      (s'.doc.node ref).bare = (c.imageReference target).bare := by
  simp only [Call.makeImage, htarget] at h
  obtain ⟨⟨⟩, s₁, -, h⟩ := Run.bind_eq_ok h
  obtain ⟨⟨image, complaints⟩, s₂, -, h⟩ := Run.bind_eq_ok h
  obtain ⟨⟨⟩, s₃, -, h⟩ := Run.bind_eq_ok h
  obtain ⟨⟨⟩, s₄, -, h⟩ := Run.bind_eq_ok h
  obtain ⟨ref, s₅, href, h⟩ := Run.bind_eq_ok h
  obtain ⟨rfl, rfl⟩ : ref :: complaints = nodes ∧ s₅ = s' := by
    cases h
    exact ⟨rfl, rfl⟩
  refine ⟨ref, complaints, rfl, ?_⟩
  obtain ⟨i, d, helement, hbare⟩ := Build.element_bare (c.imageReference target) [image] s₄.doc
  have hrun : (liftM (Build.element (c.imageReference target) [image]) : Run NodeId).run s₄
      = .ok (.ok i) { s₄ with doc := d } := by
    show EStateM.map Except.ok (Parse.build (Build.element (c.imageReference target) [image])) s₄ = _
    simp only [EStateM.map, Parse.build, helement]
  rw [hrun] at href
  cases href
  exact hbare

/-- And so is a phrase in a text. -/
theorem Parse.InlineSite.phrase_quoted (h : IsPhrase p) (x : InlineSite) :
    x.phrase p .named = (do
      let ref ← Build.textElement
        { kind := .reference, line := x.line, refname := normalizeName (String.ofList p) }
        (String.ofList p)
      return ⟨[ref], [], String.ofList p⟩) := by
  simp [Parse.InlineSite.phrase, h.embedded?_eq, h.unescape_eq]

/-- **The name that a phrase in backquotes refers to.**  In a text, and as
    the target of an image, it is the phrase with its white space collapsed
    and its letters in lower case.  As the destination of a target it is
    that of the words run together, which is the same name for one word and
    another one for several. -/
theorem quoted_names (h : IsPhrase p) :
    (∀ (x : Parse.InlineSite) (d : Document), ∃ ref d',
      x.phrase p .named d = .ok ⟨[ref], [], String.ofList p⟩ d' ∧
        (d'.node ref).kind = .reference ∧ (d'.node ref).refname = normalizeName (String.ofList p)) ∧
    (∀ (c : Call) (alignments : List String) (nodes : List NodeId) (s s' : ParseState),
      c.option? "target" = some (String.ofList (quoted p)) →
      (c.makeImage alignments).run s = .ok (.ok nodes) s' →
      ∃ ref complaints, nodes = ref :: complaints ∧ (s'.doc.node ref).kind = .reference ∧
        (s'.doc.node ref).refname = normalizeName (String.ofList p)) ∧
    (∀ (site : Site) (line : Nat) (d : Document), ∃ target d',
      (d'.node target).kind = .target ∧ (d'.node target).names = ["x"] ∧
        (d'.node target).refname = normalizeName (String.ofList (Text.squeeze p)) ∧
        site.hyperlinkTarget [targetLine p] line d
          = ((target :: ·) <$> Build.noteTarget target true) d') ∧
    (normalizeName (String.ofList (Text.squeeze p)) = normalizeName (String.ofList p) ↔
      (Text.words p).length = 1) := by
  refine ⟨fun x d => ?_, fun c alignments nodes s s' htarget hrun => ?_, fun site line d => ?_,
    h.normalizeName_squeeze⟩
  · obtain ⟨ref, d', hrun, hbare⟩ := Build.textElement_bare
      { kind := .reference, line := x.line, refname := normalizeName (String.ofList p) }
      (String.ofList p) d
    have hkind := congrArg Node.kind hbare
    have hname := congrArg Node.refname hbare
    refine ⟨ref, d', ?_, hkind, hname⟩
    rw [Parse.InlineSite.phrase_quoted h, Contract.bind_run, hrun]
    rfl
  · obtain ⟨ref, complaints, hnodes, hbare⟩ := Call.makeImage_target htarget hrun
    rw [Call.imageReference_quoted h] at hbare
    have hkind := congrArg Node.kind hbare
    have hname := congrArg Node.refname hbare
    exact ⟨ref, complaints, hnodes, hkind, hname⟩
  · obtain ⟨target, d', hrun, hbare⟩ := Build.element_bare
      { kind := .target, line := line, source := site.source, names := ["x"]
        refname := normalizeName (String.ofList (Text.squeeze p)) } [] d
    have hkind := congrArg Node.kind hbare
    have hnames := congrArg Node.names hbare
    have hname := congrArg Node.refname hbare
    refine ⟨target, d', hkind, hnames, hname, ?_⟩
    rw [Site.hyperlinkTarget_quoted h, Contract.bind_run, hrun]
    rfl

/-- Two words, divided by a space. -/
theorem quoted_names_two_words :
    IsPhrase ['a', ' ', 'B'] ∧
      ∃ (site : Site) (ref target : NodeId) (d d' d'' : Document),
        Parse.InlineSite.phrase ⟨site, 1⟩ ['a', ' ', 'B'] .named d = .ok ⟨[ref], [], "a B"⟩ d' ∧
        (d'.node ref).refname = "a b" ∧ (d''.node target).refname = "ab" ∧
        site.hyperlinkTarget [targetLine ['a', ' ', 'B']] 1 d
          = ((target :: ·) <$> Build.noteTarget target true) d'' := by
  have hphrase : IsPhrase ['a', ' ', 'B'] := ⟨by decide, by decide, by simp⟩
  have hcollapsed : normalizeName (String.ofList ['a', ' ', 'B']) = "a b" := by decide +kernel
  have hsqueezed : normalizeName (String.ofList (Text.squeeze ['a', ' ', 'B'])) = "ab" := by
    decide +kernel
  let site := Site.standardTop
  let d := Document.new "" {}
  obtain ⟨ref, d', hrun, -, hname⟩ := (quoted_names hphrase).1 ⟨site, 1⟩ d
  obtain ⟨target, d'', -, -, hname', hrun'⟩ := (quoted_names hphrase).2.2.1 site 1 d
  exact ⟨hphrase, site, ref, target, d, d', d'', hrun, hname.trans hcollapsed,
    hname'.trans hsqueezed, hrun'⟩

/-- A target that leads to two words does not get the name of a reference to
    them. -/
theorem hyperlinkTarget_runs_words_together :
    ¬∀ (p : List Char) (site : Site) (line : Nat) (d d' : Document) (target : NodeId)
        (messages : List NodeId), IsPhrase p →
      site.hyperlinkTarget [targetLine p] line d = .ok (target :: messages) d' →
        (d'.node target).refname = normalizeName (String.ofList p) := by
  intro hall
  let site := Site.standardTop
  let x := site.hyperlinkTarget [targetLine ['a', ' ', 'B']] 1
  let d := Document.new "" {}
  have hends : x.run' d = some [1] := by decide +kernel
  have hname : ((stateAfter x d).node 1).refname = "ab" := by decide +kernel
  have hother : normalizeName (String.ofList ['a', ' ', 'B']) = "a b" := by decide +kernel
  delta EStateM.run' EStateM.run at hends
  cases hresult : x d with
  | error stop d' =>
    rw [hresult] at hends
    cases hends
  | ok nodes d' =>
    rw [hresult] at hends
    obtain rfl : nodes = [1] := Option.some.inj hends
    rw [stateAfter_of_ok hresult] at hname
    have hsame := hall _ site 1 d d' 1 [] ⟨by decide, by decide, by simp⟩ hresult
    rw [hname, hother] at hsame
    exact absurd hsame (by decide)

end MarkupLint
