import MarkupLint.Proofs.Ignoring
import MarkupLint.Proofs.Plain

/-! # Text to which a role is applied

    A role name of ASCII letters and digits, joined by single marks other than
    the colon, is one token between colons (`IsRoleName.tokenAt_eq`).  So a
    word in backquotes after it is found with its role, and it is the only
    markup in a text that is otherwise plain (`Applied.pieces_eq`). -/

namespace MarkupLint.Inline

variable {name word before after rest : List Char}

/-! ## Role names -/

/-- A name by which a role can be applied. -/
structure IsRoleName (name : List Char) : Prop where
  isName : Pattern.IsName name
  ascii : ∀ c ∈ name, c.toNat < 0x80
  unbroken : ':' ∉ name

theorem isAlphanum_of_isWordChar {c : Char} (small : c.toNat < 0x80)
    (h : Text.isWordChar c = true) : c.isAlphanum = true := by
  rwa [Text.isWordChar, if_pos small] at h

theorem not_isAlphanum_of_mark {c : Char} (h : c ∈ Pattern.nameMarks) : c.isAlphanum = false := by
  have hmarks : Pattern.nameMarks.all (fun c => !c.isAlphanum) = true := by decide
  simpa using List.all_eq_true.mp hmarks c h

theorem takeWhile_isAlphanum {c : Char} (hword : ∀ c ∈ word, c.isAlphanum = true)
    (hc : c.isAlphanum = false) : (word ++ c :: rest).takeWhile Char.isAlphanum = word := by
  rw [List.takeWhile_append_of_pos hword, List.takeWhile_cons_of_neg (by simp [hc]),
    List.append_nil]

/-- By induction on the name: each run of letters and digits is followed by a
    mark that goes on with it, and the last one by the colon. -/
theorem IsRoleName.roleLength?_eq (h : IsRoleName name) (rest : List Char) :
    roleLength? (':' :: (name ++ ':' :: rest)) = some (name.length + 2) := by
  have hgo : ∀ count, name.length ≤ count →
      roleLength?.go count (name ++ ':' :: rest) = some (name.length + 1) := by
    obtain ⟨hname, hascii, hcolon⟩ := h
    induction hname with
    | @run word ne letters =>
      rintro (_ | count) hcount
      · exact absurd (List.length_eq_zero_iff.mp (Nat.le_zero.mp hcount)) ne
      · have hword : ∀ c ∈ word, c.isAlphanum = true := fun c hc =>
          isAlphanum_of_isWordChar (hascii c hc) (letters c hc)
        have hne : word.isEmpty = false := by simpa using ne
        simp only [roleLength?.go, takeWhile_isAlphanum hword (c := ':') (by decide), hne,
          List.drop_left, Bool.false_eq_true, if_false, if_true]
    | @join word name mark ne letters marks more ih =>
      rintro (_ | count) hcount
      · simp at hcount
      · obtain ⟨hascii, hasciiRest⟩ := List.forall_mem_append.mp hascii
        have hword : ∀ c ∈ word, c.isAlphanum = true := fun c hc =>
          isAlphanum_of_isWordChar (hascii c hc) (letters c hc)
        simp only [List.mem_append, List.mem_cons, not_or] at hcolon
        obtain ⟨-, hmark, hcolonRest⟩ := hcolon
        have hnext := ih (fun c hc => hasciiRest c (List.mem_cons_of_mem _ hc)) hcolonRest count
          (by simp only [List.length_append, List.length_cons] at hcount; omega)
        have hne : word.isEmpty = false := by simpa using ne
        have hjoins : (mark = '-' || mark = '.' || mark = '_' || mark = '+') = true := by
          simp only [Pattern.nameMarks, List.mem_cons, List.not_mem_nil, or_false] at marks
          rcases marks with rfl | rfl | rfl | rfl | rfl <;> first | rfl | exact absurd rfl hmark
        have hlength : (word ++ mark :: name).length + 1 = word.length + 1 + (name.length + 1) := by
          simp only [List.length_append, List.length_cons]
          omega
        rw [List.append_assoc, List.cons_append]
        simp only [roleLength?.go, takeWhile_isAlphanum hword (not_isAlphanum_of_mark marks), hne,
          List.drop_left, Bool.false_eq_true, if_false, Ne.symm hmark, hjoins, if_true, hnext,
          Option.map_some, hlength]
  rw [roleLength?, hgo _ (by simp)]
  rfl

/-- Between colons such a name is one token. -/
theorem IsRoleName.tokenAt_eq (h : IsRoleName name) (rest : List Char) :
    tokenAt ':' (name ++ ':' :: rest) = (.role, name.length + 2) := by
  unfold tokenAt
  simp [h.roleLength?_eq, Text.startsWith, Text.dropStart?]

/-! ## A word and its role between plain texts -/

/-- A text in which a role is applied to a word. -/
def applied (before name word after : List Char) : List Char :=
  before ++ ':' :: (name ++ ':' :: '\x60' :: (word ++ '\x60' :: after))

/-- The role stands between spaces, in a text that is otherwise plain. -/
structure Applied (before name word after : List Char) : Prop where
  isRoleName : IsRoleName name
  word_ne_nil : word ≠ []
  letters : ∀ c ∈ word, c.isAlpha = true
  plainBefore : ∀ c ∈ before, isPlain c = true
  plainAfter : ∀ c ∈ after, isPlain c = true
  spaceBefore : before.getLast? = some ' '
  spaceAfter : after.head? = some ' '

/-- A token, from what it takes after its first character. -/
theorem tokensFrom_cons {kind : TokenKind} {c : Char} {u v : List Char}
    (h : tokenAt c (u ++ v) = (kind, u.length + 1)) (position : Nat) :
    tokensFrom position (c :: (u ++ v))
      = ⟨kind, position, c :: u⟩ :: tokensFrom (position + (u.length + 1)) v := by
  rw [tokensFrom, h]
  dsimp only
  rw [Nat.add_sub_cancel, List.take_left, List.drop_left, Nat.add_assoc, Nat.add_comm 1]

theorem tokenAt_backquote {rest : List Char} (h : rest.head? ≠ some '\x60') :
    tokenAt '\x60' rest = (.backquote, 1) := by
  have hstart : Text.dropStart? ['\x60'] rest = none := by
    cases rest with
    | nil => rfl
    | cons c rest => exact if_neg fun heq => h (congrArg some heq.symm)
  unfold tokenAt
  simp [hstart, roleLength?, Text.startsWith, Text.dropStart?]

namespace Applied

variable (h : Applied before name word after)

include h

theorem length_before : 0 < before.length := by
  have hspace := h.spaceBefore
  cases before with
  | nil => cases hspace
  | cons c before => exact Nat.succ_pos _

/-- The letters of the word are ASCII letters, which stand in no token but a
    word. -/
theorem letter {c : Char} (hc : c ∈ word) :
    isPlain c = true ∧ Text.isWordChar c = true ∧ Text.isBlankChar c = false := by
  have halpha := h.letters c hc
  have halphanum : c.isAlphanum = true := by
    rw [Char.isAlphanum, halpha, Bool.true_or]
  have hrange : c.toNat < 0x80 := by
    rcases (Bool.or_eq_true _ _).mp halpha with hupper | hlower
    · obtain ⟨-, hle⟩ : 65 ≤ c.val ∧ c.val ≤ 90 := of_decide_eq_true hupper
      exact Nat.lt_of_le_of_lt (show c.toNat ≤ 90 from hle) (by decide)
    · obtain ⟨-, hle⟩ := (Bool.and_eq_true _ _).mp hlower
      exact Nat.lt_of_le_of_lt (show c.toNat ≤ 122 from of_decide_eq_true hle) (by decide)
  have hword : Text.isWordChar c = true := Text.isWordChar_of_isAlphanum hrange halphanum
  refine ⟨?_, hword, Text.isBlankChar_of_isWordChar hword⟩
  by_contra hplain
  have hmarks : ['\\', '*', '\x60', '|', '_', ':'].all (fun c => !c.isAlphanum) = true := by decide
  have hmem : c ∈ ['\\', '*', '\x60', '|', '_', ':'] := by
    rw [isPlain, Bool.not_eq_true, Bool.not_eq_false'] at hplain
    exact List.contains_iff_mem.mp hplain
  have hnot := List.all_eq_true.mp hmarks c hmem
  rw [halphanum] at hnot
  cases hnot

/-- The tokens: those of the role and of the word in backquotes, and plain
    ones before and after them. -/
theorem tokens_eq : ∃ bs as,
    tokens (applied before name word after) = bs ++ ⟨.role, before.length, ':' :: (name ++ [':'])⟩
      :: ⟨.backquote, before.length + (name.length + 2), ['\x60']⟩
      :: ⟨.word, before.length + (name.length + 2) + 1, word⟩
      :: ⟨.backquote, before.length + (name.length + 2) + 1 + word.length, ['\x60']⟩ :: as ∧
    (∀ t ∈ bs, t.kind.isPlain = true) ∧ ∀ t ∈ as, t.kind.isPlain = true := by
  obtain ⟨c, letters, rfl⟩ := List.exists_cons_of_ne_nil h.word_ne_nil
  obtain ⟨hplain, hword, hblank⟩ := h.letter List.mem_cons_self
  obtain ⟨d, after', rfl⟩ : ∃ d after', after = d :: after' := by
    have hspace := h.spaceAfter
    cases after with
    | nil => cases hspace
    | cons d after' => exact ⟨d, after', rfl⟩
  obtain rfl : d = ' ' := Option.some.inj h.spaceAfter
  have hbackquote : Text.isWordChar '\x60' = false :=
    Text.not_isWordChar_ascii (by decide) (by decide)
  obtain ⟨bs, hbs, hplainBefore⟩ := tokensFrom_append
    (':' :: (name ++ ':' :: '\x60' :: (c :: letters ++ '\x60' :: ' ' :: after')))
    h.plainBefore (by simpa using Text.not_isWordChar_ascii (by decide) (by decide))
    (by simpa using by decide) 0
  obtain ⟨as, has, hplainAfter⟩ := tokensFrom_append [] h.plainAfter (by simp) (by simp)
    (before.length + (name.length + 2) + 1 + (letters.length + 1) + 1)
  refine ⟨bs, as, ?_, hplainBefore, hplainAfter⟩
  -- The tokens in between, one after the other.
  have hrole : tokenAt ':' ((name ++ [':']) ++ '\x60' :: (c :: letters ++ '\x60' :: ' ' :: after'))
      = (.role, (name ++ [':']).length + 1) := by
    rw [List.append_assoc, List.singleton_append, h.isRoleName.tokenAt_eq]
    simp
  have hopen : tokenAt '\x60' ([] ++ (c :: letters ++ '\x60' :: ' ' :: after'))
      = (.backquote, ([] : List Char).length + 1) := by
    refine tokenAt_backquote fun heq => ?_
    exact ne_of_isPlain hplain (by decide) (Option.some.inj heq)
  have hrun : tokenAt c (letters ++ '\x60' :: ' ' :: after') = (.word, letters.length + 1) := by
    rw [tokenAt_of_isPlain hplain, if_pos hword, ← List.cons_append, Pattern.takeWhile_word
      (fun b hb => (h.letter hb).2.1) hbackquote, List.length_cons]
  have hclose : tokenAt '\x60' ([] ++ ' ' :: after') = (.backquote, ([] : List Char).length + 1) :=
    tokenAt_backquote (by simp)
  rw [tokens, applied, hbs, Nat.zero_add,
    show name ++ ':' :: '\x60' :: (c :: letters ++ '\x60' :: ' ' :: after')
      = (name ++ [':']) ++ '\x60' :: (c :: letters ++ '\x60' :: ' ' :: after') by simp,
    tokensFrom_cons hrole,
    show '\x60' :: (c :: letters ++ '\x60' :: ' ' :: after')
      = '\x60' :: ([] ++ (c :: letters ++ '\x60' :: ' ' :: after')) from rfl,
    tokensFrom_cons hopen, List.cons_append, tokensFrom_cons hrun,
    show '\x60' :: ' ' :: after' = '\x60' :: ([] ++ ' ' :: after') from rfl, tokensFrom_cons hclose]
  rw [List.append_nil] at has
  rw [tokensFrom, List.append_nil] at has
  simp only [List.length_append, List.length_cons, List.length_nil, Nat.zero_add, ← has]

/-- No address starts before the role, in it or after it. -/
theorem uris_eq_nil : uris (applied before name word after) = [] := by
  have hbefore : ':' ∉ before := not_mem_of_isPlain h.plainBefore (by decide)
  have hend : ':' ∉ '\x60' :: (word ++ '\x60' :: after) := by
    have hword : ':' ∉ word := not_mem_of_isPlain (fun c hc => (h.letter hc).1) (by decide)
    have hafter : ':' ∉ after := not_mem_of_isPlain h.plainAfter (by decide)
    simp [hword, hafter]
  have hcolon : ∀ (tail : List Char) (position : Nat),
      urisFrom position 0 (':' :: tail) = urisFrom (position + 1) 0 tail := by
    refine fun tail => urisFrom_append (s := [':']) fun u v heq hv => ?_
    obtain ⟨rfl, rfl⟩ | ⟨-, rfl⟩ := List.append_eq_singleton_iff.mp heq.symm
    · exact uriLength?_eq_none List.not_mem_nil (.inl rfl)
    · exact absurd rfl hv
  rw [uris, applied, urisFrom_append, hcolon, urisFrom_append, hcolon, urisFrom_eq_nil hend]
  · rintro u v rfl hv
    exact uriLength?_eq_none (fun hmem => h.isRoleName.unbroken (List.mem_append_right u hmem))
      (.inr (.inr (by simp)))
  · rintro u v rfl hv
    refine uriLength?_eq_none (fun hmem => hbefore (List.mem_append_right u hmem)) (.inr (.inl ?_))
    rw [← h.spaceBefore, List.getLast?_append_of_ne_nil u hv]

/-! ### What stands where -/

omit h in
/-- The text is cut before the word. -/
theorem cut_before (before name word after : List Char) : applied before name word after
    = (before ++ ':' :: (name ++ [':', '\x60'])) ++ (word ++ '\x60' :: after) ∧
    (before ++ ':' :: (name ++ [':', '\x60'])).length = before.length + (name.length + 2) + 1 := by
  simp [applied]
  omega

omit h in
theorem slice_eq : Scan.slice ⟨(applied before name word after).toArray⟩
    (before.length + (name.length + 2) + 1) (before.length + (name.length + 2) + 1 + word.length)
      = word := by
  obtain ⟨hcut, hlength⟩ := cut_before before name word after
  rw [hcut, ← hlength]
  exact Scan.slice_append _ _ _

theorem startOk : Scan.startOk ⟨(applied before name word after).toArray⟩ before.length
    (before.length + (name.length + 2) + 1) = true := by
  obtain ⟨hcut, hlength⟩ := cut_before before name word after
  obtain ⟨c, letters, hletters⟩ := List.exists_cons_of_ne_nil h.word_ne_nil
  obtain ⟨-, -, hblank⟩ := h.letter (hletters ▸ List.mem_cons_self)
  have hafter : Scan.after? ⟨(applied before name word after).toArray⟩
      (before.length + (name.length + 2) + 1) = some c := by
    rw [hcut, ← hlength, Scan.after?_append, hletters]
    rfl
  have hbefore : Scan.before? ⟨(applied before name word after).toArray⟩ before.length
      = some ' ' := by
    rw [applied, Scan.before?_append, h.spaceBefore]
  -- No quote and no bracket is a space.
  have hquotes : matchingQuotes ' ' c = false := by
    have hinitial : Text.Punctuation.isInitialQuote ' ' = false := by decide +kernel
    simp [matchingQuotes, quotePairs, hinitial]
  have hspace : mayPrecede ' ' = true := by decide
  rw [Scan.startOk, hafter, hbefore]
  simp [hblank, hquotes, hspace]

theorem spaceBefore_eq : Scan.spaceBefore ⟨(applied before name word after).toArray⟩
    (before.length + (name.length + 2) + 1 + word.length) = false := by
  obtain ⟨hcut, hlength⟩ := cut_before before name word after
  obtain ⟨letters, c, hletters⟩ := List.eq_nil_or_concat word |>.resolve_left h.word_ne_nil
  obtain ⟨hplain, -, hblank⟩ := h.letter (c := c) (by simp [hletters])
  have hbefore : Scan.before? ⟨(applied before name word after).toArray⟩
      (before.length + (name.length + 2) + 1 + word.length) = some c := by
    rw [hcut, ← hlength, ← List.length_append, ← List.append_assoc, Scan.before?_append, hletters,
      List.concat_eq_append, ← List.append_assoc, List.getLast?_append_of_ne_nil _ (by simp)]
    rfl
  have hne : ∀ {d : Char}, Text.isBlankChar d = true → c ≠ d := by
    rintro d hd rfl
    exact Bool.false_ne_true (hblank.symm.trans hd)
  rw [Scan.spaceBefore, hbefore]
  simp [hne (d := ' ') (by decide), hne (d := '\n') (by decide), hne (d := '\t') (by decide)]

omit h in
/-- The text is cut after the word. -/
theorem cut_after (before name word after : List Char) : applied before name word after
    = (before ++ ':' :: (name ++ ':' :: '\x60' :: (word ++ ['\x60']))) ++ after ∧
    (before ++ ':' :: (name ++ ':' :: '\x60' :: (word ++ ['\x60']))).length
      = before.length + (name.length + 2) + 1 + word.length + 1 := by
  refine ⟨by simp [applied], ?_⟩
  simp only [List.length_append, List.length_cons, List.length_nil]
  omega

theorem endsAt : Scan.endsAt ⟨(applied before name word after).toArray⟩
    (before.length + (name.length + 2) + 1 + word.length + 1) = true := by
  obtain ⟨hcut, hlength⟩ := cut_after before name word after
  rw [Scan.endsAt, hcut, ← hlength, Scan.after?_append, h.spaceAfter]
  decide

end Applied

namespace Source

variable {x : Source} {k p : Nat}

/-- From the token at an index on, which starts at a position, a role and a
    word in backquotes; then nothing but plain tokens. -/
structure RoleAt (x : Source) (k p : Nat) (name word : List Char) : Prop where
  role : x.tokens[k]? = some ⟨.role, p, ':' :: (name ++ [':'])⟩
  opening : x.tokens[k + 1]? = some ⟨.backquote, p + (name.length + 2), ['\x60']⟩
  letters : x.tokens[k + 2]? = some ⟨.word, p + (name.length + 2) + 1, word⟩
  closing : x.tokens[k + 3]? =
    some ⟨.backquote, p + (name.length + 2) + 1 + word.length, ['\x60']⟩
  plain : ∀ j t, k + 4 ≤ j → x.tokens[j]? = some t → t.kind.isPlain = true

theorem search_first {α : Type} {f : Nat → Option α} {a : α} (hk : k < x.tokens.size)
    (h : f k = some a) : x.search k f = some a := by
  obtain ⟨d, hd⟩ := Nat.exists_eq_add_of_lt hk
  rw [search, show x.tokens.size - k = d + 1 by omega, List.range'_succ, List.findSome?_cons, h]

theorem dropWhile_colons {s : List Char} (hs : ':' ∉ s) (rest : List Char) (hne : s ≠ []) :
    (':' :: (s ++ rest)).dropWhile (· == ':') = s ++ rest := by
  obtain ⟨c, s, rfl⟩ := List.exists_cons_of_ne_nil hne
  have hc : c ≠ ':' := fun heq => hs (heq ▸ List.mem_cons_self)
  rw [List.dropWhile_cons_of_pos (by rfl), List.cons_append, List.dropWhile_cons_of_neg (by simpa)]

/-- Without the colons around it, the token of a role is its name. -/
theorem trim_colons (hname : IsRoleName name) :
    Text.dropRightWhile (· == ':') ((':' :: (name ++ [':'])).dropWhile (· == ':')) = name := by
  have hne : name ≠ [] := by
    obtain ⟨c, rest, rfl, -⟩ := hname.isName.head
    exact List.cons_ne_nil c rest
  have hback : ':' ∉ name.reverse := by simpa using hname.unbroken
  have hdrop := dropWhile_colons hback [] (by simpa using hne)
  rw [List.append_nil] at hdrop
  rw [dropWhile_colons hname.unbroken _ hne, Text.dropRightWhile, List.reverse_append,
    List.reverse_singleton, List.singleton_append, hdrop, List.reverse_reverse]

/-- Where markup may start and end, the word is interpreted in the role. -/
theorem RoleAt.interpreted_eq (h : x.RoleAt k p name word) (hname : IsRoleName name)
    (hstart : x.scan.startOk p (p + (name.length + 2) + 1) = true)
    (hspace : x.scan.spaceBefore (p + (name.length + 2) + 1 + word.length) = false)
    (hend : x.scan.endsAt (p + (name.length + 2) + 1 + word.length + 1) = true) :
    x.interpreted k (k + 1) =
      (some ⟨p, p + (name.length + 2) + 1 + word.length + 1, .interpreted name
        (x.scan.slice (p + (name.length + 2) + 1) (p + (name.length + 2) + 1 + word.length))⟩,
        k + 4) := by
  have hfirst : x.start k = p := by simp [start, h.role]
  have hinner : x.stop (k + 1) = p + (name.length + 2) + 1 := by simp [stop, h.opening, Token.stop]
  have hlast : x.start (k + 3) = p + (name.length + 2) + 1 + word.length := by simp [start, h.closing]
  have hbackquote : x.is (k + 3) .backquote = true := by simp [is, h.closing]
  have hlead : x.roleName k = name := by
    simp only [roleName, text, h.role, Option.map_some, Option.getD_some]
    exact trim_colons hname
  have htrailer : x.trailer (k + 3) = ([], none, k + 4) := by
    have hafter : ∀ kind : TokenKind, kind.isPlain = false → x.is (k + 4) kind = false := by
      intro kind hkind
      unfold is
      split
      · rename_i t ht
        refine decide_eq_false fun heq => ?_
        rw [← heq, h.plain _ t (Nat.le_refl _) ht] at hkind
        cases hkind
      · rfl
    simp [trailer, mark?, hafter .role rfl, hafter .underscore rfl]
  have hne : name.isEmpty = false := by
    obtain ⟨c, rest, rfl, -⟩ := hname.isName.head
    rfl
  have hsize : k + 3 < x.tokens.size := lt_size_of_is hbackquote
  unfold interpreted
  dsimp only
  rw [hfirst, hinner, hstart, search_first (k := k + 3) hsize (a := (⟨p, _, _⟩, k + 4))]
  · rfl
  · simp only [hbackquote, hlast, hspace, htrailer]
    simp [hend, hlead, hne]

/-- The scan comes to the role after plain tokens, and finds nothing after
    the word. -/
theorem RoleAt.piecesFrom_eq (h : x.RoleAt k p name word) (hstretch : x.Stretch 0 k)
    {piece : Piece} (hpiece : x.interpreted k (k + 1) = (some piece, k + 4)) :
    x.piecesFrom [] 0 0 = [piece] := by
  have hbackquote : x.is (k + 1) .backquote = true := by simp [is, h.opening]
  have hk : k < x.tokens.size := by
    by_contra hle
    have hrole := h.role
    rw [Array.getElem?_eq_none (Nat.le_of_not_lt hle)] at hrole
    cases hrole
  have htoken : x.tokens[k] = ⟨.role, p, ':' :: (name ++ [':'])⟩ :=
    Option.some.inj ((Array.getElem?_eq_getElem hk).symm.trans h.role)
  rw [hstretch.skip (Nat.zero_le k) (Nat.le_of_lt hk), piecesFrom, dif_pos hk]
  simp only [htoken, dispatch, hbackquote, if_true, hpiece, Nat.not_lt_zero, if_false, List.find?_nil]
  rw [piecesFrom_eq_nil fun j t hj => h.plain j t (by omega)]

end Source

/-- The role and the word are the one piece of the text. -/
theorem Applied.pieces_eq (h : Applied before name word after) :
    pieces (applied before name word after) =
      [⟨before.length, before.length + (name.length + 2) + 1 + word.length + 1,
        .interpreted name word⟩] := by
  obtain ⟨bs, as, htokens, hplainBefore, hplainAfter⟩ := h.tokens_eq
  generalize hx : Source.ofChars (applied before name word after) = x
  have htoken : ∀ k : Nat, x.tokens[k]? = (tokens (applied before name word after))[k]? := by
    intro k
    rw [← hx, Source.ofChars, List.getElem?_toArray]
  -- The tokens from that of the role on, by their distance from it.
  have hat : ∀ d : Nat, x.tokens[bs.length + d]? = _ := fun d => by
    rw [htoken, htokens, List.getElem?_append_right (Nat.le_add_right _ d), Nat.add_sub_cancel_left]
  have hrole : x.RoleAt bs.length before.length name word :=
    { role := hat 0
      opening := hat 1
      letters := hat 2
      closing := hat 3
      plain := fun j t hj ht => by
        obtain ⟨d, rfl⟩ := Nat.exists_eq_add_of_le hj
        rw [Nat.add_assoc, hat, Nat.add_comm 4] at ht
        exact hplainAfter t (List.mem_of_getElem? ht) }
  have hstretch : x.Stretch 0 bs.length := by
    refine ⟨fun j t _ hj ht => ?_, ?_, ?_, ?_⟩
    · rw [htoken, htokens, List.getElem?_append_left hj] at ht
      exact hplainBefore t (List.mem_of_getElem? ht)
    · simp [Source.is, hrole.role]
    · simp [Source.is, hrole.role]
    · simp [Source.is, hrole.role]
  rw [pieces, h.uris_eq_nil, hx, hrole.piecesFrom_eq hstretch (hrole.interpreted_eq h.isRoleName
    (hx ▸ h.startOk) (hx ▸ h.spaceBefore_eq) (hx ▸ h.endsAt)), ← hx]
  congr 3
  exact Applied.slice_eq

end MarkupLint.Inline
