import Mathlib.Data.List.TakeWhile
import MarkupLint.Proofs.Spans

/-! # Plain text

    No markup starts or ends with a plain character (`isPlain`), so plain text
    is cut into words, spaces and punctuation, and the scan passes over these
    (`Source.Stretch.skip`).  A text that is plain has no pieces; one with
    markup in it has the pieces of that, wherever the plain text around it
    stands. -/

namespace MarkupLint.Inline

/-- Whether no markup starts or ends with a character. -/
def isPlain (c : Char) : Bool := !(['\\', '*', '\x60', '|', '_', ':'].contains c)

/-- Whether a token is no markup by itself. -/
def TokenKind.isPlain : TokenKind → Bool
  | .word | .space | .punct => true
  | _ => false

variable {s tail : List Char} {c : Char}

theorem unescape_of_not_mem (h : '\\' ∉ s) : unescape s = s := by
  induction s with
  | nil => rfl
  | cons c s ih =>
    obtain ⟨hc, hs⟩ := not_or.mp fun hmem => h (List.mem_cons.mpr hmem)
    rw [unescape, ih hs]
    rintro b rest rfl
    exact fun _ => hc rfl

theorem ne_of_isPlain {x : Char} (hc : isPlain c = true) (hx : isPlain x = false) : c ≠ x := by
  rintro rfl
  exact Bool.false_ne_true (hx.symm.trans hc)

theorem not_mem_of_isPlain {x : Char} (hs : ∀ c ∈ s, isPlain c = true) (hx : isPlain x = false) :
    x ∉ s :=
  fun hmem => ne_of_isPlain (hs x hmem) hx rfl

/-! ## Places in a text -/

namespace Scan

theorem after?_append (u v : List Char) : Scan.after? ⟨(u ++ v).toArray⟩ u.length = v.head? := by
  rw [after?, List.getElem?_toArray, List.getElem?_append_right (Nat.le_refl _), Nat.sub_self,
    List.head?_eq_getElem?]

theorem before?_append (u v : List Char) :
    Scan.before? ⟨(u ++ v).toArray⟩ u.length = u.getLast? := by
  rcases List.eq_nil_or_concat u with rfl | ⟨u, c, rfl⟩
  · rfl
  · rw [before?, if_neg (by simp), List.getElem?_toArray, List.getElem?_append_left (by simp)]
    simp

theorem slice_append (u w v : List Char) :
    Scan.slice ⟨(u ++ (w ++ v)).toArray⟩ u.length (u.length + w.length) = w := by
  simp [slice]

end Scan

/-! ## Tokens -/

/-- The token a plain character starts. -/
theorem tokenAt_of_isPlain (hc : isPlain c = true) (rest : List Char) :
    tokenAt c rest =
      if Text.isWordChar c then (.word, ((c :: rest).takeWhile Text.isWordChar).length)
      else if Text.isPatternSpace c then (.space, ((c :: rest).takeWhile Text.isPatternSpace).length)
      else (.punct, 1) := by
  have hne : ∀ {x : Char}, isPlain x = false → c ≠ x := ne_of_isPlain hc
  have hstart : ∀ {x : Char} (p : List Char), isPlain x = false →
      Text.startsWith (x :: p) (c :: rest) = false := by
    intro x p hx
    simp [Text.startsWith, Text.dropStart?, (hne hx).symm]
  have hrole : roleLength? (c :: rest) = none := by simp [roleLength?, hne (x := ':') (by decide)]
  simp only [tokenAt, hne (x := '\\') (by decide), hne (x := '*') (by decide),
    hne (x := '\x60') (by decide), hne (x := '|') (by decide), hne (x := '_') (by decide),
    hstart (x := '\x60') _ (by decide), hstart (x := '*') _ (by decide),
    hstart (x := '_') _ (by decide), hrole]
  simp

/-- The tokens of plain text, before anything that goes on with neither a
    word nor a space. -/
theorem tokensFrom_append (tail : List Char) (hs : ∀ c ∈ s, isPlain c = true)
    (hword : ∀ c ∈ tail.head?, Text.isWordChar c = false)
    (hspace : ∀ c ∈ tail.head?, Text.isPatternSpace c = false) (position : Nat) :
    ∃ ts, tokensFrom position (s ++ tail) = ts ++ tokensFrom (position + s.length) tail ∧
      ∀ t ∈ ts, t.kind.isPlain = true := by
  induction hn : s.length using Nat.strongRecOn generalizing s position with
  | ind n ih =>
    subst hn
    cases s with
    | nil => exact ⟨[], rfl, List.forall_mem_nil _⟩
    | cons c s =>
      -- The token is plain, and it does not go beyond the plain text.
      have hfirst : (tokenAt c (s ++ tail)).1.isPlain = true ∧
          (tokenAt c (s ++ tail)).2 - 1 ≤ s.length := by
        have hlength : ∀ {p : Char → Bool}, (∀ c ∈ tail.head?, p c = false) →
            ((c :: (s ++ tail)).takeWhile p).length - 1 ≤ s.length := by
          intro p hp
          rw [← List.cons_append, Extract.takeWhile_append_of_head hp]
          exact Nat.sub_le_of_le_add (List.takeWhile_prefix p).length_le
        rw [tokenAt_of_isPlain (hs c List.mem_cons_self)]
        split
        · exact ⟨rfl, hlength hword⟩
        · split
          · exact ⟨rfl, hlength hspace⟩
          · exact ⟨rfl, Nat.zero_le _⟩
      obtain ⟨hkind, hle⟩ := hfirst
      obtain ⟨kind, k, htoken⟩ : ∃ kind k, tokenAt c (s ++ tail) = (kind, k) := ⟨_, _, rfl⟩
      rw [htoken] at hkind hle
      dsimp only at hkind hle
      obtain ⟨ts, hts, hplain⟩ := ih (s.drop (k - 1)).length
        (by rw [List.length_drop, List.length_cons]; omega) (s := s.drop (k - 1))
        (fun b hb => hs b (List.mem_cons_of_mem _ (List.mem_of_mem_drop hb)))
        (position + 1 + (s.take (k - 1)).length) rfl
      refine ⟨⟨kind, position, c :: s.take (k - 1)⟩ :: ts, ?_, List.forall_mem_cons.mpr ⟨hkind, hplain⟩⟩
      rw [List.cons_append, tokensFrom, htoken]
      dsimp only
      rw [List.take_append_of_le_length hle, List.drop_append_of_le_length hle, hts,
        List.cons_append]
      congr 3
      rw [List.length_take, List.length_drop, List.length_cons]
      omega

/-! ## Passing over plain tokens -/

namespace Source

variable {x : Source} {k e : Nat}

/-- From one index up to another the tokens are plain, and the token there
    is none that a name could go on with. -/
structure Stretch (x : Source) (k e : Nat) : Prop where
  plain : ∀ j t, k ≤ j → j < e → x.tokens[j]? = some t → t.kind.isPlain = true
  word : x.is e .word = false
  punct : x.is e .punct = false
  underscore : x.is e .underscore = false

namespace Stretch

theorem mono (h : x.Stretch k e) {j : Nat} (hkj : k ≤ j) : x.Stretch j e :=
  { h with plain := fun i t hi => h.plain i t (Nat.le_trans hkj hi) }

/-- There is no mark of a reference among the tokens, nor after them. -/
theorem mark?_eq_none (h : x.Stretch k e) {j : Nat} (hkj : k ≤ j) (hje : j ≤ e) :
    x.mark? j = none := by
  have hnot : x.is j .underscore = false := by
    rcases Nat.lt_or_eq_of_le hje with hlt | rfl
    · unfold is
      split
      · rename_i t ht
        have hplain := h.plain j t hkj hlt ht
        refine decide_eq_false fun hkind => ?_
        rw [hkind] at hplain
        cases hplain
      · rfl
    · exact h.underscore
  simp only [mark?, hnot, Bool.false_eq_true, if_false]

/-- A name that starts among the tokens ends among them. -/
theorem lastWord_lt (h : x.Stretch k e) (hke : k < e) (count : Nat) :
    x.lastWord count k < e := by
  induction count generalizing k with
  | zero => exact hke
  | succ count ih =>
    refine iteInduction (motive := (· < e)) (fun hjoins => ?_) fun _ => hke
    obtain ⟨hjoin, hword⟩ := Bool.and_eq_true_iff.mp hjoins
    obtain ⟨hjoin, -⟩ := Bool.and_eq_true_iff.mp hjoin
    have hnext : k + 1 ≠ e := by
      rintro rfl
      rw [h.punct, h.underscore] at hjoin
      cases hjoin
    have hlast : k + 2 ≠ e := by
      rintro rfl
      rw [h.word] at hword
      cases hword
    exact ih (h.mono (Nat.le_add_right k 2)) (by omega)

/-- What starts with a plain token is no markup. -/
theorem dispatch_eq (h : x.Stretch k e) (hke : k < e) {t : Token} (ht : x.tokens[k]? = some t) :
    ∃ next, x.dispatch k t = (none, next) ∧ next ≤ e := by
  have hplain := h.plain k t (Nat.le_refl k) hke ht
  cases hkind : t.kind with
  | word =>
    have hlast := h.lastWord_lt hke x.tokens.size
    have hmark := h.mark?_eq_none (Nat.le_succ_of_le (x.le_lastWord x.tokens.size k)) hlast
    rw [dispatch, hkind]
    unfold simpleReference
    dsimp only
    rw [hmark]
    exact iteInduction (motive := fun found => ∃ next, found = (none, next) ∧ next ≤ e)
      (fun _ => ⟨_, rfl, hke⟩) fun _ => ⟨_, rfl, hlast⟩
  | space | punct => exact ⟨k + 1, by rw [dispatch, hkind], hke⟩
  | _ =>
    rw [hkind] at hplain
    cases hplain

/-- In a text without addresses the scan goes on after plain tokens. -/
theorem skip (h : x.Stretch k e) (hke : k ≤ e) (hsize : e ≤ x.tokens.size) (flushed : Nat) :
    x.piecesFrom [] k flushed = x.piecesFrom [] e flushed := by
  induction hn : e - k using Nat.strongRecOn generalizing k with
  | ind n ih =>
    subst hn
    rcases Nat.lt_or_eq_of_le hke with hlt | rfl
    · have hk : k < x.tokens.size := Nat.lt_of_lt_of_le hlt hsize
      obtain ⟨next, hnext, hle⟩ := h.dispatch_eq hlt (Array.getElem?_eq_getElem hk)
      have hgo : ∀ j, k < j → j ≤ e → x.piecesFrom [] j flushed = x.piecesFrom [] e flushed :=
        fun j hkj hje => ih (e - j) (by omega) (h.mono (Nat.le_of_lt hkj)) hje rfl
      rw [piecesFrom, dif_pos hk]
      dsimp only
      rw [hnext]
      split
      · exact hgo (k + 1) (Nat.lt_succ_self k) hlt
      · exact hgo (max (k + 1) next) (by omega) (by omega)
    · rfl

end Stretch

/-- Plain tokens up to the end of the text are no markup. -/
theorem piecesFrom_eq_nil (h : ∀ j t, k ≤ j → x.tokens[j]? = some t → t.kind.isPlain = true)
    (flushed : Nat) : x.piecesFrom [] k flushed = [] := by
  have hend : ∀ j, x.tokens.size ≤ j → x.piecesFrom [] j flushed = [] := by
    intro j hj
    rw [piecesFrom, dif_neg (Nat.not_lt.mpr hj)]
  have his : ∀ kind, x.is x.tokens.size kind = false := by
    intro kind
    simp [is]
  rcases Nat.le_total x.tokens.size k with hle | hle
  · exact hend k hle
  · have hstretch : x.Stretch k x.tokens.size := ⟨fun j t hj _ => h j t hj, his _, his _, his _⟩
    rw [hstretch.skip hle (Nat.le_refl _), hend _ (Nat.le_refl _)]

end Source

/-! ## Addresses -/

/-- A scheme is a word before a colon; slashes follow or nothing. -/
theorem scheme_split : Inline.schemes.all (fun scheme =>
    let name := scheme.takeWhile (· ≠ ':')
    let rest := scheme.drop (name.length + 1)
    scheme == name ++ ':' :: rest && !name.isEmpty && name.getLast? != some ' '
      && (rest.isEmpty || rest.head? == some '/')) = true := by
  decide

/-- Where no colon follows the word of a scheme, or where nothing follows the
    colon, there is no address. -/
theorem uriLength?_eq_none {before after : List Char} (hbefore : ':' ∉ before)
    (h : before = [] ∨ before.getLast? = some ' ' ∨ ∀ c ∈ after.head?, c = '\x60') :
    uriLength? (before ++ ':' :: after) = none := by
  refine List.findSome?_eq_none_iff.mpr fun scheme hscheme => ?_
  have hsplit := List.all_eq_true.mp scheme_split scheme hscheme
  have hname : ':' ∉ scheme.takeWhile (· ≠ ':') := fun hmem => by
    simpa using List.mem_takeWhile_imp hmem
  simp only [Bool.and_eq_true, beq_iff_eq, Bool.not_eq_true', bne_iff_ne, Bool.or_eq_true] at hsplit
  obtain ⟨⟨⟨heq, hne⟩, hlast⟩, hrest⟩ := hsplit
  generalize scheme.takeWhile (· ≠ ':') = name at heq hne hlast hrest hname
  generalize scheme.drop (name.length + 1) = slashes at heq hrest
  rw [heq]
  cases hdrop : Text.dropStart? (name ++ ':' :: slashes) (before ++ ':' :: after) with
  | none => rfl
  | some rest =>
    -- Both texts are the same up to their first colon.
    have htext := Text.eq_append_of_dropStart? hdrop
    rw [List.append_assoc, List.cons_append] at htext
    have htake : ∀ {u v : List Char}, ':' ∉ u → (u ++ ':' :: v).takeWhile (· ≠ ':') = u := by
      intro u v hu
      rw [Extract.takeWhile_append_of_head (by simp)]
      exact List.takeWhile_eq_self_iff.mpr fun c hc => decide_eq_true fun hcolon => hu (hcolon ▸ hc)
    have hsame : before = name := by
      rw [← htake (v := after) hbefore, htext, htake hname]
    subst hsame
    have hafter : after = slashes ++ rest := List.tail_eq_of_cons_eq (List.append_cancel_left htext)
    rcases h with rfl | hspace | hquote
    · cases hne
    · exact absurd hspace hlast
    · rcases hrest with hempty | hslash
      · rw [List.isEmpty_iff.mp hempty, List.nil_append] at hafter
        subst hafter
        cases after with
        | nil => rfl
        | cons c after =>
          obtain rfl := hquote c rfl
          rfl
      · cases slashes with
        | nil => cases hslash
        | cons c slashes =>
          have hc := hquote c (by rw [hafter]; rfl)
          rw [hc] at hslash
          cases hslash

theorem uriLength?_of_not_mem (hs : ':' ∉ s) : uriLength? s = none := by
  refine List.findSome?_eq_none_iff.mpr fun scheme hscheme => ?_
  have hcolon : Inline.schemes.all (·.contains ':') = true := by decide
  cases hdrop : Text.dropStart? scheme s with
  | none => rfl
  | some rest =>
    refine absurd ?_ hs
    rw [Text.eq_append_of_dropStart? hdrop]
    exact List.mem_append_left _ (List.contains_iff_mem.mp (List.all_eq_true.mp hcolon scheme hscheme))

/-- A part of a text in which no address starts is passed over. -/
theorem urisFrom_append (h : ∀ u v, s = u ++ v → v ≠ [] → uriLength? (v ++ tail) = none)
    (position : Nat) :
    urisFrom position 0 (s ++ tail) = urisFrom (position + s.length) 0 tail := by
  induction s generalizing position with
  | nil => rfl
  | cons c s ih =>
    have hfirst := h [] (c :: s) rfl (List.cons_ne_nil c s)
    rw [List.cons_append] at hfirst ⊢
    rw [urisFrom, hfirst]
    dsimp only
    rw [ih (fun u v hs => h (c :: u) v (by rw [hs, List.cons_append])), List.length_cons]
    congr 1
    omega

/-- There are no addresses without colons. -/
theorem urisFrom_eq_nil (hs : ':' ∉ s) (position : Nat) : urisFrom position 0 s = [] := by
  have hpass : urisFrom position 0 (s ++ []) = urisFrom (position + s.length) 0 [] :=
    urisFrom_append (fun u v heq _ => uriLength?_of_not_mem fun hmem => hs (by
      rw [heq]
      exact List.mem_append_right u (by simpa using hmem))) position
  rw [List.append_nil] at hpass
  rw [hpass]
  rfl

/-- Plain text holds no markup. -/
theorem pieces_eq_nil (hs : ∀ c ∈ s, isPlain c = true) : pieces s = [] := by
  obtain ⟨ts, hts, hplain⟩ := tokensFrom_append [] hs (by simp) (by simp) 0
  rw [List.append_nil, tokensFrom, List.append_nil] at hts
  rw [pieces, uris, urisFrom_eq_nil (not_mem_of_isPlain hs (by decide))]
  refine Source.piecesFrom_eq_nil (fun j t _ ht => hplain t ?_) 0
  have hmem : t ∈ (Source.ofChars s).tokens := Array.mem_of_getElem? ht
  rw [Source.ofChars, tokens, hts] at hmem
  simpa using hmem

/-- Nor is there any if a colon follows it and ends the text. -/
theorem pieces_colon (hs : ∀ c ∈ s, isPlain c = true) : pieces (s ++ [':']) = [] := by
  have hcolon : ∀ position, tokensFrom position [':'] = [⟨.punct, position, [':']⟩] := by
    intro position
    rw [tokensFrom, show tokenAt ':' [] = (.punct, 1) by decide]
    dsimp only
    rw [List.take_nil, List.drop_nil, tokensFrom]
  obtain ⟨ts, hts, hplain⟩ := tokensFrom_append [':'] hs
    (by simpa using by decide) (by simpa using by decide) 0
  have huris : uris (s ++ [':']) = [] := by
    have hbefore : ':' ∉ s := not_mem_of_isPlain hs (by decide)
    rw [uris, urisFrom_append]
    · rw [urisFrom, show uriLength? [':'] = none by decide]
      rfl
    · rintro u v rfl -
      exact uriLength?_eq_none (fun hmem => hbefore (List.mem_append_right u hmem))
        (.inr (.inr (by simp)))
  rw [pieces, huris]
  refine Source.piecesFrom_eq_nil (fun j t _ ht => ?_) 0
  have hmem : t ∈ (Source.ofChars (s ++ [':'])).tokens := Array.mem_of_getElem? ht
  rw [Source.ofChars, tokens, hts, hcolon] at hmem
  rcases List.mem_append.mp (List.mem_toArray.mp hmem) with hmem | hmem
  · exact hplain t hmem
  · rw [List.mem_singleton.mp hmem]
    rfl

end MarkupLint.Inline
