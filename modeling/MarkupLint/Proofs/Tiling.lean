import Mathlib.Data.List.Pairwise
import MarkupLint.Inline.Piece
import MarkupLint.Proofs.Placement

/-! # Tokens and addresses within a text

    The tokens of a text tile it: put together they are the text, and each
    starts where the one before it ends.  So the starts of the tokens divide
    the text into parts that are not empty, up to its end.

    The addresses of a text are found apart from its tokens.  They too are
    not empty, lie within the text and follow each other, but they start and
    stop anywhere in a token. -/

namespace MarkupLint.Inline

/-! ## Tokens -/

/-- A rule: what it takes from the start of a text, if it matches there. -/
structure Rule where
  kind : TokenKind
  length? : List Char → Option Nat

/-- Takes a string. -/
def Rule.exact (kind : TokenKind) (p : List Char) : Rule :=
  ⟨kind, fun s => if Text.startsWith p s then some p.length else none⟩

/-- Takes the characters that satisfy a condition, at least one. -/
def Rule.run (kind : TokenKind) (p : Char → Bool) : Rule :=
  ⟨kind, fun s => if (s.takeWhile p).isEmpty then none else some (s.takeWhile p).length⟩

/-- The rules for tokens. -/
def rules : List Rule :=
  [⟨.escape, fun s => if Text.startsWith ['\\'] s && 2 ≤ s.length then some 2 else none⟩,
    .exact .literal ['\x60', '\x60'], .exact .strong ['*', '*'], .exact .emphasis ['*'],
    ⟨.role, roleLength?⟩, .exact .targetStart ['_', '\x60'], .exact .backquote ['\x60'],
    .exact .pipe ['|'], .run .underscore (· == '_'), .run .word Text.isWordChar,
    .run .space Text.isPatternSpace, ⟨.punct, fun s => if s.isEmpty then none else some 1⟩]

/-- The first of some rules that matches, with what it takes. -/
def first? (rs : List Rule) (s : List Char) : Option (TokenKind × Nat) :=
  rs.findSome? fun r => (r.length? s).map (r.kind, ·)

/-- A rule that matches under a condition comes before the others if it
    holds. -/
theorem first?_cons {r : Rule} {rs : List Rule} {s : List Char} {c : Prop} [Decidable c] {n : Nat}
    {other : TokenKind × Nat} (hr : r.length? s = if c then some n else none)
    (hrs : first? rs s = some other) :
    first? (r :: rs) s = some (if c then (r.kind, n) else other) := by
  rw [first?, List.findSome?_cons, hr]
  by_cases hc : c
  · rw [if_pos hc, if_pos hc]
    rfl
  · rw [if_neg hc, if_neg hc]
    exact hrs

/-- A rule for one character looks at the first one. -/
theorem Rule.exact_single (kind : TokenKind) (a c : Char) (rest : List Char) :
    (Rule.exact kind [a]).length? (c :: rest) = if c = a then some 1 else none := by
  simp only [exact, Text.startsWith, Text.dropStart?, eq_comm (a := a)]
  split <;> rfl

/-- So does a rule for a run of characters, to see whether there is one. -/
theorem Rule.run_cons (kind : TokenKind) (p : Char → Bool) (c : Char) (rest : List Char) :
    (Rule.run kind p).length? (c :: rest) =
      if p c then some ((c :: rest).takeWhile p).length else none := by
  cases hc : p c <;> simp [run, hc]

/-- At each position the first rule that matches gives the token. -/
theorem tokenAt_first (c : Char) (rest : List Char) :
    first? rules (c :: rest) = some (tokenAt c rest) := by
  unfold tokenAt
  refine first?_cons ?_ (first?_cons rfl (first?_cons rfl
    (first?_cons (Rule.exact_single _ _ _ _) ?_)))
  · by_cases hc : c = '\\'
    · cases rest <;> simp [hc, Text.startsWith, Text.dropStart?]
    · simp [hc, Ne.symm hc, Text.startsWith, Text.dropStart?]
  · have hunderscore : (Rule.run .underscore (· == '_')).length? (c :: rest) =
        if c = '_' then some ((c :: rest).takeWhile (· == '_')).length else none := by
      simp [Rule.run_cons]
    have hrest : first? (rules.drop 5) (c :: rest) = some _ :=
      first?_cons rfl (first?_cons (Rule.exact_single _ _ _ _)
        (first?_cons (Rule.exact_single _ _ _ _) (first?_cons hunderscore
          (first?_cons (Rule.run_cons _ _ _ _) (first?_cons (Rule.run_cons _ _ _ _) rfl)))))
    simp only [first?, rules, List.drop, List.findSome?_cons] at hrest ⊢
    cases roleLength? (c :: rest) with
    | some k => rfl
    | none => exact hrest

/-- No rule matches the empty string, and none takes more than there is. -/
def Rule.Within (r : Rule) : Prop := ∀ s n, r.length? s = some n → 0 < n ∧ n ≤ s.length

/-- A string that starts a text is no longer than the text. -/
theorem Rule.within_exact (kind : TokenKind) (c : Char) (p : List Char) :
    (Rule.exact kind (c :: p)).Within := by
  intro s n h
  simp only [exact, Option.ite_none_right_eq_some] at h
  obtain rfl := Option.some.inj h.2
  exact ⟨Nat.succ_pos _, (Text.startsWith_iff.mp h.1).length_le⟩

/-- Nor is a run at its start, and an empty run does not count. -/
theorem Rule.within_run (kind : TokenKind) (p : Char → Bool) : (Rule.run kind p).Within := by
  intro s n h
  simp only [run, Option.ite_none_left_eq_some, List.isEmpty_iff] at h
  obtain rfl := Option.some.inj h.2
  exact ⟨List.length_pos_iff.mpr h.1, (List.takeWhile_prefix p).length_le⟩

/-- By the number of runs. -/
theorem roleLength?_go_le (count : Nat) (s : List Char) {n : Nat}
    (h : roleLength?.go count s = some n) : n ≤ s.length := by
  induction count generalizing s n with
  | zero => cases h
  | succ count ih =>
    have hrun : (s.takeWhile Char.isAlphanum).length
        + (s.drop (s.takeWhile Char.isAlphanum).length).length = s.length := by
      have hle := (List.takeWhile_prefix Char.isAlphanum (l := s)).length_le
      rw [List.length_drop]
      omega
    simp only [roleLength?.go] at h
    split at h
    · cases h
    · split at h
      · rename_i c rest hrest
        rw [hrest, List.length_cons] at hrun
        split at h
        · obtain rfl := Option.some.inj h
          omega
        · split at h
          · obtain ⟨m, hm, rfl⟩ := Option.map_eq_some_iff.mp h
            have := ih rest hm
            omega
          · cases h
      · cases h

/-- A role name has two colons, so it is not empty. -/
theorem within_role : (Rule.mk .role roleLength?).Within := by
  intro s n h
  simp only [roleLength?] at h
  split at h
  · obtain ⟨m, hm, rfl⟩ := Option.map_eq_some_iff.mp h
    exact ⟨Nat.succ_pos m, Nat.succ_le_succ (roleLength?_go_le _ _ hm)⟩
  · cases h

/-- By the rules. -/
theorem within_rules : ∀ r ∈ rules, r.Within := by
  simp only [rules, List.forall_mem_cons]
  refine ⟨?_, Rule.within_exact _ _ _, Rule.within_exact _ _ _, Rule.within_exact _ _ _,
    within_role, Rule.within_exact _ _ _, Rule.within_exact _ _ _, Rule.within_exact _ _ _,
    Rule.within_run _ _, Rule.within_run _ _, Rule.within_run _ _, ?_, nofun⟩
  · intro s n h
    simp only [Option.ite_none_right_eq_some, Bool.and_eq_true, decide_eq_true_eq] at h
    obtain rfl := Option.some.inj h.2
    exact ⟨Nat.zero_lt_two, h.1.2⟩
  · intro s n h
    simp only [Option.ite_none_left_eq_some, List.isEmpty_iff] at h
    obtain rfl := Option.some.inj h.2
    exact ⟨Nat.zero_lt_one, List.length_pos_iff.mpr h.1⟩

/-- What a token takes is there, for the rule that gives it is within
    bounds. -/
theorem tokenAt_within (c : Char) (rest : List Char) :
    0 < (tokenAt c rest).2 ∧ (tokenAt c rest).2 ≤ rest.length + 1 := by
  obtain ⟨r, hr, hfound⟩ := List.exists_of_findSome?_eq_some (tokenAt_first c rest)
  obtain ⟨n, hn, heq⟩ := Option.map_eq_some_iff.mp hfound
  rw [← heq]
  exact within_rules r hr _ n hn

/-- By the length of the text: a token takes a character at least. -/
theorem tokensFrom_ne_nil (position : Nat) (s : List Char) :
    ∀ t ∈ tokensFrom position s, t.text ≠ [] := by
  induction hlength : s.length using Nat.strongRecOn generalizing position s with
  | ind n ih =>
    cases s with
    | nil => simp [tokensFrom]
    | cons c rest =>
      rw [tokensFrom]
      refine List.forall_mem_cons.mpr ⟨by simp, ih _ ?_ _ _ rfl⟩
      rw [← hlength, List.length_drop, List.length_cons]
      omega

/-- Put together, the tokens are the text. -/
theorem flatMap_tokensFrom (position : Nat) (s : List Char) :
    (tokensFrom position s).flatMap Token.text = s := by
  induction hlength : s.length using Nat.strongRecOn generalizing position s with
  | ind n ih =>
    cases s with
    | nil => simp [tokensFrom]
    | cons c rest =>
      rw [tokensFrom, List.flatMap_cons, ih _ ?_ _ _ rfl]
      · exact congrArg (c :: ·) (List.take_append_drop _ rest)
      · rw [← hlength, List.length_drop, List.length_cons]
        omega

/-- A token starts after the characters of those before it. -/
theorem start_tokensFrom (position : Nat) (s : List Char) {k : Nat} {t : Token}
    (h : (tokensFrom position s)[k]? = some t) :
    t.start = position + (((tokensFrom position s).take k).flatMap Token.text).length := by
  induction k generalizing position s with
  | zero =>
    cases s with
    | nil => simp [tokensFrom] at h
    | cons c rest =>
      rw [tokensFrom, List.getElem?_cons_zero, Option.some.injEq] at h
      simp [← h]
  | succ k ih =>
    cases s with
    | nil => simp [tokensFrom] at h
    | cons c rest =>
      rw [tokensFrom] at h ⊢
      generalize tokenAt c rest = found at h ⊢
      rw [ih _ _ h, List.take_succ_cons, List.flatMap_cons, List.length_append, List.length_cons]
      omega

/-- Each token is what the first rule that matches takes where the token
    starts. -/
theorem first?_tokensFrom (position : Nat) (s : List Char) {k : Nat} {t : Token}
    (h : (tokensFrom position s)[k]? = some t) :
    first? rules (s.drop (t.start - position)) = some (t.kind, t.text.length) := by
  induction k generalizing position s with
  | zero =>
    cases s with
    | nil => simp [tokensFrom] at h
    | cons c rest =>
      rw [tokensFrom, List.getElem?_cons_zero, Option.some.injEq] at h
      have hwithin := tokenAt_within c rest
      rw [← h, Nat.sub_self, List.drop_zero, tokenAt_first, List.length_cons, List.length_take_of_le]
      · rw [Nat.sub_add_cancel hwithin.1]
      · omega
  | succ k ih =>
    cases s with
    | nil => simp [tokensFrom] at h
    | cons c rest =>
      rw [tokensFrom, List.getElem?_cons_succ] at h
      generalize (tokenAt c rest).2 - 1 = n at h
      have hstart := start_tokensFrom _ _ h
      have hoffset : t.start - position
          = (c :: rest.take n).length + (t.start - (position + 1 + (rest.take n).length)) := by
        rw [List.length_cons]
        omega
      have hrest : (c :: rest).drop (c :: rest.take n).length = rest.drop n := by
        have hcut : c :: rest = (c :: rest.take n) ++ rest.drop n := by
          rw [List.cons_append, List.take_append_drop]
        exact hcut ▸ List.drop_left
      rw [hoffset, ← List.drop_drop, hrest]
      exact ih _ _ h

/-! ## A text divided into tokens -/

/-- Each token of a text ends where the next one starts, and is not empty. -/
structure Source.Tiled (x : Source) : Prop where
  next : ∀ {k}, k < x.tokens.size → x.stop k = x.start (k + 1)
  nonempty : ∀ {k}, k < x.tokens.size → x.start k < x.stop k

namespace Source

/-- The start of a token is where it was found. -/
theorem start_eq {x : Source} {k : Nat} (h : k < x.tokens.size) : x.start k = x.tokens[k].start := by
  simp [start, h]

/-- Behind the last token there is the end of the text. -/
theorem start_of_size_le {x : Source} {k : Nat} (h : x.tokens.size ≤ k) : x.start k = x.length := by
  simp [start, h]

/-- Only a token is of a kind. -/
theorem lt_size_of_is {x : Source} {k : Nat} {kind : TokenKind} (h : x.is k kind = true) :
    k < x.tokens.size := by
  by_contra hout
  simp [is, Nat.not_lt.mp hout] at h

/-- The tokens of a text tile it. -/
theorem tiled_ofChars (s : List Char) : (ofChars s).Tiled := by
  have hstart : ∀ {k t}, (Inline.tokens s)[k]? = some t →
      t.start = (((Inline.tokens s).take k).flatMap Token.text).length := fun h => by
    simpa [Inline.tokens] using start_tokensFrom 0 s h
  have hstop : ∀ {k t}, (Inline.tokens s)[k]? = some t →
      t.stop = (((Inline.tokens s).take (k + 1)).flatMap Token.text).length := fun {k t} h => by
    rw [Token.stop, hstart h, List.take_add_one, h, List.flatMap_append, List.length_append]
    simp
  constructor
  · intro k hk
    have ht : (Inline.tokens s)[k]? = some (ofChars s).tokens[k] := by simp [ofChars] at hk ⊢
    generalize (ofChars s).tokens[k] = t at ht
    rw [show (ofChars s).stop k = t.stop by simp [stop, ofChars, ht], hstop ht]
    cases hnext : (Inline.tokens s)[k + 1]? with
    | some u =>
      rw [show (ofChars s).start (k + 1) = u.start by simp [start, ofChars, hnext], hstart hnext]
    | none =>
      have hlast : (Inline.tokens s).length ≤ k + 1 := List.getElem?_eq_none_iff.mp hnext
      rw [List.take_of_length_le hlast, Inline.tokens, flatMap_tokensFrom,
        start_of_size_le (by simpa [ofChars] using hlast)]
      simp [length, ofChars]
  · intro k hk
    have ht : (Inline.tokens s)[k]? = some (ofChars s).tokens[k] := by simp [ofChars] at hk ⊢
    have hne := tokensFrom_ne_nil 0 s _ (List.mem_of_getElem? ht)
    have hpos := List.length_pos_iff.mpr hne
    have hstop : (ofChars s).stop k = (ofChars s).tokens[k].stop := by simp [stop, hk]
    rw [start_eq hk, hstop, Token.stop]
    omega

namespace Tiled

variable {x : Source} {j k : Nat}

/-- A token is not empty. -/
theorem start_lt_next (h : x.Tiled) (hk : k < x.tokens.size) : x.start k < x.start (k + 1) :=
  h.next hk ▸ h.nonempty hk

/-- By induction on the later token. -/
theorem start_le (h : x.Tiled) (hjk : j ≤ k) : x.start j ≤ x.start k := by
  induction hjk with
  | refl => exact Nat.le_refl _
  | @step k _ ih =>
    by_cases hk : k < x.tokens.size
    · exact Nat.le_trans ih (Nat.le_of_lt (h.start_lt_next hk))
    · rw [start_of_size_le (Nat.not_lt.mp hk)] at ih
      rwa [start_of_size_le (k := k + 1) (by omega)]

/-- A token starts before any later one. -/
theorem start_lt (h : x.Tiled) (hjk : j < k) (hj : j < x.tokens.size) : x.start j < x.start k :=
  Nat.lt_of_lt_of_le (h.start_lt_next hj) (h.start_le hjk)

/-- No token starts behind the end. -/
theorem start_le_length (h : x.Tiled) (k : Nat) : x.start k ≤ x.length := by
  have hle := h.start_le (Nat.le_max_left k x.tokens.size)
  rwa [start_of_size_le (Nat.le_max_right _ _)] at hle

/-- Nor does one stop there. -/
theorem stop_le_length (h : x.Tiled) (hk : k < x.tokens.size) : x.stop k ≤ x.length :=
  h.next hk ▸ h.start_le_length _

/-- A token that starts before a position comes before the tokens from
    there on. -/
theorem lt_tokenFrom (h : x.Tiled) {position : Nat} (hk : k < x.tokens.size)
    (hbefore : x.start k < position) : k < x.tokenFrom position := by
  rw [tokenFrom]
  cases hfound : x.tokens.findIdx? (position ≤ ·.start) with
  | none => exact hk
  | some j =>
    obtain ⟨hj, hfrom, -⟩ := Array.findIdx?_eq_some_iff_getElem.mp hfound
    rw [Option.getD_some]
    by_contra hle
    have := h.start_le (Nat.not_lt.mp hle)
    rw [start_eq hj] at this
    have := of_decide_eq_true hfrom
    omega

end Tiled

end Source

/-! ## Addresses -/

/-- An address is not empty and part of the text. -/
theorem uriLength?_le {s : List Char} {n : Nat} (h : uriLength? s = some n) :
    0 < n ∧ n ≤ s.length := by
  obtain ⟨scheme, -, hscheme⟩ := List.exists_of_findSome?_eq_some h
  obtain ⟨rest, hrest, hbody⟩ := Option.bind_eq_some_iff.mp hscheme
  generalize hcut : Text.dropRightWhile trailsUri (rest.takeWhile (!endsUri ·)) = body at hbody
  have hle : body.length ≤ rest.length :=
    hcut ▸ ((Text.dropRightWhile_isStart _ _).trans (List.takeWhile_prefix _)).length_le
  rw [Text.eq_append_of_dropStart? hrest, List.length_append]
  cases body with
  | nil => simp at hbody
  | cons c body =>
    obtain rfl : scheme.length + (body.length + 1) = n := by simpa using hbody
    exact ⟨by omega, Nat.add_le_add_left hle _⟩

/-- Addresses found from a position on, up to the end of the text. -/
structure Addresses (first last : Nat) (addresses : List (Nat × Nat)) : Prop where
  starts : ∀ a ∈ addresses, first ≤ a.1
  nonempty : ∀ a ∈ addresses, a.1 < a.2
  stops : ∀ a ∈ addresses, a.2 ≤ last
  apart : addresses.Pairwise fun a b => a.2 ≤ b.1

/-- No addresses lie anywhere. -/
theorem Addresses.nil (first last : Nat) : Addresses first last [] :=
  ⟨List.forall_mem_nil _, List.forall_mem_nil _, List.forall_mem_nil _, .nil⟩

/-- Addresses from a place on lie behind an earlier one. -/
theorem Addresses.mono {first later last : Nat} {addresses : List (Nat × Nat)} (hle : first ≤ later)
    (h : Addresses later last addresses) : Addresses first last addresses :=
  { h with starts := fun a ha => Nat.le_trans hle (h.starts a ha) }

/-- The address of a text with the ones after it. -/
theorem Addresses.cons {first stop last : Nat} {addresses : List (Nat × Nat)}
    (hnonempty : first < stop) (hlast : stop ≤ last) (h : Addresses stop last addresses) :
    Addresses first last ((first, stop) :: addresses) where
  starts := List.forall_mem_cons.mpr ⟨Nat.le_refl _, (h.mono (Nat.le_of_lt hnonempty)).starts⟩
  nonempty := List.forall_mem_cons.mpr ⟨hnonempty, h.nonempty⟩
  stops := List.forall_mem_cons.mpr ⟨hlast, h.stops⟩
  apart := List.pairwise_cons.mpr ⟨h.starts, h.apart⟩

/-- The first characters, which are those of an address, are passed. -/
theorem addresses_urisFrom (position skip : Nat) (s : List Char) (hskip : skip ≤ s.length) :
    Addresses (position + skip) (position + s.length) (urisFrom position skip s) := by
  induction s generalizing position skip with
  | nil => exact .nil _ _
  | cons c rest ih =>
    rw [List.length_cons] at hskip ⊢
    rw [show position + (rest.length + 1) = position + 1 + rest.length by omega]
    cases skip with
    | succ k =>
      rw [show position + (k + 1) = position + 1 + k by omega]
      exact ih (position + 1) k (by omega)
    | zero =>
      simp only [urisFrom]
      split
      · rename_i n hn
        obtain ⟨hpos, hle⟩ := uriLength?_le hn
        rw [List.length_cons] at hle
        have hrest := ih (position + 1) (n - 1) (by omega)
        rw [show position + 1 + (n - 1) = position + n by omega] at hrest
        exact .cons (by omega) (by omega) hrest
      · exact (ih (position + 1) 0 (by omega)).mono (by omega)

/-- The addresses of a text lie within it, one after the other. -/
theorem addresses_uris (s : List Char) : Addresses 0 s.length (uris s) := by
  simpa [uris] using addresses_urisFrom 0 0 s (Nat.zero_le _)

/-- Of two addresses one follows the other. -/
theorem Addresses.disjoint {first last : Nat} {addresses : List (Nat × Nat)}
    (h : Addresses first last addresses) {a b : Nat × Nat} (ha : a ∈ addresses)
    (hb : b ∈ addresses) (hne : a ≠ b) : a.2 ≤ b.1 ∨ b.2 ≤ a.1 := by
  have heither : addresses.Pairwise fun a b => a.2 ≤ b.1 ∨ b.2 ≤ a.1 := h.apart.imp Or.inl
  have : Std.Symm fun a b : Nat × Nat => a.2 ≤ b.1 ∨ b.2 ≤ a.1 := ⟨fun _ _ => Or.symm⟩
  exact heither.forall ha hb hne

end MarkupLint.Inline
