import Mathlib.Data.List.Chain
import MarkupLint.Parse.Inline
import MarkupLint.Proofs.Tiling

/-! # Spans of inline markup

    Reading inline markup goes through the tokens of a text and keeps a
    cursor, before which everything is dealt with.  It gives pieces, and the
    text that lies between them is put out as it is.  Each turn goes on with
    a later token, so it comes to an end; each piece stops beyond the
    cursor, which it moves there; and every character is part of a piece or
    of the text between pieces.

    Pieces of markup start at or after the cursor, so they keep apart.  An
    address starts where it starts: it is found when a token at or after the
    cursor lies within it, and markup may have ended within it before.  Then
    the characters that they share are put out twice. -/

namespace MarkupLint.Inline

/-! ## What pieces hold -/

/-- A text is cut out of a span. -/
def Scan.Cuts (x : Scan) (start stop : Nat) (text : List Char) : Prop :=
  ∃ first last, start ≤ first ∧ first ≤ last ∧ last ≤ stop ∧ text = x.slice first last

/-- What a form holds is cut out of a span. -/
def Form.Within (x : Scan) (start stop : Nat) : Form → Prop
  | .uri | .problem _ _ => True
  | .literal text | .interpreted _ text | .phrase text _ | .reference text _ =>
    x.Cuts start stop text
  | .emphasis text | .strong text | .substitution text _ | .target text =>
    ∃ raw, x.Cuts start stop raw ∧ text = unescape raw

/-- A piece of markup from the token at an index on. -/
structure Source.Marks (x : Source) (k : Nat) (p : Piece) : Prop where
  start : p.start = x.start k
  nonempty : p.start < p.stop
  stop : p.stop ≤ x.length
  form : p.form ≠ .uri
  within : p.form.Within x.scan p.start p.stop

/-- A turn at the token at an index goes on with a later token. -/
structure Source.Leads (x : Source) (k : Nat) (found : Source.Found) : Prop where
  next : k < found.2
  piece : ∀ p ∈ found.1, x.Marks k p

namespace Source

variable {x : Source} {k : Nat}

theorem leads_none {next : Nat} (h : k < next) : x.Leads k (none, next) :=
  ⟨h, fun _ hp => by cases hp⟩

theorem Marks.leads {p : Piece} {next : Nat} (h : x.Marks k p) (hnext : k < next) :
    x.Leads k (some p, next) :=
  ⟨hnext, fun _ hp => Option.mem_some.mp hp ▸ h⟩

theorem exists_of_search {α : Type} {f : Nat → Option α} {a : α} (h : x.search k f = some a) :
    ∃ j, k ≤ j ∧ j < x.tokens.size ∧ f j = some a := by
  obtain ⟨j, hj, hfound⟩ := List.exists_of_findSome?_eq_some h
  rw [List.mem_range'_1] at hj
  exact ⟨j, hj.1, by omega, hfound⟩

theorem of_findEnd {kind : TokenKind} {j : Nat} (h : x.findEnd k kind = some j) :
    k + 2 ≤ j ∧ j < x.tokens.size := by
  obtain ⟨i, hle, hlt, hi⟩ := exists_of_search h
  split at hi
  · obtain rfl : i = j := by simpa using hi
    exact ⟨hle, hlt⟩
  · cases hi

theorem lt_size_of_mark? {m : Mark} (h : x.mark? k = some m) : k < x.tokens.size := by
  unfold mark? at h
  split at h
  · exact lt_size_of_is ‹_›
  · cases h

theorem Leads.ite {c : Prop} [Decidable c] {a b : Found} (ha : c → x.Leads k a)
    (hb : ¬c → x.Leads k b) : x.Leads k (if c then a else b) := by
  split
  · exact ha ‹_›
  · exact hb ‹_›

theorem le_lastWord (x : Source) (count k : Nat) : k ≤ x.lastWord count k := by
  induction count generalizing k with
  | zero => exact Nat.le_refl k
  | succ count ih =>
    exact iteInduction (motive := (k ≤ ·)) (fun _ => Nat.le_trans (Nat.le_add_right k 2) (ih _))
      fun _ => Nat.le_refl k

section Tiled

variable (hx : x.Tiled)

include hx

/-- A start-string without its end-string, which ends with a token. -/
theorem leads_unclosed (what : String) {j : Nat} (hkj : k ≤ j) (hj : j < x.tokens.size) :
    x.Leads k (some (unclosed (x.start k) (x.stop j) what), j + 1) := by
  refine Marks.leads ⟨rfl, ?_, hx.stop_le_length hj, by simp [unclosed], trivial⟩ (by omega)
  exact Nat.lt_of_le_of_lt (hx.start_le hkj) (hx.nonempty hj)

/-- What comes right after a backquote ends within the text. -/
theorem trailer_spec {j : Nat} (hj : j < x.tokens.size) :
    let next := (x.trailer j).2.2
    let stop := if j + 1 < next then x.stop (next - 1) else x.start j + 1
    j < next ∧ x.start j < stop ∧ stop ≤ x.length := by
  have hnext : (x.trailer j).2.2 = j + 1 ∨ (x.trailer j).2.2 = j + 2 ∧ j + 1 < x.tokens.size := by
    unfold trailer
    split
    · exact .inr ⟨rfl, lt_size_of_is ‹_›⟩
    · cases hmark : x.mark? (j + 1) with
      | none => exact .inl rfl
      | some m => exact .inr ⟨rfl, lt_size_of_mark? hmark⟩
  dsimp only
  rcases hnext with hnext | ⟨hnext, hafter⟩
  · rw [hnext, if_neg (Nat.lt_irrefl _)]
    have hlt := hx.nonempty hj
    have hle := hx.stop_le_length hj
    omega
  · rw [hnext, if_pos (by omega)]
    refine ⟨by omega, ?_, hx.stop_le_length hafter⟩
    exact Nat.lt_trans (hx.start_lt (Nat.lt_succ_self j) hj) (hx.nonempty hafter)

variable (hk : k < x.tokens.size)

include hk

theorem leads_enclosed (kind : TokenKind) (what : String) {form : List Char → Form}
    (hform : ∀ start stop text, x.scan.Cuts start stop text →
      (form text).Within x.scan start stop) (hmarkup : ∀ text, form text ≠ .uri) :
    x.Leads k (x.enclosed k kind what form) := by
  unfold enclosed
  refine .ite (fun _ => leads_none (Nat.lt_succ_self k)) fun _ => ?_
  cases hend : x.findEnd k kind with
  | none => exact leads_unclosed hx what (Nat.le_refl k) hk
  | some j =>
    obtain ⟨hkj, hj⟩ := of_findEnd hend
    have hinner : x.stop k ≤ x.start j := hx.next hk ▸ hx.start_le (by omega)
    refine Marks.leads ⟨rfl, ?_, hx.stop_le_length hj, hmarkup _, ?_⟩ (by omega)
    · exact Nat.lt_trans (hx.start_lt (by omega) hk) (hx.nonempty hj)
    · exact hform _ _ _ ⟨_, _, Nat.le_of_lt (hx.nonempty hk), hinner,
        Nat.le_of_lt (hx.nonempty hj), rfl⟩

omit hk in
theorem leads_interpreted {quote : Nat} (hkq : k ≤ quote) (hquote : quote < x.tokens.size) :
    x.Leads k (x.interpreted k quote) := by
  unfold interpreted
  refine .ite (fun _ => leads_none (Nat.lt_succ_self k)) fun _ => ?_
  dsimp only
  split
  · rename_i piece next hclosing
    obtain ⟨j, hqj, hj, hfound⟩ := exists_of_search hclosing
    have hstart : x.start k ≤ x.stop quote :=
      Nat.le_trans (hx.start_le hkq) (Nat.le_of_lt (hx.nonempty hquote))
    have hinner : x.stop quote ≤ x.start j := hx.next hquote ▸ hx.start_le (by omega)
    obtain ⟨hnext, hstop, hlength⟩ := trailer_spec hx hj
    generalize x.trailer j = found at hfound hnext hstop hlength
    obtain ⟨trail, mark, after⟩ := found
    obtain ⟨-, hfound⟩ := Option.ite_none_left_eq_some.mp hfound
    obtain ⟨-, hfound⟩ := Option.ite_none_left_eq_some.mp hfound
    obtain ⟨rfl, rfl⟩ := Prod.mk.inj (Option.some.inj hfound)
    have hcut : x.scan.Cuts (x.start k) (if j + 1 < after then x.stop (after - 1) else x.start j + 1)
        (x.scan.slice (x.stop quote) (x.start j)) :=
      ⟨_, _, hstart, hinner, Nat.le_of_lt hstop, rfl⟩
    refine Marks.leads ⟨rfl, ?_, hlength, ?_, ?_⟩ (Nat.lt_of_le_of_lt (by omega) hnext)
    · exact Nat.lt_of_le_of_lt (Nat.le_trans hstart hinner) hstop
    · cases mark <;> exact iteInduction (motive := (· ≠ Form.uri)) (fun _ h => by cases h)
        fun _ h => by cases h
    · cases mark with
      | none => exact iteInduction (motive := Form.Within _ _ _) (fun _ => trivial) fun _ => hcut
      | some m => exact iteInduction (motive := Form.Within _ _ _) (fun _ => hcut) fun _ => trivial
  · exact leads_unclosed hx _ hkq hquote

theorem leads_substitution : x.Leads k (x.substitution k) := by
  unfold substitution
  refine .ite (fun _ => leads_none (Nat.lt_succ_self k)) fun _ => ?_
  dsimp only
  split
  · rename_i piece next hclosing
    obtain ⟨j, hkj, hj, hfound⟩ := exists_of_search hclosing
    obtain ⟨-, hfound⟩ := Option.ite_none_left_eq_some.mp hfound
    obtain ⟨-, hfound⟩ := Option.ite_none_left_eq_some.mp hfound
    obtain ⟨rfl, rfl⟩ := Prod.mk.inj (Option.some.inj hfound)
    have hinner : x.stop k ≤ x.start j := hx.next hk ▸ hx.start_le (by omega)
    have hstop : x.start j < (if (x.mark? (j + 1)).isSome then x.stop (j + 1) else x.start j + 1) ∧
        (if (x.mark? (j + 1)).isSome then x.stop (j + 1) else x.start j + 1) ≤ x.length := by
      cases hmark : x.mark? (j + 1) with
      | none =>
        have hlt := hx.nonempty hj
        have hle := hx.stop_le_length hj
        exact ⟨Nat.lt_succ_self _, by rw [if_neg (by simp)]; omega⟩
      | some m =>
        have hafter := lt_size_of_mark? hmark
        exact ⟨Nat.lt_trans (hx.start_lt (Nat.lt_succ_self j) hj) (hx.nonempty hafter),
          hx.stop_le_length hafter⟩
    refine Marks.leads ⟨rfl, ?_, hstop.2, by simp, _, ⟨_, _, ?_, hinner, ?_, rfl⟩, rfl⟩ ?_
    · exact Nat.lt_of_le_of_lt (hx.start_le (by omega)) hstop.1
    · exact Nat.le_of_lt (hx.nonempty hk)
    · exact Nat.le_of_lt hstop.1
    · split <;> omega
  · exact leads_unclosed hx _ (Nat.le_refl k) hk

theorem leads_simpleReference : x.Leads k (x.simpleReference k) := by
  unfold simpleReference
  refine .ite (fun _ => leads_none (Nat.lt_succ_self k)) fun _ => ?_
  have hlast := x.le_lastWord x.tokens.size k
  generalize x.lastWord x.tokens.size k = j at hlast
  dsimp only
  cases hmark : x.mark? (j + 1) with
  | none => exact leads_none (by omega)
  | some m =>
    have hafter := lt_size_of_mark? hmark
    have hstart := hx.start_lt (show k < j + 1 by omega) hk
    have hstop := hx.nonempty hafter
    refine .ite (fun _ => Marks.leads ⟨rfl, Nat.lt_trans hstart hstop, hx.stop_le_length hafter,
      by simp, ?_⟩ (by omega)) fun _ => leads_none (by omega)
    exact ⟨_, _, Nat.le_refl _, Nat.le_of_lt hstart, Nat.le_of_lt hstop, rfl⟩

/-- Whatever token markup may start with, reading it goes on with a later
    token, and a piece is cut out of the text from that token on. -/
theorem leads_dispatch : x.Leads k (x.dispatch k x.tokens[k]) := by
  unfold dispatch
  split
  · exact leads_enclosed hx hk _ _ (fun _ _ _ h => h) (by simp)
  · exact leads_enclosed hx hk _ _ (fun _ _ text h => ⟨text, h, rfl⟩) (by simp)
  · exact leads_enclosed hx hk _ _ (fun _ _ text h => ⟨text, h, rfl⟩) (by simp)
  · split
    · exact leads_interpreted hx (Nat.le_succ k) (lt_size_of_is ‹_›)
    · exact leads_none (Nat.lt_succ_self k)
  · exact leads_interpreted hx (Nat.le_refl k) hk
  · exact leads_enclosed hx hk _ _ (fun _ _ text h => ⟨text, h, rfl⟩) (by simp)
  · exact leads_substitution hx hk
  · exact leads_simpleReference hx hk
  · exact leads_none (Nat.lt_succ_self k)

end Tiled

/-! ## The loop -/

/-- Going through the tokens of a text from an index on, with everything
    before a position dealt with, and the pieces that this gives: a token
    before that position is passed; a token within an address gives the
    address; any other token gives the markup that starts there, if any. -/
inductive Loop (x : Source) (addresses : List (Nat × Nat)) : Nat → Nat → List Piece → Prop
  | done {k flushed} (hend : x.tokens.size ≤ k) : Loop x addresses k flushed []
  | passed {k flushed pieces} (hk : k < x.tokens.size) (hbefore : x.tokens[k].start < flushed)
      (rest : Loop x addresses (k + 1) flushed pieces) : Loop x addresses k flushed pieces
  | address {k flushed start stop pieces} (hk : k < x.tokens.size)
      (hfrom : flushed ≤ x.tokens[k].start)
      (hfound : (addresses.find? fun a => a.1 ≤ x.tokens[k].start ∧ x.tokens[k].start < a.2) =
        some (start, stop))
      (rest : Loop x addresses (x.tokenFrom stop) stop pieces) :
      Loop x addresses k flushed (⟨start, stop, .uri⟩ :: pieces)
  | markup {k flushed piece next pieces} (hk : k < x.tokens.size)
      (hfrom : flushed ≤ x.tokens[k].start)
      (hnone : (addresses.find? fun a => a.1 ≤ x.tokens[k].start ∧ x.tokens[k].start < a.2) = none)
      (hfound : x.dispatch k x.tokens[k] = (some piece, next))
      (rest : Loop x addresses next piece.stop pieces) : Loop x addresses k flushed (piece :: pieces)
  | plain {k flushed next pieces} (hk : k < x.tokens.size) (hfrom : flushed ≤ x.tokens[k].start)
      (hnone : (addresses.find? fun a => a.1 ≤ x.tokens[k].start ∧ x.tokens[k].start < a.2) = none)
      (hfound : x.dispatch k x.tokens[k] = (none, next))
      (rest : Loop x addresses next flushed pieces) : Loop x addresses k flushed pieces

/-- A piece of a text with some addresses. -/
structure Holds (x : Source) (addresses : List (Nat × Nat)) (p : Piece) : Prop where
  nonempty : p.start < p.stop
  stop : p.stop ≤ x.length
  within : p.form.Within x.scan p.start p.stop
  address : p.form = .uri → (p.start, p.stop) ∈ addresses
  outside : p.form ≠ .uri → ∀ a ∈ addresses, ¬(a.1 ≤ p.start ∧ p.start < a.2)

variable {addresses : List (Nat × Nat)} {flushed : Nat} {pieces : List Piece}

/-- The loop comes to an end: no turn has to be made to go on. -/
theorem loop_piecesFrom (hx : x.Tiled) (addresses : List (Nat × Nat)) (k flushed : Nat) :
    x.Loop addresses k flushed (x.piecesFrom addresses k flushed) := by
  fun_induction piecesFrom x addresses k flushed with
  | case1 k flushed hk t hbefore ih => exact .passed hk hbefore ih
  | case2 k flushed hk t hfrom start stop hfound ih =>
    have hwithin := List.find?_some hfound
    have hnext : k < x.tokenFrom stop :=
      hx.lt_tokenFrom hk (start_eq hk ▸ (of_decide_eq_true hwithin).2)
    rw [Nat.max_eq_right hnext] at ih ⊢
    exact .address hk (Nat.not_lt.mp hfrom) hfound ih
  | case3 k flushed hk t hfrom hnone piece next hfound ih =>
    have hnext : k < next := by simpa [t, hfound] using (leads_dispatch hx hk).next
    rw [Nat.max_eq_right hnext] at ih ⊢
    exact .markup hk (Nat.not_lt.mp hfrom) hnone hfound ih
  | case4 k flushed hk t hfrom hnone next hfound ih =>
    have hnext : k < next := by simpa [t, hfound] using (leads_dispatch hx hk).next
    rw [Nat.max_eq_right hnext] at ih ⊢
    exact .plain hk (Nat.not_lt.mp hfrom) hnone hfound ih
  | case5 k flushed hk => exact .done (Nat.not_lt.mp hk)

namespace Loop

/-- What the loop gives is cut out of the text. -/
theorem holds (hx : x.Tiled) (haddresses : Addresses 0 x.length addresses)
    (h : x.Loop addresses k flushed pieces) : ∀ p ∈ pieces, x.Holds addresses p := by
  induction h with
  | done => exact List.forall_mem_nil _
  | passed _ _ _ ih => exact ih
  | address hk hfrom hfound _ ih =>
    have hmem := List.mem_of_find?_eq_some hfound
    refine List.forall_mem_cons.mpr ⟨?_, ih⟩
    exact ⟨haddresses.nonempty _ hmem, haddresses.stops _ hmem, trivial, fun _ => hmem, absurd rfl⟩
  | @markup k flushed p next pieces hk hfrom hnone hfound _ ih =>
    have hmarks : x.Marks k p := (leads_dispatch hx hk).piece p (by rw [hfound]; rfl)
    refine List.forall_mem_cons.mpr ⟨?_, ih⟩
    refine ⟨hmarks.nonempty, hmarks.stop, hmarks.within, (absurd · hmarks.form), fun _ a ha => ?_⟩
    have hout := List.find?_eq_none.mp hnone a ha
    rwa [decide_eq_true_iff, ← start_eq hk, ← hmarks.start] at hout
  | plain _ _ _ _ _ ih => exact ih

/-- The first piece stops beyond the cursor, and it starts there or later
    unless it is an address. -/
theorem head (hx : x.Tiled) (h : x.Loop addresses k flushed pieces) :
    ∀ p ∈ pieces.head?, flushed < p.stop ∧ (flushed ≤ p.start ∨ p.form = .uri) := by
  induction h with
  | done => exact fun _ hp => by cases hp
  | passed _ _ _ ih => exact ih
  | address hk hfrom hfound _ _ =>
    rintro _ ⟨rfl⟩
    have hwithin := List.find?_some hfound
    exact ⟨Nat.lt_of_le_of_lt hfrom (of_decide_eq_true hwithin).2, .inr rfl⟩
  | markup hk hfrom _ hfound _ _ =>
    rintro _ ⟨rfl⟩
    have hmarks := (leads_dispatch hx hk).piece _ (by rw [hfound]; rfl)
    rw [← start_eq hk, ← hmarks.start] at hfrom
    exact ⟨Nat.lt_of_le_of_lt hfrom hmarks.nonempty, .inl hfrom⟩
  | plain _ _ _ _ _ ih => exact ih

/-- Each piece stops beyond the one before, and it starts where that one
    stops or later unless it is an address. -/
theorem follows (hx : x.Tiled) (h : x.Loop addresses k flushed pieces) :
    pieces.IsChain fun p q => p.stop < q.stop ∧ (p.stop ≤ q.start ∨ q.form = .uri) := by
  induction h with
  | done => exact .nil
  | passed _ _ _ ih => exact ih
  | address _ _ _ rest ih => exact List.isChain_cons.mpr ⟨rest.head hx, ih⟩
  | markup _ _ _ _ rest ih => exact List.isChain_cons.mpr ⟨rest.head hx, ih⟩
  | plain _ _ _ _ _ ih => exact ih

end Loop

end Source

/-! ## Segments -/

/-- A part of a text that is put out: a piece, or text between pieces. -/
structure Segment where
  start : Nat
  stop : Nat
  /-- What the piece is; nothing for text. -/
  form : Option Form
  deriving DecidableEq

namespace Segment

/-- A standalone address. -/
def IsAddress (g : Segment) : Prop := g.form = some .uri

/-- A piece of markup. -/
def IsMarkup (g : Segment) : Prop := ∃ f, g.form = some f ∧ f ≠ .uri

/-- The segment starts before another one and stops before it.  They share
    characters only if markup ends within an address. -/
structure Before (g h : Segment) : Prop where
  start : g.start < h.start
  stop : g.stop < h.stop
  apart : g.stop ≤ h.start ∨ g.IsMarkup ∧ h.IsAddress

theorem Before.trans {g h i : Segment} (hgh : g.Before h) (hhi : h.Before i) : g.Before i where
  start := Nat.lt_trans hgh.start hhi.start
  stop := Nat.lt_trans hgh.stop hhi.stop
  apart := by
    rcases hhi.apart with hapart | ⟨⟨f, hform, hmarkup⟩, -⟩
    · exact .inl (Nat.le_trans (Nat.le_of_lt hgh.stop) hapart)
    · -- The one between is markup, which does not overlap with what comes before it.
      rcases hgh.apart with hapart | ⟨-, haddress⟩
      · exact .inl (Nat.le_trans hapart (Nat.le_of_lt hhi.start))
      · rw [IsAddress, hform, Option.some.injEq] at haddress
        exact absurd haddress hmarkup

instance : Trans Before Before Before := ⟨Before.trans⟩

end Segment

/-- The part of a text that a piece is. -/
def Piece.segment (p : Piece) : Segment := ⟨p.start, p.stop, some p.form⟩

/-- The text from one position to another, if there is any. -/
def stretch (start stop : Nat) : List Segment := if start < stop then [⟨start, stop, none⟩] else []

/-- The parts of a text from a position on: pieces and the text between
    them. -/
def segmentsFrom (length : Nat) : Nat → List Piece → List Segment
  | flushed, [] => stretch flushed length
  | flushed, p :: rest => stretch flushed p.start ++ p.segment :: segmentsFrom length p.stop rest

/-- The parts of a text that are put out, in order. -/
def segments (s : List Char) : List Segment := segmentsFrom s.length 0 (pieces s)

variable {x : Source} {addresses : List (Nat × Nat)} {length flushed : Nat} {pieces : List Piece}

theorem exists_mem_stretch {start stop i : Nat} (hstart : start ≤ i) (hstop : i < stop) :
    ∃ g ∈ stretch start stop, g.start ≤ i ∧ i < g.stop := by
  rw [stretch, if_pos (Nat.lt_of_le_of_lt hstart hstop)]
  exact ⟨_, List.mem_singleton_self _, hstart, hstop⟩

/-- Every position is part of a segment. -/
theorem exists_mem_segmentsFrom {i : Nat} (hflushed : flushed ≤ i) (hlength : i < length) :
    ∃ g ∈ segmentsFrom length flushed pieces, g.start ≤ i ∧ i < g.stop := by
  induction pieces generalizing flushed with
  | nil => exact exists_mem_stretch hflushed hlength
  | cons p rest ih =>
    by_cases hstart : i < p.start
    · obtain ⟨g, hg, hspan⟩ := exists_mem_stretch hflushed hstart
      exact ⟨g, List.mem_append_left _ hg, hspan⟩
    by_cases hstop : i < p.stop
    · exact ⟨p.segment, by simp [segmentsFrom], Nat.not_lt.mp hstart, hstop⟩
    · obtain ⟨g, hg, hspan⟩ := ih (Nat.not_lt.mp hstop)
      exact ⟨g, List.mem_append_right _ (List.mem_cons_of_mem _ hg), hspan⟩

theorem span_of_mem_stretch {start stop : Nat} {g : Segment} (hstop : stop ≤ length)
    (h : g ∈ stretch start stop) : g.start < g.stop ∧ g.stop ≤ length := by
  rw [stretch] at h
  split at h
  · rw [List.mem_singleton.mp h]
    exact ⟨‹_›, hstop⟩
  · cases h

/-- Segments are not empty and lie within the text. -/
theorem span_of_mem_segmentsFrom (h : ∀ p ∈ pieces, p.start < p.stop ∧ p.stop ≤ length) :
    ∀ g ∈ segmentsFrom length flushed pieces, g.start < g.stop ∧ g.stop ≤ length := by
  induction pieces generalizing flushed with
  | nil => exact fun g hg => span_of_mem_stretch (Nat.le_refl length) hg
  | cons p rest ih =>
    obtain ⟨hp, hrest⟩ := List.forall_mem_cons.mp h
    refine List.forall_mem_append.mpr ⟨fun g hg => ?_, List.forall_mem_cons.mpr ⟨hp, ih hrest⟩⟩
    exact span_of_mem_stretch (Nat.le_trans (Nat.le_of_lt hp.1) hp.2) hg

/-- Text up to a segment comes before it. -/
theorem isChain_stretch {g : Segment} {rest : List Segment} (hg : g.start < g.stop)
    (h : (g :: rest).IsChain Segment.Before) :
    (stretch flushed g.start ++ g :: rest).IsChain Segment.Before := by
  rw [stretch]
  split
  · exact List.isChain_cons_cons.mpr ⟨⟨‹_›, hg, .inl (Nat.le_refl _)⟩, h⟩
  · exact h

/-- Text from a segment on comes after it. -/
theorem isChain_cons_stretch {g h : Segment} {rest : List Segment} (hg : g.start < g.stop)
    (hh : h.start < h.stop) (hbefore : g.Before h) (hrest : (h :: rest).IsChain Segment.Before) :
    (g :: (stretch g.stop h.start ++ h :: rest)).IsChain Segment.Before := by
  rw [stretch]
  split
  · refine List.isChain_cons_cons.mpr ⟨⟨hg, ‹_›, .inl (Nat.le_refl _)⟩, ?_⟩
    exact List.isChain_cons_cons.mpr ⟨⟨‹_›, hh, .inl (Nat.le_refl _)⟩, hrest⟩
  · exact List.isChain_cons_cons.mpr ⟨hbefore, hrest⟩

/-- By induction on the pieces: the text between two of them keeps the
    order. -/
theorem isChain_segmentsFrom {p : Piece}
    (hspans : ∀ q ∈ p :: pieces, q.start < q.stop)
    (h : (p :: pieces).IsChain fun p q => p.segment.Before q.segment) :
    (p.segment :: segmentsFrom length p.stop pieces).IsChain Segment.Before := by
  induction pieces generalizing p with
  | nil =>
    rw [segmentsFrom, stretch]
    split
    · refine List.isChain_cons_cons.mpr ⟨⟨?_, ‹_›, .inl (Nat.le_refl _)⟩, .singleton _⟩
      exact hspans p List.mem_cons_self
    · exact .singleton _
  | cons q rest ih =>
    obtain ⟨hp, hrest⟩ := List.forall_mem_cons.mp hspans
    obtain ⟨hpq, hchain⟩ := List.isChain_cons_cons.mp h
    exact isChain_cons_stretch hp (hrest q List.mem_cons_self) hpq (ih hrest hchain)

/-- An address that shares characters with the piece before it starts within
    that piece, which is markup. -/
theorem before_of_holds {p q : Piece} (haddresses : Addresses 0 x.length addresses)
    (hp : x.Holds addresses p) (hq : x.Holds addresses q) (hstop : p.stop < q.stop)
    (h : p.stop ≤ q.start ∨ q.form = .uri) : p.segment.Before q.segment := by
  by_cases hapart : p.stop ≤ q.start
  · exact ⟨Nat.lt_of_lt_of_le hp.nonempty hapart, hstop, .inl hapart⟩
  have haddress : q.form = .uri := h.resolve_left hapart
  have hmem := hq.address haddress
  have hstart := hp.nonempty
  have hmarkup : p.form ≠ .uri := by
    intro hform
    have hne : (p.start, p.stop) ≠ (q.start, q.stop) := fun heq =>
      Nat.ne_of_lt hstop (Prod.mk.inj heq).2
    rcases haddresses.disjoint (hp.address hform) hmem hne with hle | hle
    · exact hapart hle
    · simp only at hle
      omega
  have hout := hp.outside hmarkup _ hmem
  refine ⟨?_, hstop, .inr ⟨⟨_, rfl, hmarkup⟩, congrArg some haddress⟩⟩
  simp only [Piece.segment]
  simp only at hout
  omega

theorem loop_pieces (s : List Char) :
    (Source.ofChars s).Loop (uris s) 0 0 (Inline.pieces s) :=
  Source.loop_piecesFrom (Source.tiled_ofChars s) _ _ _

theorem holds_of_mem_pieces (s : List Char) :
    ∀ p ∈ Inline.pieces s, (Source.ofChars s).Holds (uris s) p :=
  (loop_pieces s).holds (Source.tiled_ofChars s) (addresses_uris s)

/-- **Inline markup is put out in order.**  Of any two segments of a text,
    the later one starts and stops further on.  They keep apart, but for
    markup that ends within an address and that address. -/
theorem segments_in_order (s : List Char) : (segments s).Pairwise Segment.Before := by
  have hholds := holds_of_mem_pieces s
  have hchain : (Inline.pieces s).IsChain fun p q => p.segment.Before q.segment :=
    ((loop_pieces s).follows (Source.tiled_ofChars s)).imp_of_mem_imp fun p q hp hq h =>
      before_of_holds (x := .ofChars s) (addresses_uris s) (hholds p hp) (hholds q hq) h.1 h.2
  refine List.isChain_iff_pairwise.mp ?_
  rw [segments]
  generalize Inline.pieces s = pieces at hholds hchain
  cases pieces with
  | nil =>
    rw [segmentsFrom, stretch]
    split
    · exact .singleton _
    · exact .nil
  | cons p rest =>
    have hspans : ∀ q ∈ p :: rest, q.start < q.stop := fun q hq => (hholds q hq).nonempty
    exact isChain_stretch (hspans p List.mem_cons_self) (isChain_segmentsFrom hspans hchain)

/-- Emphasis that ends within an address: the address is put out as a whole,
    with the characters that the emphasis holds. -/
theorem address_repeats_markup : ¬∀ s, (segments s).Pairwise fun g h => g.stop ≤ h.start := by
  intro h
  have hspans := h "*x http://a*.b".toList
  revert hspans
  decide +kernel

end MarkupLint.Inline

namespace MarkupLint.Parse

open Inline

/-! ## What is put out -/

theorem build_map {α β : Type} (f : α → β) (x : Build α) :
    Parse.build (f <$> x) = f <$> Parse.build x := by
  funext s
  show Parse.build (EStateM.map f x) s = EStateM.map f (Parse.build x) s
  simp only [Parse.build, EStateM.map]
  cases x s.doc <;> rfl

/-- What several runs of inline markup give together. -/
def joined (parts : List Inlined) : Inlined :=
  ⟨parts.flatMap (·.nodes), parts.flatMap (·.messages), parts.foldr (·.text ++ ·) ""⟩

namespace InlineSite

/-- A leaf for text. -/
def plain (scan : Scan) (start stop : Nat) : Parse Inlined :=
  (fun i => ⟨[i], [], String.ofList (unescape (scan.slice start stop))⟩) <$>
    Parse.build (Build.leaf (String.ofList (unescape (scan.slice start stop))))

/-- The nodes of a segment and its messages: a leaf for text, and what a
    piece stands for. -/
def segment (x : InlineSite) (scan : Scan) (g : Segment) : Parse Inlined :=
  match g.form with
  | none => plain scan g.start g.stop
  | some form => do
    let made ← x.piece scan ⟨g.start, g.stop, form⟩
    x.place made.nodes
    return made

theorem gap_eq (scan : Scan) (start stop : Nat) :
    Parse.build (gap scan start stop) =
      if start < stop then plain scan start stop else pure {} := by
  rw [gap]
  split
  · rw [plain, ← build_map]
    simp
  · rfl

/-- Building the nodes of some pieces is building those of the segments, one
    after the other. -/
theorem assemble_eq (x : InlineSite) (scan : Scan) (flushed : Nat) (pieces : List Piece) :
    x.assemble scan flushed pieces =
      joined <$> (segmentsFrom scan.chars.size flushed pieces).mapM (x.segment scan) := by
  induction pieces generalizing flushed with
  | nil =>
    show Parse.build (gap scan flushed scan.chars.size) = _
    rw [gap_eq, segmentsFrom, stretch]
    split
    · simp [segment, joined, plain]
    · simp [joined]
  | cons p rest ih =>
    show (Parse.build (gap scan flushed p.start) >>= _) = _
    rw [gap_eq, segmentsFrom, stretch]
    split
    · simp [ih, segment, Piece.segment, joined, plain, String.append_assoc]
    · simp [ih, segment, Piece.segment, joined]

end InlineSite

/-- Inline markup is read segment by segment. -/
theorem inlineParse_eq (site : Site) (text : List Char) (line : Nat) :
    inlineParse site text line =
      joined <$> (segments text).mapM (InlineSite.segment ⟨site, line⟩ ⟨text.toArray⟩) := by
  rw [inlineParse, InlineSite.assemble_eq, segments, List.size_toArray]

/-- **Inline parsing loses nothing and comes to an end.**  The tokens of a
    text tile it, each what the first rule that matches takes there; the loop
    over them ends; what the pieces hold is cut out of their spans, which lie
    within the text; the cursor, which is where each segment stops, moves on
    from one to the next; every character is part of a segment; and the
    segments are what is built, one after the other. -/
theorem inlineParse_loses_nothing (text : List Char) :
    let x := Source.ofChars text
    (tokens text).flatMap Token.text = text ∧
      (∀ k t, (tokens text)[k]? = some t →
        t.start = (((tokens text).take k).flatMap Token.text).length ∧
          first? rules (text.drop t.start) = some (t.kind, t.text.length)) ∧
      x.Loop (uris text) 0 0 (pieces text) ∧
      (∀ p ∈ pieces text, p.form.Within x.scan p.start p.stop) ∧
      (∀ g ∈ segments text, g.start < g.stop ∧ g.stop ≤ text.length) ∧
      (segments text).Pairwise (fun g h => g.stop < h.stop) ∧
      (∀ i < text.length, ∃ g ∈ segments text, g.start ≤ i ∧ i < g.stop) ∧
      ∀ site line, inlineParse site text line =
        joined <$> (segments text).mapM (InlineSite.segment ⟨site, line⟩ ⟨text.toArray⟩) := by
  have hholds := holds_of_mem_pieces text
  refine ⟨flatMap_tokensFrom 0 text, ?_, loop_pieces text, fun p hp => (hholds p hp).within, ?_,
    (segments_in_order text).imp Segment.Before.stop, ?_, fun site line => inlineParse_eq site text line⟩
  · intro k t ht
    refine ⟨?_, first?_tokensFrom 0 text ht⟩
    simpa [tokens] using start_tokensFrom 0 text ht
  · exact span_of_mem_segmentsFrom fun p hp => ⟨(hholds p hp).nonempty, (hholds p hp).stop⟩
  · exact fun i hi => exists_mem_segmentsFrom (Nat.zero_le i) hi

end MarkupLint.Parse
