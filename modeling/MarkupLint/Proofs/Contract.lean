import MarkupLint.Parse.State
import MarkupLint.Proofs.Frame
import MarkupLint.Proofs.Growth

/-! # Two runs of one step

    A step is run twice, from states that are alike, and may see different
    worlds.  A `Contract` says what comes of it.  The first run changes its
    state within bounds, and what it gives satisfies a condition, unless it
    stops for a reason it may stop for.  And the runs end in the same way,
    with the same result or for the same reason and in states that are
    alike, unless the first run asked the world for something that the
    second world has differently, or the second run parted from the first by
    stopping where the first one went on.

    Which states are alike, how far a state may change, for which reasons a
    run may stop, when it is spoiled by a difference of the worlds, and how
    runs go together and part is the matter of a `Discipline`.  Steps made
    of steps that keep a contract keep it too. -/

namespace MarkupLint

/-- What two runs of a step are held to. -/
structure Discipline (σ : Type) where
  /-- States that cannot be told apart. -/
  alike : σ → σ → Prop
  /-- States from which a step may start. -/
  ready : σ → Prop
  /-- How far a step may change a state. -/
  grown : σ → σ → Prop
  /-- States in which the worlds are known to differ. -/
  spoiled : σ → Prop
  /-- The reasons for which a run may stop in a state. -/
  stops : σ → Stop → Prop
  /-- From two states, runs that go together come to two others. -/
  keeps : σ → σ → σ → σ → Prop
  /-- From two states, the first run comes to a state, and the second one
      stopped on the way there, for a reason and in a state. -/
  parted : σ → σ → σ → Stop → σ → Prop
  alike_refl : ∀ s, alike s s
  refl : ∀ s, grown s s
  trans : ∀ {s t u}, grown s t → grown t u → grown s u
  ready_grown : ∀ {s t}, ready s → grown s t → ready t
  spoiled_grown : ∀ {s t}, spoiled s → grown s t → spoiled t
  keeps_refl : ∀ s t, keeps s t s t
  keeps_trans : ∀ {s t s' t' s'' t''}, keeps s t s' t' → keeps s' t' s'' t'' → keeps s t s'' t''
  parted_keeps : ∀ {s t s' t' u e r}, keeps s t s' t' → parted s' t' u e r → parted s t u e r
  parted_grown : ∀ {s t u u' e r}, parted s t u e r → grown u u' → parted s t u' e r

variable {σ α β γ : Type}

/-- The runs end in the same way, in states that are related. -/
def Agree (related : σ → σ → Prop) :
    EStateM.Result Stop σ α → EStateM.Result Stop σ α → Prop
  | .ok a s, .ok b t => a = b ∧ related s t
  | .error e s, .error e' t => e = e' ∧ related s t
  | _, _ => False

/-- Runs that agree both give a result or both stop. -/
theorem Agree.cases {related : σ → σ → Prop} {x y : EStateM.Result Stop σ α}
    (h : Agree related x y) :
    (∃ a s t, x = .ok a s ∧ y = .ok a t ∧ related s t) ∨
      ∃ e s t, x = .error e s ∧ y = .error e t ∧ related s t := by
  cases x with
  | ok a s =>
    cases y with
    | ok b t => exact .inl ⟨a, s, t, rfl, by rw [h.1], h.2⟩
    | error e t => exact h.elim
  | error e s =>
    cases y with
    | ok b t => exact h.elim
    | error e' t => exact .inr ⟨e, s, t, rfl, by rw [h.1], h.2⟩

theorem Agree.mono {related related' : σ → σ → Prop} {x y : EStateM.Result Stop σ α}
    (h : Agree related x y) (himp : ∀ s t, related s t → related' s t) : Agree related' x y := by
  rcases h.cases with ⟨a, s, t, rfl, rfl, hst⟩ | ⟨e, s, t, rfl, rfl, hst⟩
  · exact ⟨rfl, himp s t hst⟩
  · exact ⟨rfl, himp s t hst⟩

/-- From two states, two runs came to states that are alike. -/
structure Together (D : Discipline σ) (s t s' t' : σ) : Prop where
  alike : D.alike s' t'
  keeps : D.keeps s t s' t'

/-- The state that a run ends in. -/
def endState : EStateM.Result Stop σ α → σ
  | .ok _ s => s
  | .error _ s => s

/-- How two runs from two states compare: the first is spoiled, or the second
    stopped on the way, or they agree. -/
inductive Compare (D : Discipline σ) (s t : σ) (x y : EStateM.Result Stop σ α) : Prop
  | spoiled (h : D.spoiled (endState x))
  | parted {e : Stop} {r : σ} (hy : y = .error e r) (h : D.parted s t (endState x) e r)
  | agree (h : Agree (Together D s t) x y)

/-- Runs compare by another discipline too, if it says no less of where they
    ended. -/
theorem Compare.imp {D E : Discipline σ} {s t : σ} {x y : EStateM.Result Stop σ α}
    (h : Compare D s t x y) (hspoiled : ∀ u, D.spoiled u → E.spoiled u)
    (hparted : ∀ u e r, D.parted s t u e r → E.parted s t u e r)
    (hagree : ∀ u r, Together D s t u r → Together E s t u r) : Compare E s t x y := by
  cases h with
  | spoiled h => exact .spoiled (hspoiled _ h)
  | parted hy h => exact .parted hy (hparted _ _ _ h)
  | agree h => exact .agree (h.mono hagree)

/-- A run gives what satisfies `P`, or stops for a reason it may stop for. -/
def Ends (D : Discipline σ) (P : α → Prop) : EStateM.Result Stop σ α → Prop
  | .ok a _ => P a
  | .error e s => D.stops s e

/-- The first of two steps keeps within bounds and ends well, and the second
    compares with it. -/
structure HoldsAt (D : Discipline σ) (P : α → Prop) (x y : EStateM Stop σ α) (s t : σ) : Prop where
  grown : D.grown s (stateAfter x s)
  ends : Ends D P (x s)
  compare : Compare D s t (x s) (y t)

theorem stateAfter_eq (x : EStateM Stop σ α) (s : σ) : stateAfter x s = endState (x s) := by
  unfold stateAfter
  cases x s <;> rfl

/-- What holds of two steps from two states depends on how they run from
    there, and on nothing else. -/
theorem HoldsAt.congr {D : Discipline σ} {P : α → Prop} {x y x' y' : EStateM Stop σ α} {s t : σ}
    (h : HoldsAt D P x y s t) (hx : x' s = x s) (hy : y' t = y t) : HoldsAt D P x' y' s t := by
  obtain ⟨hgrown, hends, hcompare⟩ := h
  rw [stateAfter_eq] at hgrown
  refine ⟨?_, ?_, ?_⟩
  · rwa [stateAfter_eq, hx]
  · rwa [hx]
  · rwa [hx, hy]

theorem Ends.mono {D : Discipline σ} {P P' : α → Prop} {x : EStateM.Result Stop σ α}
    (h : Ends D P x) (himp : ∀ a, P a → P' a) : Ends D P' x := by
  cases x with
  | ok a s => exact himp a h
  | error e s => exact h

/-- That holds from all states that are alike. -/
def Contract (D : Discipline σ) (P : α → Prop) (x y : EStateM Stop σ α) : Prop :=
  ∀ s t, D.alike s t → D.ready s → HoldsAt D P x y s t

/-- A step on a part of a state. -/
def onPart {τ : Type} (view : τ → σ) (put : τ → σ → τ) (x : EStateM Stop σ α) : EStateM Stop τ α :=
  fun s =>
    match x (view s) with
    | .ok a d => .ok a (put s d)
    | .error e d => .error e (put s d)

/-- A step that stops for another reason where a step stops. -/
def mapStop (g : Stop → Stop) (x : EStateM Stop σ α) : EStateM Stop σ α := fun s =>
  match x s with
  | .ok a t => .ok a t
  | .error e t => .error (g e) t

/-- How a run ended, and the state after it. -/
def outcome : EStateM.Result Stop σ α → Except Stop α × σ
  | .ok a s => (.ok a, s)
  | .error e s => (.error e, s)

/-- No condition on what a step gives. -/
def Anything (_ : α) : Prop := True

namespace Contract

variable {D : Discipline σ} {P : α → Prop} {Q : β → Prop}

theorem together_refl {s t : σ} (h : D.alike s t) : Together D s t s t := ⟨h, D.keeps_refl s t⟩

theorem pure {a : α} (h : P a) : Contract D P (pure a) (pure a) :=
  fun s _ hst _ => ⟨D.refl s, h, .agree ⟨rfl, together_refl hst⟩⟩

/-- Stopping where the reason is one to stop for. -/
theorem throwAt {e : Stop} {s t : σ} (h : D.stops s e) (hst : D.alike s t) :
    HoldsAt D P (throw e) (throw e) s t :=
  ⟨D.refl s, h, .agree ⟨rfl, together_refl hst⟩⟩

theorem throw {e : Stop} (h : ∀ s, D.stops s e) : Contract D P (throw e) (throw e) :=
  fun s _ hst _ => throwAt (h s) hst

theorem mono {P' : α → Prop} {x y : EStateM Stop σ α} (h : Contract D P x y)
    (himp : ∀ a, P a → P' a) : Contract D P' x y := by
  intro s t hst hready
  obtain ⟨hgrown, hends, hrest⟩ := h s t hst hready
  exact ⟨hgrown, hends.mono himp, hrest⟩

theorem bind_run (x : EStateM Stop σ α) (f : α → EStateM Stop σ β) (s : σ) :
    (x >>= f) s = match x s with
      | .ok a u => f a u
      | .error e u => .error e u := by
  show EStateM.bind x f s = _
  rw [EStateM.bind]
  cases x s <;> rfl

/-- What came before a comparison is part of it. -/
theorem compare_trans {x y : EStateM.Result Stop σ α} {s t s' t' : σ} (hkeeps : D.keeps s t s' t')
    (h : Compare D s' t' x y) : Compare D s t x y := by
  cases h with
  | spoiled h => exact .spoiled h
  | parted hy h => exact .parted hy (D.parted_keeps hkeeps h)
  | agree h => exact .agree (h.mono fun _ _ h => ⟨h.alike, D.keeps_trans hkeeps h.keeps⟩)

theorem bind {x y : EStateM Stop σ α} {f g : α → EStateM Stop σ β} (hx : Contract D P x y)
    (hf : ∀ a, P a → Contract D Q (f a) (g a)) : Contract D Q (x >>= f) (y >>= g) := by
  intro s t hst hready
  obtain ⟨hgrown, hends, hrest⟩ := hx s t hst hready
  cases hxs : x s with
  | error e u =>
    have hbind : (x >>= f) s = .error e u := by rw [bind_run, hxs]
    rw [stateAfter_of_error hxs] at hgrown
    rw [hxs] at hends hrest
    refine ⟨stateAfter_of_error hbind ▸ hgrown, hbind ▸ hends, ?_⟩
    rw [hbind, bind_run]
    cases hrest with
    | spoiled h => exact .spoiled h
    | parted hy h => exact .parted (by rw [hy]) h
    | agree hagree =>
      rcases hagree.cases with ⟨_, _, _, hok, -, -⟩ | ⟨_, _, _, herror, hyt, htogether⟩
      · cases hok
      · cases herror
        rw [hyt]
        exact .agree ⟨rfl, htogether⟩
  | ok a u =>
    have hbind : (x >>= f) s = f a u := by rw [bind_run, hxs]
    have hafter : stateAfter (x >>= f) s = endState (f a u) := by
      rw [stateAfter_eq, hbind]
    rw [stateAfter_of_ok hxs] at hgrown
    rw [hxs] at hends hrest
    have hready' : D.ready u := D.ready_grown hready hgrown
    -- The first run goes on in any case, be it without a partner.
    obtain ⟨hmore, hQ, -⟩ := hf a hends u u (D.alike_refl u) hready'
    rw [stateAfter_eq] at hmore
    refine ⟨hafter ▸ D.trans hgrown hmore, hbind ▸ hQ, ?_⟩
    rw [hbind, bind_run]
    cases hrest with
    | spoiled h => exact .spoiled (D.spoiled_grown h hmore)
    | parted hy h => exact .parted (by rw [hy]) (D.parted_grown h hmore)
    | agree hagree =>
      rcases hagree.cases with ⟨_, _, u', hok, hyt, htogether⟩ | ⟨_, _, _, herror, -, -⟩
      · cases hok
        rw [hyt]
        exact compare_trans htogether.keeps (hf a hends u u' htogether.alike hready').compare
      · cases herror

/-- Looking at the state, before steps on that state. -/
theorem getAt {f g : σ → EStateM Stop σ β}
    (hf : ∀ s t, D.alike s t → D.ready s → HoldsAt D Q (f s) (g t) s t) :
    Contract D Q (get >>= f) (get >>= g) :=
  fun s t hst hready => (hf s t hst hready).congr rfl rfl

/-- Looking at the state. -/
theorem get {f g : σ → EStateM Stop σ β}
    (hf : ∀ s t, D.alike s t → D.ready s → Contract D Q (f s) (g t)) :
    Contract D Q (get >>= f) (get >>= g) :=
  getAt fun s t hst hready => hf s t hst hready s t hst hready

/-- Changing the state and giving something. -/
theorem modifyGet {a b : σ → α × σ}
    (h : ∀ s t, D.alike s t → D.ready s →
      D.grown s (a s).2 ∧ P (a s).1 ∧ (a s).1 = (b t).1 ∧ Together D s t (a s).2 (b t).2) :
    Contract D P (modifyGet a) (modifyGet b) := by
  intro s t hst hready
  obtain ⟨hgrown, hP, hsame, htogether⟩ := h s t hst hready
  exact ⟨hgrown, hP, .agree ⟨hsame, htogether⟩⟩

theorem modify {a b : σ → σ}
    (h : ∀ s t, D.alike s t → D.ready s → D.grown s (a s) ∧ Together D s t (a s) (b t)) :
    Contract D Anything (modify a) (modify b) :=
  modifyGet fun s t hst hready =>
    ⟨(h s t hst hready).1, trivial, rfl, (h s t hst hready).2⟩

/-- Changing the states at hand, before steps that keep a contract. -/
theorem modifyAt {a b : σ → σ} {f g : PUnit → EStateM Stop σ β} {s t : σ} (hready : D.ready s)
    (hgrown : D.grown s (a s)) (htogether : Together D s t (a s) (b t))
    (hf : Contract D Q (f ⟨⟩) (g ⟨⟩)) :
    HoldsAt D Q (MonadState.modifyGet (fun s => (⟨⟩, a s)) >>= f)
      (MonadState.modifyGet (fun s => (⟨⟩, b s)) >>= g) s t := by
  obtain ⟨hmore, hQ, hrest⟩ := hf (a s) (b t) htogether.alike (D.ready_grown hready hgrown)
  exact ⟨D.trans hgrown hmore, hQ, compare_trans htogether.keeps hrest⟩

theorem forM {f g : γ → EStateM Stop σ PUnit} {xs : List γ}
    (h : ∀ x ∈ xs, Contract D Anything (f x) (g x)) :
    Contract D Anything (xs.forM f) (xs.forM g) := by
  induction xs with
  | nil => exact pure trivial
  | cons x xs ih =>
    exact bind (h x List.mem_cons_self) fun _ _ => ih fun y hy => h y (List.mem_cons_of_mem _ hy)

theorem mapM {f g : γ → EStateM Stop σ α} {xs : List γ}
    (h : ∀ x ∈ xs, Contract D P (f x) (g x)) :
    Contract D (fun as => ∀ a ∈ as, P a) (xs.mapM f) (xs.mapM g) := by
  induction xs with
  | nil => exact pure (by simp)
  | cons x xs ih =>
    rw [List.mapM_cons, List.mapM_cons]
    refine bind (h x List.mem_cons_self) fun a ha => ?_
    refine bind (ih fun y hy => h y (List.mem_cons_of_mem _ hy)) fun as has => ?_
    exact pure (List.forall_mem_cons.mpr ⟨ha, has⟩)

theorem foldlM {f g : α → γ → EStateM Stop σ α} {xs : List γ}
    (h : ∀ a, P a → ∀ x ∈ xs, Contract D P (f a x) (g a x)) {a : α} (ha : P a) :
    Contract D P (xs.foldlM f a) (xs.foldlM g a) := by
  induction xs generalizing a with
  | nil => exact pure ha
  | cons x xs ih =>
    rw [List.foldlM_cons, List.foldlM_cons]
    exact bind (h a ha x List.mem_cons_self) fun b hb =>
      ih (fun c hc y hy => h c hc y (List.mem_cons_of_mem _ hy)) hb

theorem ite {c : Prop} [Decidable c] {x y x' y' : EStateM Stop σ α}
    (hx : c → Contract D P x x') (hy : ¬c → Contract D P y y') :
    Contract D P (if c then x else y) (if c then x' else y') := by
  by_cases h : c
  · rw [if_pos h, if_pos h]
    exact hx h
  · rw [if_neg h, if_neg h]
    exact hy h

/-- Steps that stop for another reason where steps stop that keep a
    contract. -/
theorem mapStop {g : Stop → Stop} {x y : EStateM Stop σ α} (h : Contract D P x y)
    (hstops : ∀ {s e}, D.stops s e → D.stops s (g e))
    (hparted : ∀ {s t u e r}, D.parted s t u e r → D.parted s t u (g e) r) :
    Contract D P (mapStop g x) (mapStop g y) := by
  have hmap : ∀ (x : EStateM Stop σ α) (s : σ), MarkupLint.mapStop g x s = match x s with
      | .ok a t => .ok a t
      | .error e t => .error (g e) t := fun _ _ => rfl
  intro s t hst hready
  obtain ⟨hgrown, hends, hrest⟩ := h s t hst hready
  rw [stateAfter_eq] at hgrown
  generalize hxs : x s = r at hgrown hends hrest
  generalize hyt : y t = r' at hrest
  refine ⟨?_, ?_, ?_⟩
  · rw [stateAfter_eq, hmap, hxs]
    cases r <;> exact hgrown
  · rw [hmap, hxs]
    cases r with
    | ok a u => exact hends
    | error e u => exact hstops hends
  · rw [hmap, hmap, hxs, hyt]
    cases hrest with
    | spoiled h => cases r <;> exact .spoiled h
    | parted hy h =>
      rw [hy]
      cases r <;> exact .parted rfl (hparted h)
    | agree hagree =>
      rcases hagree.cases with ⟨_, _, _, rfl, rfl, h⟩ | ⟨_, _, _, rfl, rfl, h⟩
      · exact .agree ⟨rfl, h⟩
      · exact .agree ⟨rfl, h⟩

/-- A step on a part of the state keeps what the step keeps on the part. -/
theorem zoom {τ : Type} {E : Discipline τ} {x y : EStateM Stop σ α} (h : Contract D P x y)
    (view : τ → σ) (put : τ → σ → τ) (hview : ∀ {s t}, E.alike s t → D.alike (view s) (view t))
    (hready : ∀ {s}, E.ready s → D.ready (view s))
    (hgrown : ∀ {s d}, E.ready s → D.grown (view s) d → E.grown s (put s d))
    (hspoiled : ∀ {s d}, D.spoiled d → E.spoiled (put s d))
    (hstops : ∀ {s d e}, D.stops d e → E.stops (put s d) e)
    (hput : ∀ {s t d e}, E.alike s t → D.alike d e → E.alike (put s d) (put t e))
    (hkeeps : ∀ {s t d e}, D.keeps (view s) (view t) d e → E.keeps s t (put s d) (put t e))
    (hparted : ∀ {s t d e r}, D.parted (view s) (view t) d r e →
      E.parted s t (put s d) r (put t e)) :
    Contract E P (onPart view put x) (onPart view put y) := by
  intro s t hst hs
  obtain ⟨hmore, hends, hrest⟩ := h (view s) (view t) (hview hst) (hready hs)
  cases hxs : x (view s) with
  | ok a d =>
    have hrun : onPart view put x s = .ok a (put s d) := by simp only [onPart, hxs]
    rw [stateAfter_of_ok hxs] at hmore
    rw [hxs] at hends hrest
    refine ⟨stateAfter_of_ok hrun ▸ hgrown hs hmore, hrun ▸ hends, ?_⟩
    rw [hrun, onPart]
    cases hrest with
    | spoiled h => exact .spoiled (hspoiled h)
    | parted hy h => exact .parted (by rw [hy]) (hparted h)
    | agree hagree =>
      rcases hagree.cases with ⟨_, _, e, hok, hyt, hde⟩ | ⟨_, _, _, herror, -, -⟩
      · cases hok
        rw [hyt]
        exact .agree ⟨rfl, hput hst hde.alike, hkeeps hde.keeps⟩
      · cases herror
  | error stop d =>
    have hrun : onPart view put x s = .error stop (put s d) := by simp only [onPart, hxs]
    rw [stateAfter_of_error hxs] at hmore
    rw [hxs] at hends hrest
    refine ⟨stateAfter_of_error hrun ▸ hgrown hs hmore, hrun ▸ hstops hends, ?_⟩
    rw [hrun, onPart]
    cases hrest with
    | spoiled h => exact .spoiled (hspoiled h)
    | parted hy h => exact .parted (by rw [hy]) (hparted h)
    | agree hagree =>
      rcases hagree.cases with ⟨_, _, _, hok, -, -⟩ | ⟨_, _, e, herror, hyt, hde⟩
      · cases hok
      · cases herror
        rw [hyt]
        exact .agree ⟨rfl, hput hst hde.alike, hkeeps hde.keeps⟩

end Contract

end MarkupLint
