import MarkupLint.Proofs.Contract

/-! # One run of a step

    A `Regime` says in which states a step may start, where it may lead and
    how it may stop.  A step that `Meets` a regime from a state keeps to
    this, and what it gives satisfies a condition on the state it led to.

    What is known of a state stays known in the states that it leads to, so
    every step hands the next one the way it came. -/

namespace MarkupLint

/-- What one run of a step is held to. -/
structure Regime (σ : Type) where
  /-- States from which a step may start. -/
  holds : σ → Prop
  /-- Where a step may lead. -/
  leads : σ → σ → Prop
  /-- How a step from a state may stop: the reason, and the state then. -/
  stops : σ → Stop → σ → Prop
  refl : ∀ {s}, holds s → leads s s
  trans : ∀ {s t u}, leads s t → leads t u → leads s u
  holds_leads : ∀ {s t}, leads s t → holds t
  stops_leads : ∀ {s t e u}, leads s t → stops t e u → stops s e u

namespace Regime

variable {σ α β γ : Type}

/-- How a run from a state ended: it led to a state with what it gave, or
    stopped as it may. -/
inductive Ends (R : Regime σ) (s : σ) (P : α → σ → Prop) : EStateM.Result Stop σ α → Prop
  | ok {a : α} {t : σ} (leads : R.leads s t) (gives : P a t) : Ends R s P (.ok a t)
  | stop {e : Stop} {t : σ} (stops : R.stops s e t) : Ends R s P (.error e t)

/-- From a state on, a step keeps to the regime and gives what satisfies
    `P`. -/
def Meets (R : Regime σ) (s : σ) (x : EStateM Stop σ α) (P : α → σ → Prop) : Prop :=
  R.holds s → R.Ends s P (x s)

/-- From a state on, a step keeps to the regime. -/
abbrev Keeps (R : Regime σ) (s : σ) (x : EStateM Stop σ α) : Prop := R.Meets s x fun _ _ => True

variable {R : Regime σ} {s t : σ} {P P' : α → σ → Prop} {Q : β → σ → Prop}

namespace Ends

/-- A run that ends with one thing ends with what follows from it. -/
theorem mono {x : EStateM.Result Stop σ α} (h : R.Ends s P x)
    (himp : ∀ a t, R.leads s t → P a t → P' a t) : R.Ends s P' x := by
  cases h with
  | ok leads gives => exact .ok leads (himp _ _ leads gives)
  | stop stops => exact .stop stops

/-- What came before a run is part of it. -/
theorem after {x : EStateM.Result Stop σ α} (hst : R.leads s t) (h : R.Ends t P x) :
    R.Ends s P x := by
  cases h with
  | ok leads gives => exact .ok (R.trans hst leads) gives
  | stop stops => exact .stop (R.stops_leads hst stops)

end Ends

namespace Meets

theorem pure {a : α} (h : P a s) : R.Meets s (pure a) P := fun hs => .ok (R.refl hs) h

theorem throw {e : Stop} (h : R.holds s → R.stops s e s) :
    R.Meets s (throw e : EStateM Stop σ α) P :=
  fun hs => .stop (h hs)

/-- What a step meets it meets with what follows from it. -/
theorem mono {x : EStateM Stop σ α} (h : R.Meets s x P)
    (himp : ∀ a t, R.leads s t → P a t → P' a t) : R.Meets s x P' :=
  fun hs => (h hs).mono himp

/-- A step that meets something keeps what is to be kept. -/
theorem keeps {x : EStateM Stop σ α} (h : R.Meets s x P) : R.Keeps s x :=
  h.mono fun _ _ _ _ => trivial

/-- What holds of every state with a run to it may be added. -/
theorem also {C : α → σ → Prop} {x : EStateM Stop σ α} (h : R.Meets s x P)
    (hrun : ∀ a t, x s = .ok a t → C a t) : R.Meets s x fun a t => P a t ∧ C a t := by
  intro hs
  have hends := h hs
  generalize hx : x s = result at hends
  cases hends with
  | ok leads gives => exact .ok leads ⟨gives, hrun _ _ hx⟩
  | stop stops => exact .stop stops

/-- It may be taken for granted that a step may start. -/
theorem start {x : EStateM Stop σ α} (h : R.holds s → R.Meets s x P) : R.Meets s x P :=
  fun hs => h hs hs

/-- One step after the other, from where the first has led. -/
theorem bind {x : EStateM Stop σ α} {f : α → EStateM Stop σ β} (hx : R.Meets s x P)
    (hf : ∀ a t, R.leads s t → P a t → R.Meets t (f a) Q) : R.Meets s (x >>= f) Q := by
  intro hs
  have hends := hx hs
  rw [Contract.bind_run]
  generalize x s = result at hends
  cases hends with
  | ok leads gives => exact (hf _ _ leads gives (R.holds_leads leads)).after leads
  | stop stops => exact .stop stops

/-- Looking at the state. -/
theorem get {f : σ → EStateM Stop σ β} (h : R.Meets s (f s) Q) : R.Meets s (get >>= f) Q := h

theorem modifyGet {g : σ → α × σ} (h : R.holds s → R.leads s (g s).2 ∧ P (g s).1 (g s).2) :
    R.Meets s (modifyGet g) P :=
  fun hs => .ok (h hs).1 (h hs).2

theorem modify {g : σ → σ} (h : R.holds s → R.leads s (g s)) : R.Keeps s (modify g) :=
  modifyGet fun hs => ⟨h hs, trivial⟩

/-- Either branch, under its condition. -/
theorem ite {c : Prop} [Decidable c] {x y : EStateM Stop σ α} (hx : c → R.Meets s x P)
    (hy : ¬c → R.Meets s y P) : R.Meets s (if c then x else y) P := by
  by_cases h : c
  · rw [if_pos h]
    exact hx h
  · rw [if_neg h]
    exact hy h

/-- By the items: each starts where the others have led. -/
theorem forM {f : γ → EStateM Stop σ PUnit} {xs : List γ}
    (h : ∀ x ∈ xs, ∀ t, R.leads s t → R.Keeps t (f x)) : R.Keeps s (xs.forM f) := by
  induction xs generalizing s with
  | nil => exact pure trivial
  | cons x xs ih =>
    refine start fun hs => bind (h x List.mem_cons_self s (R.refl hs)) fun _ t hst _ => ?_
    exact ih fun y hy u htu => h y (List.mem_cons_of_mem _ hy) u (R.trans hst htu)

/-- What each step gives satisfies `P` from then on. -/
theorem mapM {f : γ → EStateM Stop σ α} {xs : List γ}
    (hP : ∀ {a t u}, R.leads t u → P a t → P a u)
    (h : ∀ x ∈ xs, ∀ t, R.leads s t → R.Meets t (f x) P) :
    R.Meets s (xs.mapM f) fun as t => ∀ a ∈ as, P a t := by
  induction xs generalizing s with
  | nil => exact pure (List.forall_mem_nil _)
  | cons x xs ih =>
    rw [List.mapM_cons]
    refine start fun hs => bind (h x List.mem_cons_self s (R.refl hs)) fun a t hst ha => ?_
    refine bind (ih fun y hy u htu => h y (List.mem_cons_of_mem _ hy) u (R.trans hst htu))
      fun as u htu has => ?_
    exact pure (List.forall_mem_cons.mpr ⟨hP htu ha, has⟩)

/-- By the items, with what holds of the value so far. -/
theorem foldlM {f : α → γ → EStateM Stop σ α} {xs : List γ} {a : α} (ha : P a s)
    (h : ∀ x ∈ xs, ∀ a t, R.leads s t → P a t → R.Meets t (f a x) P) :
    R.Meets s (xs.foldlM f a) P := by
  induction xs generalizing s a with
  | nil => exact pure ha
  | cons x xs ih =>
    rw [List.foldlM_cons]
    refine start fun hs => bind (h x List.mem_cons_self a s (R.refl hs) ha) fun b t hst hb => ?_
    exact ih hb fun y hy c u htu hc => h y (List.mem_cons_of_mem _ hy) c u (R.trans hst htu) hc

end Meets

end Regime

end MarkupLint
