import MarkupLint.Directive.Run
import MarkupLint.Calendar.Shown
import MarkupLint.Proofs.Inline

/-! # What directives are held to

    A directive gives nodes or complains.  A `Pledge` is a contract on both:
    the nodes it gives are new, and so are the messages that go with a
    complaint.  The steps that directives share keep it, in any two worlds;
    the one step that looks into a world, `Call.readFile`, notes the file
    before it reads it. -/

namespace MarkupLint

open Discipline

variable {v w : World} {L : License} {n : Nat} {keep : Prop} {α β γ : Type}

/-! ## Steps that grow a document -/

namespace Parse

theorem grow_build {P : α → Prop} {x y : Build α} (h : Contract (hanging v w L n) P x y) :
    Contract (growing v w L n keep) P (build x) (build y) :=
  .grow (.build h)

/-- A node that is prepared aside. -/
theorem grow_new {x y : Build NodeId} (h : ∀ m, Contract (aside v w L m) (m ≤ ·) x y) :
    Contract (growing v w L n keep) (n ≤ ·) (build x) (build y) :=
  grow_build (.hang (P := fun m i => m ≤ i) h fun _ _ hnm hm => Nat.le_trans hnm hm)

/-- Nodes that are prepared aside. -/
theorem grow_allNew {x y : Build (List NodeId)} (h : ∀ m, Contract (aside v w L m) (AllNew m) x y) :
    Contract (growing v w L n keep) (AllNew n) (build x) (build y) :=
  grow_build (.hang (P := AllNew) h fun _ _ hnm hm => hm.mono hnm)

theorem grow_inlineParse (site : Site) (text : List Char) (line : Nat) :
    Contract (growing v w L n keep) (Inlined.New n) (inlineParse (site.under v) text line)
      (inlineParse (site.under w) text line) :=
  .settle (P := Inlined.New) (fun _ => aside_inlineParse site text line)
    fun _ _ hnm hm => hm.mono hnm

theorem grow_node {P : α → Prop} {i : NodeId} {f g : Node → Parse α}
    (h : ∀ a b, (n ≤ i → AllNew n a.children) → a.Alike (v.clock = w.clock) b →
      Contract (growing v w L n keep) P (f a) (g b)) :
    Contract (growing v w L n keep) P (build (Build.node i) >>= f) (build (Build.node i) >>= g) := by
  rintro s _ ⟨d, hd, rfl⟩ hready
  exact (h (s.doc.node i) (d.node i) (fun hi => hready.2.1 i hi) (hd.forest.node i) s _
    ⟨d, hd, rfl⟩ hready).congr rfl rfl

/-- A change of the document that leaves its tree and its reporter alone. -/
theorem grow_modifyDocument (g : Document → Document)
    (hg : ∀ (d : Document) (f : Forest) (l : Level), g (d.replant f l) = (g d).replant f l)
    (hreporter : ∀ d : Document, (g d).reporter = d.reporter)
    (hsteady : ∀ d : Document, d.Steady L (g d)) :
    Contract (growing v w L n keep) Anything (modifyDocument g) (modifyDocument g) :=
  grow_build (Build.contract_modify g hg hreporter hsteady)

end Parse

namespace Site

theorem grow_container (site : Site) :
    Contract (growing v w L n keep) Anything (site.under v).container (site.under w).container := by
  refine .get ?_
  rintro s _ ⟨_, ⟨forest, halt, hlike, hsooner⟩, rfl⟩ _
  exact .pure trivial

theorem grow_add (site : Site) {nodes : List NodeId} (h : AllNew n nodes) :
    Contract (growing v w L n keep) Anything ((site.under v).add nodes)
      ((site.under w).add nodes) :=
  .bind site.grow_container fun p _ => Parse.grow_build (Build.hang_append p h)

theorem grow_raise (site : Site) (level : Level) (line : Nat) (text : String)
    (literal : Option String) (hlevel : L.levels level) :
    Contract (growing v w L n keep) (n ≤ ·) (Parse.build (site.raise level line text literal))
      (Parse.build (site.raise level line text literal)) :=
  Parse.grow_new fun _ => site.aside_raise _ _ _ _ hlevel

end Site

theorem Site.grow_role? (site : Site) (name : String) :
    Contract (growing v w L n keep) Anything ((site.under v).role? name)
      ((site.under w).role? name) :=
  Site.contract_role? (by rintro s _ ⟨d, -, rfl⟩; rfl) site name

/-! ## Nodes or a complaint -/

/-- A step of parsing in the run of a directive. -/
theorem Run.bind_lift {α β : Type} {x : Parse α} {f : α → Run β} {s t : ParseState} {a : α}
    (h : x s = .ok a t) : ((liftM x : Run α) >>= f).run s = (f a).run t := by
  have hlift : (liftM x : Run α).run s = .ok (.ok a) t := by
    show EStateM.map Except.ok x s = _
    simp only [EStateM.map, h]
  rw [ExceptT.run_bind, Contract.bind_run, hlift]

theorem Run.bind_ok {α β : Type} (a : α) (f : α → Run β) :
    ((liftM (.ok a : Except Complaint α) : Run α) >>= f) = f a := rfl

/-- A last step of parsing in the run of a directive. -/
theorem Run.lift_pure {α β : Type} (x : Parse α) (b : β) :
    ((liftM x : Run α) >>= fun _ => pure b).run = x >>= fun _ => pure (.ok b) := by
  rw [ExceptT.run_bind]
  show (Except.ok <$> x >>= _ : Parse _) = _
  rw [bind_map_left]
  rfl

/-- What a step of a directive gives comes from what the steps in it give. -/
theorem Run.bind_eq_ok {α β : Type} {x : Run α} {k : α → Run β} {b : β} {s s' : ParseState}
    (h : (x >>= k).run s = .ok (.ok b) s') :
    ∃ a t, x.run s = .ok (.ok a) t ∧ (k a).run t = .ok (.ok b) s' := by
  rw [ExceptT.run_bind, Contract.bind_run] at h
  cases hx : x.run s with
  | error stop t =>
    rw [hx] at h
    cases h
  | ok r t =>
    rw [hx] at h
    cases r with
    | error e => cases h
    | ok a => exact ⟨a, t, rfl, h⟩

/-- A complaint of a step of a directive is that of one of the steps in it. -/
theorem Run.bind_eq_error {α β : Type} {x : Run α} {k : α → Run β} {e : Complaint}
    {s s' : ParseState} (h : (x >>= k).run s = .ok (.error e) s') :
    x.run s = .ok (.error e) s' ∨
      ∃ a t, x.run s = .ok (.ok a) t ∧ (k a).run t = .ok (.error e) s' := by
  rw [ExceptT.run_bind, Contract.bind_run] at h
  cases hx : x.run s with
  | error stop t =>
    rw [hx] at h
    cases h
  | ok r t =>
    rw [hx] at h
    cases r with
    | error e' =>
      cases h
      exact .inl rfl
    | ok a => exact .inr ⟨a, t, rfl, h⟩

/-- A step of parsing does not complain. -/
theorem Run.lift_ne_error {α : Type} (x : Parse α) (e : Complaint) (s s' : ParseState) :
    (liftM x : Run α).run s ≠ .ok (.error e) s' := by
  show (x >>= fun a => pure (.ok a) : Parse (Except Complaint α)) s ≠ _
  rw [Contract.bind_run]
  cases x s <;> exact nofun

/-- What comes with a complaint is new, and its level is one of messages. -/
structure Complaint.Fits (L : License) (n : Nat) (e : Complaint) : Prop where
  messages : AllNew n e.messages
  level : L.levels e.level

/-- A complaint of a named level that comes alone. -/
theorem Complaint.Fits.nil {e : Complaint} (n : Nat) (hmessages : e.messages = [])
    (hlevel : L.levels e.level) : e.Fits L n where
  messages := by
    rw [hmessages]
    exact .nil n
  level := hlevel

/-- What is given satisfies `P`, and a complaint fits. -/
def Answer (L : License) (n : Nat) (P : α → Prop) : Except Complaint α → Prop
  | .ok a => P a
  | .error e => e.Fits L n

/-- A contract on what a directive gives and on its complaints. -/
def Pledge (v w : World) (L : License) (n : Nat) (keep : Prop) (P : α → Prop) (x y : Run α) :
    Prop :=
  Contract (growing v w L n keep) (Answer L n P) x.run y.run

namespace Pledge

variable {P : α → Prop} {Q : β → Prop}

theorem pure {a : α} (h : P a) : Pledge v w L n keep P (pure a) (pure a) := Contract.pure h

theorem throw {e : Complaint} (h : e.Fits L n) : Pledge v w L n keep P (throw e) (throw e) :=
  Contract.pure h

theorem bind {x y : Run α} {f g : α → Run β} (hx : Pledge v w L n keep P x y)
    (hf : ∀ a, P a → Pledge v w L n keep Q (f a) (g a)) : Pledge v w L n keep Q (x >>= f) (y >>= g) := by
  refine Contract.bind hx fun r hr => ?_
  cases r with
  | ok a => exact hf a hr
  | error e => exact Contract.pure hr

theorem lift {x y : Parse α} (h : Contract (growing v w L n keep) P x y) :
    Pledge v w L n keep P (liftM x) (liftM y) :=
  Contract.bind h fun _ ha => Contract.pure ha

/-- Looking at the state. -/
theorem get {f g : ParseState → Run β}
    (hf : ∀ s t, s.Alike v w L t → (growing v w L n keep).ready s → Pledge v w L n keep Q (f s) (g t)) :
    Pledge v w L n keep Q (get >>= f) (get >>= g) := by
  intro s t hst hready
  exact (hf s t hst hready s t hst hready).congr rfl rfl

theorem modify {a b : ParseState → ParseState}
    (h : ∀ s t, s.Alike v w L t → (growing v w L n keep).ready s →
      s.Grown L n keep (a s) ∧ Together (growing v w L n keep) s t (a s) (b t)) :
    Pledge v w L n keep Anything (modify a) (modify b) :=
  lift (Contract.modify h)

theorem ite {c : Prop} [Decidable c] {x y x' y' : Run α}
    (hx : c → Pledge v w L n keep P x x') (hy : ¬c → Pledge v w L n keep P y y') :
    Pledge v w L n keep P (if c then x else y) (if c then x' else y') := by
  by_cases h : c
  · rw [if_pos h, if_pos h]
    exact hx h
  · rw [if_neg h, if_neg h]
    exact hy h

/-- A complaint before the rest. -/
theorem guard {c : Prop} [Decidable c] {e : Complaint} {f g : PUnit → Run α}
    (he : e.Fits L n) (h : ¬c → Pledge v w L n keep P (f ⟨⟩) (g ⟨⟩)) :
    Pledge v w L n keep P (if c then throwThe Complaint e >>= f else f ⟨⟩)
      (if c then throwThe Complaint e >>= g else g ⟨⟩) :=
  ite (fun _ => Contract.pure he) h

theorem mapM {f g : γ → Run α} {xs : List γ} (h : ∀ x ∈ xs, Pledge v w L n keep P (f x) (g x)) :
    Pledge v w L n keep (fun as => ∀ a ∈ as, P a) (xs.mapM f) (xs.mapM g) := by
  induction xs with
  | nil => exact pure (by simp)
  | cons x xs ih =>
    rw [List.mapM_cons, List.mapM_cons]
    refine bind (h x List.mem_cons_self) fun a ha => ?_
    refine bind (ih fun y hy => h y (List.mem_cons_of_mem _ hy)) fun as has => ?_
    exact pure (List.forall_mem_cons.mpr ⟨ha, has⟩)

theorem forM {f g : γ → Run PUnit} {xs : List γ}
    (h : ∀ x ∈ xs, Pledge v w L n keep Anything (f x) (g x)) :
    Pledge v w L n keep Anything (xs.forM f) (xs.forM g) := by
  induction xs with
  | nil => exact pure trivial
  | cons x xs ih =>
    exact bind (h x List.mem_cons_self) fun _ _ => ih fun y hy => h y (List.mem_cons_of_mem _ hy)

/-- The result of a computation apart from the document. -/
theorem ofExcept {x : Except Complaint α} (h : ∀ e, x = .error e → e.Fits L n) :
    Pledge v w L n keep (fun a => x = .ok a) (liftM x) (liftM x) := by
  cases x with
  | ok a => exact Contract.pure (P := Answer L n fun b => Except.ok a = Except.ok b) rfl
  | error e => exact Contract.pure (h e rfl)

/-- The nodes of the document. -/
theorem node {Q : β → Prop} {i : NodeId} {f g : Node → Run β}
    (h : ∀ a b, (n ≤ i → AllNew n a.children) → a.Alike (v.clock = w.clock) b →
      Pledge v w L n keep Q (f a) (g b)) :
    Pledge v w L n keep Q (liftM (Build.node i) >>= f) (liftM (Build.node i) >>= g) := by
  rintro s _ ⟨d, hd, rfl⟩ hready
  exact (h (s.doc.node i) (d.node i) (fun hi => hready.2.1 i hi) (hd.forest.node i) s _
    ⟨d, hd, rfl⟩ hready).congr rfl rfl

end Pledge

end MarkupLint
