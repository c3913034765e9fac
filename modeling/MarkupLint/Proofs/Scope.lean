import MarkupLint.Proofs.Namespace

/-! # Programs of scopes

    A program opens scopes on a namespace, one inside the other and one after
    the other.  `Program δ ρ known` is a program inside scopes that installed
    the labels `known`; it may bind and unbind these labels and no others, it
    may look at the namespace to decide how to go on, and it ends well, with an
    error or by giving up.  What follows a scope knows how the scope ended.

    A program changes no label but those known to it, and at no time one that
    neither it knows nor a scope of it installs (`run_kept`).  Outside all
    scopes nothing is known, so there a program leaves a namespace as it
    was. -/

namespace MarkupLint

variable {δ ρ : Type}

/-- How the body of a scope ends. -/
inductive Ending where
  | normal
  | error (reason : String)
  | panic (reason : String)

/-- A program inside scopes that installed the labels `known`. -/
inductive Program (δ ρ : Type) : List Label → Type where
  | finish {known : List Label} (e : Ending) : Program δ ρ known
  /-- Goes on as the namespace suggests. -/
  | look {known : List Label} (next : Namespace δ ρ → Program δ ρ known) : Program δ ρ known
  /-- Binds a directive, or unbinds it if there is none to bind. -/
  | directive {known : List Label} (name : String) (value : Option δ)
      (installed : .directive (bindingName name) ∈ known) (next : Program δ ρ known) :
      Program δ ρ known
  /-- Binds a role, or unbinds it if there is none to bind. -/
  | role {known : List Label} (name : String) (value : Option ρ)
      (installed : .role (bindingName name) ∈ known) (next : Program δ ρ known) :
      Program δ ρ known
  /-- Opens a scope and closes it after the body. -/
  | pair {known : List Label} (directives : List (String × δ)) (roles : List (String × ρ))
      (body : Program δ ρ (known ++ installedLabels (directives.map (·.1)) (roles.map (·.1))))
      (next : Ending → Program δ ρ known) : Program δ ρ known
  /-- Runs the body in a scope. -/
  | within {known : List Label} (directives : List (String × δ)) (roles : List (String × ρ))
      (body : Program δ ρ (known ++ installedLabels (directives.map (·.1)) (roles.map (·.1))))
      (next : Ending → Program δ ρ known) : Program δ ρ known
  /-- Runs the body with implementations in place, if every name has one. -/
  | use {known : List Label} (directives : List (String × Option δ))
      (roles : List (String × Option ρ))
      (body : Program δ ρ (known ++ installedLabels (directives.map (·.1)) (roles.map (·.1))))
      (next : Ending → Program δ ρ known) : Program δ ρ known
  /-- Closes a scope once more that was closed before. -/
  | closeAgain {known : List Label} (index : Nat) (next : Program δ ρ known) : Program δ ρ known

/-- How far a program has come. -/
structure Session (δ ρ : Type) where
  current : Namespace δ ρ
  /-- Every namespace there was. -/
  seen : List (Namespace δ ρ) := [current]
  /-- The labels that scopes have installed. -/
  installed : List Label := []
  /-- The scopes that were opened and closed by hand, in the order of closing. -/
  closed : List (Registration δ ρ) := []

namespace Session

/-- The namespace becomes another one. -/
def become (s : Session δ ρ) (ns : Namespace δ ρ) : Session δ ρ :=
  { s with current := ns, seen := s.seen ++ [ns] }

/-- A scope is entered. -/
def enter (s : Session δ ρ) (labels : List Label) (inner : Namespace δ ρ) : Session δ ρ :=
  { s.become inner with installed := s.installed ++ labels }

end Session

/-- Runs a program: how it ends, and how far it has come then. -/
def Program.run {known : List Label} : Program δ ρ known → Session δ ρ → Ending × Session δ ρ
  | .finish e, s => (e, s)
  | .look next, s => (next s.current).run s
  | .directive name value _ next, s =>
    next.run (s.become (s.current.bindDirective name value))
  | .role name value _ next, s =>
    next.run (s.become (s.current.bindRole name value))
  | .pair directives roles body next, s =>
    let labels := installedLabels (directives.map (·.1)) (roles.map (·.1))
    let (registration, inner) := s.current.openScope directives roles
    let (e, t) := body.run (s.enter labels inner)
    let (released, after) := t.current.closeScope registration
    (next e).run { t.become after with closed := t.closed ++ [released] }
  | .within directives roles body next, s =>
    let labels := installedLabels (directives.map (·.1)) (roles.map (·.1))
    let ((e, t), after) := s.current.withScope directives roles fun inner =>
      let (e, t) := body.run (s.enter labels inner)
      ((e, t), t.current)
    (next e).run (t.become after)
  | .use directives roles body next, s =>
    let labels := installedLabels (directives.map (·.1)) (roles.map (·.1))
    let result := s.current.withConstructs directives roles fun inner =>
      let (e, t) := body.run (s.enter labels inner)
      ((e, t), t.current)
    match result with
    | .error missing => (next (.error missing.message)).run s
    | .ok ((e, t), after) => (next e).run (t.become after)
  | .closeAgain index next, s =>
    match s.closed[index]? with
    | none => next.run s
    | some r => next.run (s.become (s.current.closeScope r).2)

/-! ## What a program keeps -/

/-- A part of a run that changed no label but those of `known` for good, and
    no label at any time that is neither known nor installed by a scope. -/
structure Kept (known : List Label) (s t : Session δ ρ) : Prop where
  current : t.current.AgreeOff known s.current
  installed : s.installed ⊆ t.installed
  seen : ∀ v ∈ t.seen, v ∈ s.seen ∨ v.AgreeOff (known ++ t.installed) s.current
  closed : ∀ r ∈ t.closed, r.released = true

namespace Kept

variable {known labels : List Label} {s t u : Session δ ρ} {inner after : Namespace δ ρ}

theorem refl (known : List Label) (hs : ∀ r ∈ s.closed, r.released = true) : Kept known s s where
  current := .refl _ _
  installed _ h := h
  seen _ h := .inl h
  closed := hs

theorem trans (h : Kept known s t) (h' : Kept known t u) : Kept known s u where
  current := h'.current.trans h.current
  installed _ hl := h'.installed (h.installed hl)
  closed := h'.closed
  seen v hv := by
    rcases h'.seen v hv with hold | hnew
    · rcases h.seen v hold with hfirst | hagree
      · exact .inl hfirst
      · refine .inr (hagree.mono ?_)
        exact List.append_subset.mpr
          ⟨List.subset_append_left _ _,
            fun _ hl => List.mem_append_right _ (h'.installed hl)⟩
    · exact .inr (hnew.trans (h.current.mono (List.subset_append_left _ _)))

/-- A change that concerns known labels only. -/
theorem become (hs : ∀ r ∈ s.closed, r.released = true) (h : after.AgreeOff known s.current) :
    Kept known s (s.become after) := by
  refine ⟨h, fun _ hm => hm, ?_, hs⟩
  intro v hv
  rcases List.mem_append.mp hv with hold | hnew
  · exact .inl hold
  · rw [List.mem_singleton.mp hnew]
    exact .inr (h.mono (List.subset_append_left _ _))

/-- A change of one known label. -/
theorem change {l : Label} (hs : ∀ r ∈ s.closed, r.released = true) (hl : l ∈ known)
    (h : after.AgreeOff [l] s.current) : Kept known s (s.become after) :=
  become hs (h.mono (List.cons_subset.mpr ⟨hl, nofun⟩))

/-- A scope around a body: if opening it concerns its labels and closing it
    undoes what the body did to them, then to those outside only known labels
    have changed. -/
theorem scope (hopen : inner.AgreeOff labels s.current)
    (hbody : Kept (known ++ labels) (s.enter labels inner) t)
    (hclose : after.AgreeOff known s.current) : Kept known s (t.become after) := by
  have hlabels : labels ⊆ t.installed :=
    fun _ hl => hbody.installed (List.mem_append_right _ hl)
  refine ⟨hclose, ?_, ?_, hbody.closed⟩
  · exact fun _ hl => hbody.installed (List.mem_append_left _ hl)
  intro v hv
  rcases List.mem_append.mp hv with hmem | hlast
  · rcases hbody.seen v hmem with hbefore | hinside
    · rcases List.mem_append.mp hbefore with hold | hfirst
      · exact .inl hold
      · -- the namespace right after opening
        rw [List.mem_singleton.mp hfirst]
        exact .inr (hopen.mono fun _ hl => List.mem_append_right _ (hlabels hl))
    · -- inside, the labels of the scope count among those installed
      have hin : v.AgreeOff (known ++ t.installed) inner := by
        refine hinside.mono ?_
        rw [List.append_assoc, List.append_subset, List.append_subset]
        exact ⟨List.subset_append_left _ _,
          fun _ hl => List.mem_append_right _ (hlabels hl), List.subset_append_right _ _⟩
      exact .inr (hin.trans (hopen.mono fun _ hl => List.mem_append_right _ (hlabels hl)))
  · rw [List.mem_singleton.mp hlast]
    exact .inr (hclose.mono (List.subset_append_left _ _))

/-- One more scope was closed. -/
theorem close (h : Kept known s t) {r : Registration δ ρ} (hr : r.released = true) :
    Kept known s { t with closed := t.closed ++ [r] } := by
  refine ⟨h.current, h.installed, h.seen, ?_⟩
  intro q hq
  rcases List.mem_append.mp hq with hold | hnew
  · exact h.closed q hold
  · rw [List.mem_singleton.mp hnew]
    exact hr

end Kept

/-- A body between opening and closing a scope that installs `labels`. -/
theorem kept_scope {known labels : List Label} {s t : Session δ ρ}
    {directives : List (String × δ)} {roles : List (String × ρ)}
    (hlabels : installedLabels (directives.map (·.1)) (roles.map (·.1)) = labels)
    (hbody : Kept (known ++ labels)
      (s.enter labels (s.current.openScope directives roles).2) t) :
    Kept known s
      (t.become (t.current.closeScope (s.current.openScope directives roles).1).2) := by
  subst hlabels
  exact .scope (s.current.openScope_agreeOff directives roles) hbody
    (Namespace.closeScope_agreeOff hbody.current)

/-- **Programs keep what they do not know**, by induction on the program: a
    scope opens, its body keeps what is known outside and what the scope
    installs, and closing undoes the latter. -/
theorem run_kept {known : List Label} (p : Program δ ρ known) {s : Session δ ρ}
    (hs : ∀ r ∈ s.closed, r.released = true) : Kept known s (p.run s).2 := by
  induction p generalizing s with
  | finish e => exact .refl _ hs
  | look next ih => exact ih s.current hs
  | directive name value hl next ih =>
      exact (Kept.change hs hl (s.current.bindDirective_agreeOff name value)).trans (ih hs)
  | role name value hl next ih =>
      exact (Kept.change hs hl (s.current.bindRole_agreeOff name value)).trans (ih hs)
  | pair directives roles body next ihbody ihnext =>
      let inside := s.enter (installedLabels (directives.map (·.1)) (roles.map (·.1)))
        (s.current.openScope directives roles).2
      have hscope := kept_scope rfl (ihbody (s := inside) hs)
      have hreleased := (body.run inside).2.current.closeScope_released
        (s.current.openScope directives roles).1
      have hclosed := hscope.close hreleased
      exact hclosed.trans (ihnext _ hclosed.closed)
  | within directives roles body next ihbody ihnext =>
      have hscope := kept_scope rfl (ihbody (s := s.enter _ _) hs)
      exact hscope.trans (ihnext _ hscope.closed)
  | use directives roles body next ihbody ihnext =>
      unfold Program.run
      dsimp only
      rcases s.current.withConstructs_cases directives roles _ with
        ⟨m, hrefused⟩ | ⟨ds, rs, hds, hrs, hused⟩
      · rw [hrefused]
        exact ihnext _ hs
      · rw [hused]
        have hscope := kept_scope (by rw [hds, hrs])
          (ihbody (s := s.enter _ (s.current.openScope ds rs).2) hs)
        exact hscope.trans (ihnext _ hscope.closed)
  | closeAgain index next ih =>
      -- What is closed was released, so closing it once more does nothing.
      unfold Program.run
      split
      · exact ih hs
      · rename_i r hr
        have hreleased := hs r (List.mem_of_getElem? hr)
        have hsame : (s.current.closeScope r).2 = s.current := by
          rw [s.current.closeScope_of_released hreleased]
        rw [hsame]
        exact (Kept.become hs (.refl _ _)).trans (ih hs)

/-- **Scopes restore the namespace**: after a program of scopes each label is
    bound as before; all the while, the labels that no scope installed were;
    and the scopes that were closed do nothing when they are closed again. -/
theorem scopes_restore (p : Program δ ρ []) (ns : Namespace δ ρ) :
    let t := (p.run { current := ns }).2
    (∀ key, t.current.directives.get? key = ns.directives.get? key)
      ∧ (∀ key, t.current.roles.get? key = ns.roles.get? key)
      ∧ (∀ v ∈ t.seen, v.AgreeOff t.installed ns)
      ∧ ∀ r ∈ t.closed, ∀ other : Namespace δ ρ, other.closeScope r = (r, other) := by
  intro t
  have hkept : Kept [] { current := ns } t := run_kept p fun _ hr => nomatch hr
  refine ⟨?_, ?_, ?_, ?_⟩
  · exact fun key => hkept.current.get?_directives nofun
  · exact fun key => hkept.current.get?_roles nofun
  · intro v hv
    rcases hkept.seen v hv with hstart | hagree
    · rw [List.mem_singleton.mp hstart]
      exact .refl _ _
    · exact hagree
  · intro r hr other
    exact other.closeScope_of_released (hkept.closed r hr)

-- A body may unbind an installed name and give up inside another scope.
example :
    let p : Program Nat Nat [] :=
      .within [(" Note ", 1), ("note", 2)] []
        (.directive "NOTE" none (by decide)
          (.use [("note", some 3), ("tip", some 4)] [] (.finish (.panic "no")) .finish))
        .finish
    let t := (p.run { current := { directives := [("note", 0)] } }).2
    t.seen.map (fun ns => (ns.directive? "note", ns.directive? "tip"))
      = [(some 0, none), (some 2, none), (none, none), (some 3, some 4), (none, none),
         (some 0, none)] := by
  decide +kernel

end MarkupLint
