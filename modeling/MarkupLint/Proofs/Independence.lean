import MarkupLint.Lint
import MarkupLint.Proofs.Namespace

/-! # Lints do not influence each other

    A lint opens a scope on the namespace of its linter, reads a text there and
    closes the scope.  The text sees of the namespace what names mean and
    nothing else, so namespaces that bind the same names alike give the same
    result (`lint_congr`).  The scope puts back what it displaced, so after a
    lint the namespace binds the same names alike (`lint_same`).  By induction
    on the calls, each of them gives what it would give alone. -/

namespace MarkupLint

namespace Data.Table

variable {α : Type}

/-- What a table binds after installing depends on what it bound before, and
    not on the order of its entries. -/
theorem get?_foldl_installOne (bindings : List (String × α)) {a b : Table α × Displaced α}
    (h : ∀ key, a.1.get? key = b.1.get? key) (key : String) :
    (bindings.foldl installOne a).1.get? key = (bindings.foldl installOne b).1.get? key := by
  induction bindings generalizing a b with
  | nil => exact h key
  | cons p rest ih =>
      rw [List.foldl_cons, List.foldl_cons]
      refine ih ?_
      intro other
      unfold installOne
      dsimp only
      by_cases hempty : bindingName p.1 = ""
      · rw [if_pos hempty, if_pos hempty]
        exact h other
      · rw [if_neg hempty, if_neg hempty]
        by_cases ho : other = bindingName p.1
        · rw [ho, get?_set_self, get?_set_self]
        · rw [get?_set_of_ne _ _ ho, get?_set_of_ne _ _ ho]
          exact h other

end Data.Table

namespace Namespace

variable {δ ρ : Type}

/-- Two namespaces bind the same names alike. -/
def Same (a b : Namespace δ ρ) : Prop := AgreeOff [] a b

theorem Same.symm {a b : Namespace δ ρ} (h : Same a b) : Same b a := fun l hl => (h l hl).symm

theorem Same.trans {a b c : Namespace δ ρ} (hab : Same a b) (hbc : Same b c) : Same a c :=
  AgreeOff.trans hab hbc

theorem same_of_get? {a b : Namespace δ ρ}
    (hd : ∀ key, a.directives.get? key = b.directives.get? key)
    (hr : ∀ key, a.roles.get? key = b.roles.get? key) : Same a b := by
  intro l _
  cases l with
  | directive key => exact congrArg (Option.map _) (hd key)
  | role key => exact congrArg (Option.map _) (hr key)

/-- The same scope opened on namespaces that bind alike. -/
theorem Same.openScope {a b : Namespace δ ρ} (h : Same a b) (directives : List (String × δ))
    (roles : List (String × ρ)) :
    Same (a.openScope directives roles).2 (b.openScope directives roles).2 := by
  refine same_of_get? ?_ ?_
  · exact Data.Table.get?_foldl_installOne directives fun _ => AgreeOff.get?_directives h nofun
  · exact Data.Table.get?_foldl_installOne roles fun _ => AgreeOff.get?_roles h nofun

/-- A scope whose body changes nothing puts everything back. -/
theorem same_withScope {α : Type} (ns : Namespace δ ρ) (directives : List (String × δ))
    (roles : List (String × ρ)) (f : Namespace δ ρ → α) :
    Same (ns.withScope directives roles fun inner => (f inner, inner)).2 ns :=
  closeScope_agreeOff (AgreeOff.refl _ _)

end Namespace

/-- A text to be linted. -/
structure LintCall where
  text : List Char
  options : LintOptions

namespace Linter

/-- The linter with another namespace. -/
def on (l : Linter) (ns : Constructs) : Linter := { l with env := { l.env with constructs := ns } }

/-- Lints texts one after the other on one namespace: the result of each, and
    the namespace after it. -/
def lintAll (l : Linter) : List LintCall → List (LintResult × Constructs)
  | [] => []
  | c :: calls =>
    let (result, ns) := l.lint c.text c.options
    (result, ns) :: (l.on ns).lintAll calls

/-- A text sees no difference between namespaces that bind alike. -/
theorem process_congr (l : Linter) (source : String) (text : List Char) {a b : Constructs}
    (h : a.Same b) : l.process source text a = l.process source text b := by
  have hd : a.directive? = b.directive? := funext fun _ => Namespace.AgreeOff.get?_directives h nofun
  have hr : a.role? = b.role? := funext fun _ => Namespace.AgreeOff.get?_roles h nofun
  unfold process Environment.surroundings
  dsimp only
  rw [hd, hr]

/-- What is found depends on what the namespace binds. -/
theorem lint_congr (l : Linter) {a b : Constructs} (h : a.Same b) (text : List Char)
    (o : LintOptions) : ((l.on a).lint text o).1 = ((l.on b).lint text o).1 :=
  process_congr l o.source text (h.openScope _ _)

/-- After a lint the namespace binds what it bound before. -/
theorem lint_same (l : Linter) (text : List Char) (o : LintOptions) :
    (l.lint text o).2.Same l.env.constructs :=
  l.env.constructs.same_withScope _ _ _

/-- **Lints are independent**: each of a sequence of lints on one namespace
    finds what it finds on a copy of the namespace at the beginning, and
    leaves the namespace as that was. -/
theorem lints_independent (l : Linter) (calls : List LintCall) (copy : Constructs)
    (h : copy.Same l.env.constructs) :
    (l.lintAll calls).map (·.1) = calls.map (fun c => ((l.on copy).lint c.text c.options).1)
      ∧ ∀ ns ∈ (l.lintAll calls).map (·.2), ns.Same l.env.constructs := by
  induction calls generalizing l with
  | nil => exact ⟨rfl, fun _ hns => nomatch hns⟩
  | cons c calls ih =>
      have hafter := l.lint_same c.text c.options
      -- the copy is as good a copy of the namespace after the first lint
      obtain ⟨hresults, hspaces⟩ :=
        ih (l.on (l.lint c.text c.options).2) (h.trans hafter.symm)
      refine ⟨?_, ?_⟩
      · exact congr (congrArg List.cons (l.lint_congr h c.text c.options).symm) hresults
      · intro ns hns
        rcases List.mem_cons.mp hns with rfl | hlater
        · exact hafter
        · exact (hspaces ns hlater).trans hafter

/-- Two lints, the first of which fails in a directive and the second of which
    ignores one, on a namespace and on a copy with its entries in another
    order. -/
theorem lints_independent_reordered :
    let note : Directive := .standard (.admonition "note")
    let broken : Directive :=
      .custom { label := "broken", spec := {}, behaviour := .fail "out of order" }
    let l : Linter :=
      { env := { constructs := { directives := [("note", note), ("broken", broken)] }
                 files := {}, clock := 0 } }
    let copy : Constructs := { directives := [("broken", broken), ("note", note)] }
    let calls : List LintCall :=
      [⟨".. broken::".toList, {}⟩, ⟨".. note:: text".toList, { ignoreDirectives := ["Note"] }⟩]
    copy.Same l.env.constructs
      ∧ (l.lintAll calls).map (·.1) = calls.map (fun c => ((l.on copy).lint c.text c.options).1)
      ∧ ∀ ns ∈ (l.lintAll calls).map (·.2), ns.Same l.env.constructs := by
  intro note broken l copy calls
  have hcopy : copy.Same l.env.constructs := by
    refine Namespace.same_of_get? ?_ fun _ => rfl
    intro key
    show (if "broken" = key then some broken else if "note" = key then some note else none)
      = if "note" = key then some note else if "broken" = key then some broken else none
    by_cases hb : "broken" = key
    · subst hb
      rfl
    · rw [if_neg hb, if_neg hb]
  exact ⟨hcopy, lints_independent l calls copy hcopy⟩

end Linter

end MarkupLint
