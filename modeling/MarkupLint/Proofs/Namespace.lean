import MarkupLint.Construct.Namespace

/-! # What a scope puts back

    A scope binds names and saves what they were bound to before.  `Saved` is
    the invariant of opening one: names that it has not reached are as they
    were, and each name that it has reached is noted once, with its binding
    from before the scope.  So repeated names, and names that differ in case
    or in the space around them, do no harm.

    * `get?_restore_install`: closing gives each name of the scope its earlier
      binding and leaves the other names alone;
    * `closeScope_agreeOff`: whatever happens inside a scope to the names that
      it installs is undone when it is closed. -/

namespace MarkupLint

/-- The names under which constructs with these names are installed. -/
def installedNames (names : List String) : List String :=
  (names.map bindingName).filter (· ≠ "")

/-- An empty name is not installed. -/
theorem installedNames_empty {name : String} (h : bindingName name = "") :
    installedNames [name] = [] := by
  show [bindingName name].filter (· ≠ "") = []
  rw [h]
  rfl

theorem installedNames_single {name : String} (h : bindingName name ≠ "") :
    installedNames [name] = [bindingName name] := by
  show [bindingName name].filter (· ≠ "") = _
  rw [List.filter_cons, if_pos (decide_eq_true h)]
  rfl

theorem installedNames_cons (name : String) (names : List String) :
    installedNames (name :: names) = installedNames [name] ++ installedNames names := by
  unfold installedNames
  rw [← List.filter_append]
  rfl

namespace Data.Table

variable {α : Type}

/-! ## Installing and restoring -/

/-- Names were installed in `t`: the others are as they were, and what the
    names were bound to is noted, once for each. -/
structure Saved (t : Table α) (names : List String) (acc : Table α × Displaced α) : Prop where
  others : ∀ key, key ∉ names → acc.1.get? key = t.get? key
  noted : ∀ key, key ∈ names → acc.2.get? key = some (t.get? key)
  unnoted : ∀ key, key ∉ names → acc.2.get? key = none
  once : acc.2.keys.Nodup

theorem Saved.new (t : Table α) : Saved t [] (t, []) where
  others _ _ := rfl
  noted _ h := nomatch h
  unnoted _ _ := rfl
  once := List.Pairwise.nil

/-- A name that was installed is installed again: nothing more is noted. -/
theorem Saved.again {t : Table α} {names : List String} {acc : Table α × Displaced α}
    (h : Saved t names acc) {name : String} (hn : name ∈ names) (v : α) :
    Saved t (names ++ [name]) (acc.1.set name v, acc.2) where
  others key hkey := by
    rw [List.mem_append, List.mem_singleton, not_or] at hkey
    rw [get?_set_of_ne _ _ hkey.2]
    exact h.others key hkey.1
  noted key hkey := by
    rcases List.mem_append.mp hkey with hk | hk
    · exact h.noted key hk
    · rw [List.mem_singleton.mp hk]
      exact h.noted name hn
  unnoted key hkey := h.unnoted key fun hk => hkey (List.mem_append_left _ hk)
  once := h.once

/-- A new name is installed: what it was bound to is noted. -/
theorem Saved.first {t : Table α} {names : List String} {acc : Table α × Displaced α}
    (h : Saved t names acc) {name : String} (hn : name ∉ names) (v : α) :
    Saved t (names ++ [name]) (acc.1.set name v, acc.2 ++ [(name, acc.1.get? name)]) where
  others key hkey := by
    rw [List.mem_append, List.mem_singleton, not_or] at hkey
    rw [get?_set_of_ne _ _ hkey.2]
    exact h.others key hkey.1
  noted key hkey := by
    rw [get?_append]
    rcases List.mem_append.mp hkey with hk | hk
    · rw [h.noted key hk]
      rfl
    · rw [List.mem_singleton.mp hk, h.unnoted name hn, h.others name hn]
      exact if_pos rfl
  unnoted key hkey := by
    rw [List.mem_append, List.mem_singleton, not_or] at hkey
    rw [get?_append, h.unnoted key hkey.1]
    exact if_neg fun he => hkey.2 he.symm
  once := by
    have hkeys : (acc.2 ++ [(name, acc.1.get? name)]).keys = acc.2.keys ++ [name] := List.map_append
    have hnew : name ∉ acc.2.keys := (get?_eq_none_iff acc.2 name).mp (h.unnoted name hn)
    rw [hkeys, List.nodup_append]
    refine ⟨h.once, List.pairwise_singleton _ _, ?_⟩
    rintro a ha b hb rfl
    rw [List.mem_singleton.mp hb] at ha
    exact hnew ha

/-- The step: one more binding is installed. -/
theorem Saved.step {t : Table α} {names : List String} {acc : Table α × Displaced α}
    (h : Saved t names acc) (b : String × α) :
    Saved t (names ++ installedNames [b.1]) (installOne acc b) := by
  unfold installOne
  dsimp only
  by_cases hempty : bindingName b.1 = ""
  · rw [if_pos hempty, installedNames_empty hempty, List.append_nil]
    exact h
  · rw [if_neg hempty, installedNames_single hempty]
    by_cases hn : bindingName b.1 ∈ names
    · have hhas : acc.2.has (bindingName b.1) = true := by
        unfold has
        rw [h.noted _ hn]
        rfl
      rw [if_pos hhas]
      exact h.again hn b.2
    · have hhas : ¬ acc.2.has (bindingName b.1) = true := by
        unfold has
        rw [h.unnoted _ hn]
        exact Bool.false_ne_true
      rw [if_neg hhas]
      exact h.first hn b.2

/-- The run: all bindings of a scope are installed. -/
theorem saved_foldl {t : Table α} (bindings : List (String × α)) {names : List String}
    {acc : Table α × Displaced α} (h : Saved t names acc) :
    Saved t (names ++ installedNames (bindings.map (·.1))) (bindings.foldl installOne acc) := by
  induction bindings generalizing names acc with
  | nil =>
      show Saved t (names ++ []) acc
      rw [List.append_nil]
      exact h
  | cons b rest ih =>
      rw [List.map_cons, installedNames_cons, ← List.append_assoc, List.foldl_cons]
      exact ih (h.step b)

theorem get?_restoreOne_self (t : Table α) (name : String) (earlier : Option α) :
    (t.restoreOne (name, earlier)).get? name = earlier := by
  cases earlier with
  | some v => exact get?_set_self t name v
  | none => exact get?_erase_self t name

theorem get?_restoreOne_of_ne (t : Table α) {name other : String} (earlier : Option α)
    (h : other ≠ name) : (t.restoreOne (name, earlier)).get? other = t.get? other := by
  cases earlier with
  | some v => exact get?_set_of_ne t v h
  | none => exact get?_erase_of_ne t h

/-- Restoring gives each name that was noted what was noted for it. -/
theorem get?_restore (u : Table α) {displaced : Displaced α} (hd : displaced.keys.Nodup)
    (key : String) :
    (u.restore displaced).get? key = (displaced.get? key).getD (u.get? key) := by
  induction displaced generalizing u with
  | nil => rfl
  | cons p rest ih =>
      obtain ⟨name, earlier⟩ := p
      obtain ⟨hnew, hrest⟩ := List.nodup_cons.mp hd
      show (restore (restoreOne u (name, earlier)) rest).get? key = _
      rw [ih (restoreOne u (name, earlier)) hrest, get?_cons]
      by_cases hk : name = key
      · -- the rest does not touch this name again
        subst hk
        rw [if_pos rfl, (get?_eq_none_iff rest name).mpr hnew]
        exact get?_restoreOne_self u name earlier
      · rw [if_neg hk, get?_restoreOne_of_ne u earlier (Ne.symm hk)]

theorem get?_install_of_notMem (t : Table α) (bindings : List (String × α)) {key : String}
    (hkey : key ∉ installedNames (bindings.map (·.1))) :
    (t.install bindings).1.get? key = t.get? key :=
  (saved_foldl bindings (Saved.new t)).others key hkey

/-- **Restoring undoes installing**, whatever became of the table meanwhile:
    an installed name gets back what it was bound to, any other name keeps
    what it is bound to. -/
theorem get?_restore_install (t u : Table α) (bindings : List (String × α)) (key : String) :
    (u.restore (t.install bindings).2).get? key
      = if key ∈ installedNames (bindings.map (·.1)) then t.get? key else u.get? key := by
  have hsaved : Saved t (installedNames (bindings.map (·.1))) (t.install bindings) :=
    saved_foldl bindings (Saved.new t)
  rw [get?_restore u hsaved.once]
  by_cases hkey : key ∈ installedNames (bindings.map (·.1))
  · rw [if_pos hkey, hsaved.noted key hkey]
    rfl
  · rw [if_neg hkey, hsaved.unnoted key hkey]
    rfl

end Data.Table

/-! ## Namespaces -/

/-- A name in one of the two tables of a namespace. -/
inductive Label where
  | directive (key : String)
  | role (key : String)
  deriving DecidableEq

/-- The labels that a scope with these names installs. -/
def installedLabels (directives roles : List String) : List Label :=
  (installedNames directives).map .directive ++ (installedNames roles).map .role

theorem directive_mem_installedLabels (directives roles : List String) (key : String) :
    Label.directive key ∈ installedLabels directives roles ↔ key ∈ installedNames directives := by
  simp [installedLabels]

theorem role_mem_installedLabels (directives roles : List String) (key : String) :
    Label.role key ∈ installedLabels directives roles ↔ key ∈ installedNames roles := by
  simp [installedLabels]

namespace Namespace

variable {δ ρ : Type}

/-- What a label is bound to. -/
def binding? (ns : Namespace δ ρ) : Label → Option (δ ⊕ ρ)
  | .directive key => (ns.directives.get? key).map .inl
  | .role key => (ns.roles.get? key).map .inr

/-- Two namespaces bind every label alike, but for some. -/
def AgreeOff (labels : List Label) (a b : Namespace δ ρ) : Prop :=
  ∀ l, l ∉ labels → a.binding? l = b.binding? l

theorem AgreeOff.refl (labels : List Label) (ns : Namespace δ ρ) : AgreeOff labels ns ns :=
  fun _ _ => rfl

theorem AgreeOff.trans {labels : List Label} {a b c : Namespace δ ρ} (hab : AgreeOff labels a b)
    (hbc : AgreeOff labels b c) : AgreeOff labels a c :=
  fun l hl => (hab l hl).trans (hbc l hl)

theorem AgreeOff.mono {labels more : List Label} {a b : Namespace δ ρ} (h : AgreeOff labels a b)
    (hsub : labels ⊆ more) : AgreeOff more a b :=
  fun l hl => h l fun hm => hl (hsub hm)

theorem AgreeOff.get?_directives {labels : List Label} {a b : Namespace δ ρ}
    (h : AgreeOff labels a b) {key : String} (hkey : .directive key ∉ labels) :
    a.directives.get? key = b.directives.get? key :=
  Option.map_injective (fun _ _ => Sum.inl.inj) (h (.directive key) hkey)

theorem AgreeOff.get?_roles {labels : List Label} {a b : Namespace δ ρ}
    (h : AgreeOff labels a b) {key : String} (hkey : .role key ∉ labels) :
    a.roles.get? key = b.roles.get? key :=
  Option.map_injective (fun _ _ => Sum.inr.inj) (h (.role key) hkey)

/-- Binds a directive, or unbinds it if there is none to bind. -/
def bindDirective (ns : Namespace δ ρ) (name : String) : Option δ → Namespace δ ρ
  | some d => ns.registerDirective name d
  | none => ns.removeDirective name

/-- Binds a role, or unbinds it if there is none to bind. -/
def bindRole (ns : Namespace δ ρ) (name : String) : Option ρ → Namespace δ ρ
  | some r => ns.registerRole name r
  | none => ns.removeRole name

theorem bindDirective_eq (ns : Namespace δ ρ) (name : String) (value : Option δ) :
    ns.bindDirective name value
      = { ns with directives := ns.directives.restoreOne (bindingName name, value) } := by
  cases value with
  | some d => rfl
  | none => rfl

theorem bindRole_eq (ns : Namespace δ ρ) (name : String) (value : Option ρ) :
    ns.bindRole name value
      = { ns with roles := ns.roles.restoreOne (bindingName name, value) } := by
  cases value with
  | some r => rfl
  | none => rfl

/-- Binding a directive concerns its label alone. -/
theorem bindDirective_agreeOff (ns : Namespace δ ρ) (name : String) (value : Option δ) :
    AgreeOff [.directive (bindingName name)] (ns.bindDirective name value) ns := by
  intro l hl
  rw [bindDirective_eq]
  cases l with
  | role key => rfl
  | directive key =>
      have hne : key ≠ bindingName name := fun he => hl (List.mem_singleton.mpr (congrArg _ he))
      exact congrArg (Option.map _) (Data.Table.get?_restoreOne_of_ne _ value hne)

/-- Binding a role concerns its label alone. -/
theorem bindRole_agreeOff (ns : Namespace δ ρ) (name : String) (value : Option ρ) :
    AgreeOff [.role (bindingName name)] (ns.bindRole name value) ns := by
  intro l hl
  rw [bindRole_eq]
  cases l with
  | directive key => rfl
  | role key =>
      have hne : key ≠ bindingName name := fun he => hl (List.mem_singleton.mpr (congrArg _ he))
      exact congrArg (Option.map _) (Data.Table.get?_restoreOne_of_ne _ value hne)

/-- Opening a scope concerns the labels that it installs. -/
theorem openScope_agreeOff (ns : Namespace δ ρ) (directives : List (String × δ))
    (roles : List (String × ρ)) :
    AgreeOff (installedLabels (directives.map (·.1)) (roles.map (·.1)))
      (ns.openScope directives roles).2 ns := by
  intro l hl
  cases l with
  | directive key =>
      rw [directive_mem_installedLabels] at hl
      exact congrArg (Option.map _) (Data.Table.get?_install_of_notMem ns.directives directives hl)
  | role key =>
      rw [role_mem_installedLabels] at hl
      exact congrArg (Option.map _) (Data.Table.get?_install_of_notMem ns.roles roles hl)

/-- Closing a scope gives the labels that it installed what they were bound to
    before it was opened, and leaves the others alone. -/
theorem binding?_closeScope (ns after : Namespace δ ρ) (directives : List (String × δ))
    (roles : List (String × ρ)) (l : Label) :
    (after.closeScope (ns.openScope directives roles).1).2.binding? l
      = if l ∈ installedLabels (directives.map (·.1)) (roles.map (·.1)) then ns.binding? l
        else after.binding? l := by
  cases l with
  | directive key =>
      have h := Data.Table.get?_restore_install ns.directives after.directives directives key
      refine (congrArg (Option.map Sum.inl) h).trans ?_
      simp only [directive_mem_installedLabels, apply_ite (Option.map Sum.inl)]
      rfl
  | role key =>
      have h := Data.Table.get?_restore_install ns.roles after.roles roles key
      refine (congrArg (Option.map Sum.inr) h).trans ?_
      simp only [role_mem_installedLabels, apply_ite (Option.map Sum.inr)]
      rfl

/-- **A scope undoes itself**: if all that was changed inside are labels that
    it installed and labels known outside, then after closing only those known
    outside may be changed. -/
theorem closeScope_agreeOff {known : List Label} {ns after : Namespace δ ρ}
    {directives : List (String × δ)} {roles : List (String × ρ)}
    (h : AgreeOff (known ++ installedLabels (directives.map (·.1)) (roles.map (·.1))) after
      (ns.openScope directives roles).2) :
    AgreeOff known (after.closeScope (ns.openScope directives roles).1).2 ns := by
  intro l hl
  rw [binding?_closeScope]
  by_cases hin : l ∈ installedLabels (directives.map (·.1)) (roles.map (·.1))
  · rw [if_pos hin]
  · rw [if_neg hin, h l, openScope_agreeOff ns directives roles l hin]
    rw [List.mem_append, not_or]
    exact ⟨hl, hin⟩

theorem closeScope_released (ns : Namespace δ ρ) (r : Registration δ ρ) :
    (ns.closeScope r).1.released = true := by
  unfold closeScope
  split
  · assumption
  · rfl

/-- A scope that was closed does nothing when it is closed again. -/
theorem closeScope_of_released (ns : Namespace δ ρ) {r : Registration δ ρ}
    (h : r.released = true) : ns.closeScope r = (r, ns) := if_pos h

/-- Implementations are given the names that were asked for. -/
theorem implemented_names {α : Type} {missing : String → MissingConstruct}
    {given : List (String × Option α)} {found : List (String × α)}
    (h : implemented missing given = .ok found) : found.map (·.1) = given.map (·.1) := by
  induction given generalizing found with
  | nil =>
      cases h
      rfl
  | cons p rest ih =>
      obtain ⟨name, x⟩ := p
      unfold implemented at h
      rw [List.mapM_cons] at h
      cases x with
      | none => exact nomatch h
      | some x =>
          cases hrest : implemented missing rest with
          | error m =>
              unfold implemented at hrest
              rw [hrest] at h
              exact nomatch h
          | ok more =>
              have hmore := ih hrest
              unfold implemented at hrest
              rw [hrest] at h
              cases h
              rw [List.map_cons, List.map_cons, hmore]

/-- Constructs are put into use in a scope with their names, or not at all. -/
theorem withConstructs_cases {α : Type} (ns : Namespace δ ρ)
    (directives : List (String × Option δ)) (roles : List (String × Option ρ))
    (body : Namespace δ ρ → α × Namespace δ ρ) :
    (∃ m, ns.withConstructs directives roles body = .error m)
      ∨ ∃ ds rs, ds.map (·.1) = directives.map (·.1) ∧ rs.map (·.1) = roles.map (·.1)
        ∧ ns.withConstructs directives roles body = .ok (ns.withScope ds rs body) := by
  unfold withConstructs
  cases hd : implemented .directive directives with
  | error m => exact .inl ⟨m, rfl⟩
  | ok ds =>
      cases hr : implemented .role roles with
      | error m => exact .inl ⟨m, rfl⟩
      | ok rs => exact .inr ⟨ds, rs, implemented_names hd, implemented_names hr, rfl⟩

end Namespace

end MarkupLint
