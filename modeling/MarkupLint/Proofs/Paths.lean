import MarkupLint.Files.Tree
import MarkupLint.Proofs.Lines

/-! # Clean paths

    A clean path has names that no step up takes back, so cleaning it again
    changes nothing, and following its names through a file tree leads to
    that very path.  Two clean paths that can be read are thus paths of two
    entries of the tree. -/

namespace MarkupLint

namespace Path

/-- What may stand between the slashes of a path. -/
def IsName (s : String) : Prop := s ≠ "" ∧ s ≠ "." ∧ '/' ∉ s.toList

theorem isName_of_mem_parts {p s : String} (h : s ∈ parts p) : IsName s := by
  simp only [parts, List.mem_filter, List.mem_map, Bool.and_eq_true, decide_eq_true_eq] at h
  obtain ⟨⟨piece, hpiece, rfl⟩, hempty, hdot⟩ := h
  refine ⟨hempty, hdot, ?_⟩
  rw [String.toList_ofList]
  exact Text.not_mem_of_mem_splitOn hpiece

/-- The names of a path that is put together from names. -/
theorem parts_intercalate {names : List String} (h : ∀ s ∈ names, IsName s) :
    parts ("/".intercalate names) = names := by
  cases names with
  | nil => decide
  | cons first rest =>
    have hslash : ∀ l ∈ (first :: rest).map String.toList, '/' ∉ l := by
      intro l hl
      obtain ⟨s, hs, rfl⟩ := List.mem_map.mp hl
      exact (h s hs).2.2
    have hsplit : Text.splitOn '/' ("/".intercalate (first :: rest)).toList
        = (first :: rest).map String.toList := by
      rw [Text.splitOn_eq, String.toList_intercalate]
      exact List.splitOn_intercalate '/' hslash (by simp)
    rw [parts, hsplit, List.map_map, show String.ofList ∘ String.toList = id from
      funext fun s => String.ofList_toList, List.map_id, List.filter_eq_self]
    intro s hs
    simpa using ⟨(h s hs).1, (h s hs).2.1⟩

/-! ## Steps up -/

/-- Names in reverse among which a step up is followed, that is preceded, by
    steps up only. -/
def Stack : List String → Prop
  | [] => True
  | s :: before => (s = ".." → ∀ t ∈ before, t = "..") ∧ Stack before

theorem Stack.up {done : List String} (h : ∀ t ∈ done, t = "..") : Stack (".." :: done) := by
  refine ⟨fun _ => h, ?_⟩
  induction done with
  | nil => trivial
  | cons s before ih =>
    obtain ⟨rfl, hbefore⟩ := List.forall_mem_cons.mp h
    exact ⟨fun _ => hbefore, ih hbefore⟩

/-- Following the names of a stack puts them on the stack. -/
theorem resolveUp_stack {done : List String} (h : Stack done) (rest : List String) :
    resolveUp false [] (done.reverse ++ rest) = resolveUp false done rest := by
  induction done generalizing rest with
  | nil => rfl
  | cons s before ih =>
    obtain ⟨hup, hbefore⟩ := h
    rw [List.reverse_cons, List.append_assoc, ih hbefore, List.singleton_append]
    by_cases hs : s = ".."
    · subst hs
      cases before with
      | nil => rfl
      | cons t before =>
        obtain rfl := hup rfl t List.mem_cons_self
        simp [resolveUp]
    · rw [resolveUp]
      exact hs

theorem resolveUp_eq_reverse {done : List String} (h : Stack done) (names : List String) :
    ∃ done', Stack done' ∧ resolveUp false done names = done'.reverse := by
  induction names generalizing done with
  | nil => exact ⟨done, h, rfl⟩
  | cons s rest ih =>
    by_cases hs : s = ".."
    · subst hs
      cases done with
      | nil =>
        simp only [resolveUp, Bool.false_eq_true, if_false]
        exact ih (.up (by simp))
      | cons t before =>
        simp only [resolveUp]
        split
        · rename_i ht
          subst ht
          exact ih (.up (List.forall_mem_cons.mpr ⟨rfl, h.1 rfl⟩))
        · exact ih h.2
    · obtain ⟨done', hdone', heq⟩ := ih (show Stack (s :: done) from ⟨fun heq => absurd heq hs, h⟩)
      refine ⟨done', hdone', ?_⟩
      rw [resolveUp, heq]
      exact hs

/-- Taking steps back a second time changes nothing. -/
theorem resolveUp_idem (names : List String) :
    resolveUp false [] (resolveUp false [] names) = resolveUp false [] names := by
  obtain ⟨done, hdone, heq⟩ := resolveUp_eq_reverse (show Stack [] from trivial) names
  rw [heq, ← List.append_nil done.reverse, resolveUp_stack hdone, resolveUp, List.append_nil]

theorem mem_resolveUp {rooted : Bool} {done names : List String} {s : String}
    (h : s ∈ resolveUp rooted done names) : s ∈ done ∨ s ∈ names ∨ s = ".." := by
  fun_induction resolveUp rooted done names with
  | case1 done => exact .inl (List.mem_reverse.mp h)
  | case2 rest before ih =>
    rcases ih h with hmem | hmem | rfl
    · exact (List.mem_cons.mp hmem).elim (.inr ∘ .inr) .inl
    · exact .inr (.inl (List.mem_cons_of_mem _ hmem))
    · exact .inr (.inr rfl)
  | case3 rest name before hname ih =>
    rcases ih h with hmem | hmem | rfl
    · exact .inl (List.mem_cons_of_mem _ hmem)
    · exact .inr (.inl (List.mem_cons_of_mem _ hmem))
    · exact .inr (.inr rfl)
  | case4 rest hrooted ih =>
    rcases ih h with hmem | hmem | rfl
    · cases hmem
    · exact .inr (.inl (List.mem_cons_of_mem _ hmem))
    · exact .inr (.inr rfl)
  | case5 rest hrooted ih =>
    rcases ih h with hmem | hmem | rfl
    · exact .inr (.inr (List.mem_singleton.mp hmem))
    · exact .inr (.inl (List.mem_cons_of_mem _ hmem))
    · exact .inr (.inr rfl)
  | case6 done name rest hname ih =>
    rcases ih h with hmem | hmem | rfl
    · rcases List.mem_cons.mp hmem with rfl | hmem
      · exact .inr (.inl List.mem_cons_self)
      · exact .inl hmem
    · exact .inr (.inl (List.mem_cons_of_mem _ hmem))
    · exact .inr (.inr rfl)

/-- The path that names lead to from the working directory. -/
def ofNames (names : List String) : String :=
  if names = [] then "." else "/".intercalate names

theorem parts_ofNames {names : List String} (h : ∀ s ∈ names, IsName s) :
    parts (ofNames names) = names := by
  rw [ofNames]
  split
  · rename_i hnil
    rw [hnil]
    decide
  · exact parts_intercalate h

theorem isName_of_mem_resolveUp {rooted : Bool} {p s : String}
    (h : s ∈ resolveUp rooted [] (parts p)) : IsName s := by
  rcases mem_resolveUp h with h | h | rfl
  · cases h
  · exact isName_of_mem_parts h
  · exact ⟨by decide, by decide, by decide⟩

theorem clean_eq_ofNames {p : String} (h : isAbs p = false) :
    clean p = ofNames (resolveUp false [] (parts p)) := by
  have hparts := parts_intercalate fun s (hs : s ∈ resolveUp false [] (parts p)) =>
    isName_of_mem_resolveUp hs
  simp only [clean, h, Bool.false_eq_true, if_false, ofNames]
  by_cases hnil : resolveUp false [] (parts p) = []
  · rw [if_pos hnil, hnil]
    decide
  · rw [if_neg hnil, if_neg]
    intro hempty
    rw [hempty] at hparts
    exact hnil (hparts.symm.trans (by decide))

/-- The names of a clean path that does not start at the root. -/
theorem parts_clean {p : String} (h : isAbs p = false) :
    parts (clean p) = resolveUp false [] (parts p) := by
  rw [clean_eq_ofNames h]
  exact parts_ofNames fun s => isName_of_mem_resolveUp

theorem clean_ne_empty (p : String) : clean p ≠ "" := by
  simp only [clean]
  split
  · intro h
    have := congrArg String.toList h
    simp at this
  · split
    · decide
    · assumption

theorem isAbs_clean {p : String} (h : isAbs p = true) : isAbs (clean p) = true := by
  simp only [clean, h, if_true]
  rw [isAbs, String.toList_append]
  rfl

end Path

namespace FileTree

variable {t : FileTree} {path q : String}

/-- Following names leads to the path of what is left of them when steps
    are taken back. -/
theorem follow_eq {done names : List String} (h : t.follow done names = .ok q)
    (hdone : ".." ∉ done) :
    q = Path.ofNames (Path.resolveUp false done names) := by
  induction names generalizing done with
  | nil =>
    simp only [follow] at h
    obtain rfl := Except.ok.inj h
    simp [Path.resolveUp, Path.ofNames]
  | cons s rest ih =>
    by_cases hs : s = ".."
    · subst hs
      cases done with
      | nil => simp [follow] at h
      | cons t before =>
        simp only [List.mem_cons, not_or] at hdone
        have hstep : Path.resolveUp false (t :: before) (".." :: rest)
            = Path.resolveUp false before rest := by
          rw [Path.resolveUp, if_neg fun heq => hdone.1 heq.symm]
        simp only [follow] at h
        rw [hstep]
        exact ih h hdone.2
    · have hstep : Path.resolveUp false done (s :: rest) = Path.resolveUp false (s :: done) rest := by
        rw [Path.resolveUp]
        exact hs
      rw [follow] at h
      · rw [hstep]
        split at h
        · cases h
        · refine ih h ?_
          simp only [List.mem_cons, not_or]
          exact ⟨fun heq => hs heq.symm, hdone⟩
        · split at h
          · rename_i hrest
            rw [List.isEmpty_iff.mp hrest]
            obtain rfl := Except.ok.inj h
            simp [Path.resolveUp, Path.ofNames]
          · cases h
      · exact hs

/-- What can be read is a file among the entries, or something out of the
    tree. -/
theorem read_eq_ok {content : Bytes} (h : t.read path = .ok content) :
    (∃ q, t.resolve path = .ok q ∧ t.entries.get? q = some (.file content)) ∨
      t.resolve path = .error .outside ∧ t.beyond path = .ok content := by
  simp only [read] at h
  split at h
  · cases h
  simp only [stat, bind, Except.bind] at h
  cases hresolve : t.resolve path with
  | error e =>
    rw [hresolve] at h
    dsimp only at h
    split at h
    · cases ‹Except.error e = _›
    · cases ‹Except.error e = _›
    · rename_i heq
      obtain rfl := Except.error.inj heq
      exact .inr ⟨rfl, h⟩
    · cases h
  | ok q =>
    refine .inl ⟨q, rfl, ?_⟩
    rw [hresolve] at h
    dsimp only at h
    cases hentry : t.standing? q with
    | none =>
      rw [hentry] at h
      cases h
    | some entry =>
      rw [hentry] at h
      cases entry with
      | directory => cases h
      | file found =>
        cases h
        simp only [standing?] at hentry
        split at hentry
        · cases hentry
        · split at hentry
          · rename_i entry hget
            rw [hget, hentry]
          · split at hentry <;> cases hentry

/-- A path that leads somewhere does not start at the root. -/
theorem not_isAbs_of_resolve (h : t.resolve path = .ok q) : Path.isAbs path = false := by
  simp only [resolve] at h
  split at h
  · cases h
  · split at h
    · cases h
    · rename_i habs
      exact Bool.not_eq_true _ ▸ habs

/-- The names of a path that leads somewhere can be followed there. -/
theorem resolve_follows (h : t.resolve path = .ok q) : t.follow [] (Path.parts path) = .ok q := by
  rw [resolve] at h
  split at h
  · cases h
  · split at h
    · cases h
    split at h
    · cases h
    · cases hfollow : t.follow [] (Path.parts path) with
      | error e =>
        rw [hfollow] at h
        cases h
      | ok p =>
        rw [hfollow] at h
        dsimp only at h
        generalize (decide (path.toList.getLast? = some '/') && _) = atFile at h
        cases atFile with
        | true => cases h
        | false => exact h

/-- **A clean path leads to itself**, if it leads anywhere. -/
theorem resolve_clean {p : String} (h : t.resolve (Path.clean p) = .ok q) : q = Path.clean p := by
  have hrelative : Path.isAbs p = false := by
    have := not_isAbs_of_resolve h
    by_contra habs
    rw [Path.isAbs_clean (by simpa using habs)] at this
    cases this
  have hq := follow_eq (resolve_follows h) (by simp)
  rwa [Path.parts_clean hrelative, Path.resolveUp_idem, ← Path.clean_eq_ofNames hrelative] at hq

end FileTree

end MarkupLint
