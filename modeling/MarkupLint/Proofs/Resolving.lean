import MarkupLint.Proofs.Listing

/-! # What arguments stand for

    An argument stands for the sorted paths that it matches, for the
    documents of a directory, or for itself (`Resolver.Expands`).  The files
    of some arguments are what the arguments stand for, one after the other
    and as they first occur; if every argument can be looked up and some
    stand for nothing, these are reported
    (`Resolver.resolve_expands`). -/

namespace MarkupLint

/-- What occurs in a list, once and in the order in which it first occurs. -/
structure FirstOccurrences (all once : List String) : Prop where
  nodup : once.Nodup
  mem : ∀ p, p ∈ once ↔ p ∈ all
  inOrder : once.Pairwise fun p q => all.idxOf p < all.idxOf q

namespace Resolver

variable {r : Resolver} {t : FileTree} {arg : String} {args files : List String}
  {expansions : List (List String)}

/-! ## Without repeats -/

theorem dedupe_concat (all : List String) (p : String) :
    dedupe (all ++ [p]) = if p ∈ dedupe all then dedupe all else dedupe all ++ [p] := by
  simp only [dedupe, List.foldl_append, List.foldl_cons, List.foldl_nil, List.contains_iff_mem]

theorem dedupe_firstOccurrences (all : List String) : FirstOccurrences all (dedupe all) := by
  induction all using List.reverseRecOn with
  | nil => exact ⟨List.nodup_nil, fun _ => Iff.rfl, List.Pairwise.nil⟩
  | append_singleton all p ih =>
    -- What occurred before keeps its place; the last path is new or is passed over.
    have hearlier : (dedupe all).Pairwise fun q q' =>
        (all ++ [p]).idxOf q < (all ++ [p]).idxOf q' :=
      ih.inOrder.imp_of_mem fun hq hq' h => by
        rwa [List.idxOf_append_of_mem ((ih.mem _).mp hq), List.idxOf_append_of_mem ((ih.mem _).mp hq')]
    rw [dedupe_concat]
    by_cases hp : p ∈ dedupe all
    · rw [if_pos hp]
      refine ⟨ih.nodup, fun q => ?_, hearlier⟩
      rw [ih.mem, List.mem_append, List.mem_singleton]
      exact ⟨.inl, fun h => h.elim id fun heq => heq ▸ (ih.mem p).mp hp⟩
    · rw [if_neg hp]
      have hnew : p ∉ all := fun h => hp ((ih.mem p).mpr h)
      refine ⟨List.nodup_append.mpr ⟨ih.nodup, List.pairwise_singleton _ _, ?_⟩, fun q => ?_,
        List.pairwise_append.mpr ⟨hearlier, List.pairwise_singleton _ _, ?_⟩⟩
      · rintro q hq p' hp' rfl
        exact hp (List.mem_singleton.mp hp' ▸ hq)
      · rw [List.mem_append, List.mem_append, ih.mem]
      · intro q hq p' hp'
        obtain rfl := List.mem_singleton.mp hp'
        have hmem := (ih.mem q).mp hq
        rw [List.idxOf_append_of_mem hmem, List.idxOf_append_of_notMem hnew]
        exact Nat.lt_of_lt_of_le (List.idxOf_lt_length_of_mem hmem) (Nat.le_add_right _ _)

/-! ## One argument -/

/-- What the matcher finds for a pattern, in its own order; none if it
    refuses the pattern, as it does one that starts at the root if only names
    below a directory can be matched. -/
def found? (r : Resolver) (t : FileTree) (pattern : String) : Option (List String) :=
  if Path.isAbs pattern then if r.base.isNone then none else r.outside pattern
  else t.globWithin ((Path.clean pattern).length + 1) (Path.clean pattern).toList

/-- The argument is a pattern and is malformed. -/
def Refused (r : Resolver) (t : FileTree) (arg : String) : Prop :=
  Glob.hasSpecial arg.toList = true ∧ r.found? t arg = none

/-- The argument is a directory and cannot be walked. -/
def Fails (r : Resolver) (t : FileTree) (arg : String) : Prop :=
  Glob.hasSpecial arg.toList = false ∧ Path.isAbs arg = false ∧
    t.isDirectory (Path.clean arg) = true ∧ r.fault? (Path.clean arg) ≠ none

/-- What an argument stands for. -/
inductive Expands (r : Resolver) (t : FileTree) (arg : String) : List String → Prop
  | plain (name : Glob.hasSpecial arg.toList = false)
      (noDirectory : Path.isAbs arg = true ∨ t.isDirectory (Path.clean arg) = false) :
      Expands r t arg [arg]
  | directory {paths : List String} (name : Glob.hasSpecial arg.toList = false)
      (relative : Path.isAbs arg = false) (isDirectory : t.isDirectory (Path.clean arg) = true)
      (walks : r.fault? (Path.clean arg) = none) (sorted : paths.Pairwise (· < ·))
      (documents : ∀ p, p ∈ paths ↔ t.IsDocument r.extensions (Path.clean arg) p) :
      Expands r t arg (paths.map r.joined)
  | pattern {found paths : List String} (special : Glob.hasSpecial arg.toList = true)
      (finds : r.found? t arg = some found) (perm : paths.Perm found)
      (sorted : paths.Pairwise (· ≤ ·)) : Expands r t arg (paths.map r.joined)

/-- What is in order has one order only. -/
theorem eq_of_pairwise_lt {xs ys : List String} (hxs : xs.Pairwise (· < ·))
    (hys : ys.Pairwise (· < ·)) (hmem : ∀ p, p ∈ xs ↔ p ∈ ys) : xs = ys := by
  have hnodup : ∀ zs : List String, zs.Pairwise (· < ·) → zs.Nodup := fun zs hzs =>
    hzs.imp fun hlt => by
      rintro rfl
      exact String.lt_irrefl _ hlt
  refine List.Perm.eq_of_pairwise (fun a b _ _ hab hba => ?_) hxs hys
    ((List.perm_ext_iff_of_nodup (hnodup xs hxs) (hnodup ys hys)).mpr hmem)
  exact absurd (String.lt_trans hab hba) (String.lt_irrefl a)

/-- An argument stands for one thing only. -/
theorem Expands.unique {files' : List String} (h : r.Expands t arg files)
    (h' : r.Expands t arg files') : files = files' := by
  cases h with
  | plain name noDirectory =>
    cases h' with
    | plain => rfl
    | directory _ relative isDirectory => simp [relative, isDirectory] at noDirectory
    | pattern special => cases name.symm.trans special
  | directory name relative isDirectory _ sorted documents =>
    cases h' with
    | plain _ noDirectory => simp [relative, isDirectory] at noDirectory
    | directory _ _ _ _ sorted' documents' =>
      exact congrArg _ (eq_of_pairwise_lt sorted sorted' fun p => (documents p).trans (documents' p).symm)
    | pattern special => cases name.symm.trans special
  | pattern special finds perm sorted =>
    cases h' with
    | plain name => cases name.symm.trans special
    | directory name => cases name.symm.trans special
    | pattern _ finds' perm' sorted' =>
      obtain rfl := Option.some.inj (finds.symm.trans finds')
      exact congrArg _ (List.Perm.eq_of_pairwise (fun _ _ _ _ => String.le_antisymm) sorted sorted'
        (perm.trans perm'.symm))

/-- Files, or none if there are none. -/
def shown (files : List String) : Option (List String) := if files.isEmpty then none else some files

theorem glob_cases (r : Resolver) (t : FileTree) (arg : String) :
    (∃ found, r.found? t arg = some found ∧
      r.glob t arg = .ok (found.mergeSort fun a b => a ≤ b)) ∨
    (r.found? t arg = none ∧
      (r.glob t arg = .error (.rooted arg) ∨ r.glob t arg = .error (.malformed arg))) := by
  rw [glob, found?]
  by_cases habs : Path.isAbs arg = true
  · rw [if_pos habs, if_pos habs]
    by_cases hbase : r.base.isNone = true
    · rw [if_pos hbase, if_pos hbase]
      exact .inr ⟨rfl, .inl rfl⟩
    · rw [if_neg hbase, if_neg hbase]
      cases r.outside arg with
      | some found => exact .inl ⟨found, rfl, rfl⟩
      | none => exact .inr ⟨rfl, .inr rfl⟩
  · rw [if_neg habs, if_neg habs, FileTree.glob]
    cases t.globWithin ((Path.clean arg).length + 1) (Path.clean arg).toList with
    | some found => exact .inl ⟨found, rfl, rfl⟩
    | none => exact .inr ⟨rfl, .inr rfl⟩

/-- An argument is expanded, refused, or cannot be looked up. -/
theorem expand_cases (r : Resolver) (ht : t.WellFormed) (arg : String) :
    (∃ files, r.Expands t arg files ∧ r.expand t arg = .ok (shown files)) ∨
    (r.Refused t arg ∧ (r.expand t arg = .error (.rooted arg) ∨
      r.expand t arg = .error (.malformed arg))) ∨
    (r.Fails t arg ∧ ∃ reason, r.expand t arg = .error (.walk (Path.clean arg) reason)) := by
  have hshown : ∀ paths : List String,
      (if paths.isEmpty then none else some (paths.map r.joined)) = shown (paths.map r.joined) := by
    intro paths
    rw [shown, List.isEmpty_map]
  simp only [expand, hshown]
  by_cases hspecial : Glob.hasSpecial arg.toList = true
  · rw [if_pos hspecial]
    rcases glob_cases r t arg with ⟨found, hfound, hrun⟩ | ⟨hfound, hrun⟩
    · rw [hrun]
      exact .inl ⟨_, .pattern hspecial hfound (List.mergeSort_perm _ _)
        (FileTree.pairwise_mergeSort_le _), rfl⟩
    · refine .inr (.inl ⟨⟨hspecial, hfound⟩, hrun.imp ?_ ?_⟩) <;>
      · intro hrun
        rw [hrun]
        rfl
  rw [if_neg hspecial]
  rw [Bool.not_eq_true] at hspecial
  by_cases hdir : (!Path.isAbs arg && t.isDirectory (Path.clean arg)) = true
  · rw [if_pos hdir]
    obtain ⟨hrelative, hdir⟩ := Bool.and_eq_true_iff.mp hdir
    rw [Bool.not_eq_true'] at hrelative
    cases hfault : r.fault? (Path.clean arg) with
    | some reason =>
      exact .inr (.inr ⟨⟨hspecial, hrelative, hdir, by rw [hfault]; nofun⟩, reason, rfl⟩)
    | none =>
      obtain ⟨ds, hds, hclean⟩ := ht.downward_of_isDirectory hrelative hdir
      refine .inl ⟨_, .directory hspecial hrelative hdir hfault ?_ fun p => ?_, rfl⟩
      · rw [hclean]
        exact ht.pairwise_documents hds
      · rw [hclean]
        exact ht.mem_documents_iff hds
  · rw [if_neg hdir]
    refine .inl ⟨[arg], .plain hspecial ?_, rfl⟩
    rw [Bool.and_eq_true, not_and_or, Bool.not_eq_true', Bool.not_eq_false, Bool.not_eq_true] at hdir
    exact hdir

/-- What is expanded was looked up. -/
theorem Expands.looked_up (h : r.Expands t arg files) : ¬r.Refused t arg ∧ ¬r.Fails t arg := by
  cases h with
  | plain name noDirectory =>
    refine ⟨fun h => ?_, fun h => ?_⟩
    · cases name.symm.trans h.1
    · obtain ⟨-, hrelative, hdir, -⟩ := h
      simp [hrelative, hdir] at noDirectory
  | directory name _ _ walks =>
    refine ⟨fun h => ?_, fun h => h.2.2.2 walks⟩
    cases name.symm.trans h.1
  | pattern special finds =>
    refine ⟨fun h => ?_, fun h => ?_⟩
    · cases finds.symm.trans h.2
    · cases special.symm.trans h.1

/-! ## All arguments -/

/-- What is found for the arguments, each with its files. -/
theorem resolve_eq (hfiles : r.files = some t) (hargs : args ≠ []) :
    r.resolve args = (args.mapM fun arg => (r.expand t arg).map fun files => (arg, files)) >>=
      fun found =>
        if ((found.filter (·.2.isNone)).map (·.1)).isEmpty then
          .ok (dedupe (found.flatMap fun p => p.2.getD []))
        else .error (.noMatch ((found.filter (·.2.isNone)).map (·.1))) := by
  rw [resolve, hfiles]
  dsimp only
  rw [if_neg fun h => hargs (List.isEmpty_iff.mp h)]

open Classical in
/-- If every argument can be looked up, all are expanded. -/
theorem expand_all (ht : t.WellFormed)
    (hgood : ∀ arg ∈ args, ¬r.Refused t arg ∧ ¬r.Fails t arg) :
    ∃ expansions found, List.Forall₂ (r.Expands t) args expansions ∧
      (args.mapM fun arg => (r.expand t arg).map fun files => (arg, files)) = .ok found ∧
      (found.filter (·.2.isNone)).map (·.1) = args.filter (fun arg => r.Expands t arg []) ∧
      (found.flatMap fun p => p.2.getD []) = expansions.flatten := by
  induction args with
  | nil => exact ⟨[], [], .nil, rfl, rfl, rfl⟩
  | cons arg args ih =>
    obtain ⟨hfirst, hrest⟩ := List.forall_mem_cons.mp hgood
    obtain ⟨expansions, found, hexpansions, hfound, hmissing, hall⟩ := ih hrest
    obtain ⟨files, hexpands, hrun⟩ := (expand_cases r ht arg).resolve_right fun h =>
      h.elim (fun h => hfirst.1 h.1) fun h => hfirst.2 h.1
    refine ⟨files :: expansions, (arg, shown files) :: found, .cons hexpands hexpansions, ?_, ?_, ?_⟩
    · rw [List.mapM_cons, hrun, hfound]
      rfl
    -- An argument that stands for nothing is reported, and adds no file.
    · by_cases hnil : files = []
      · have hnothing : r.Expands t arg [] := hnil ▸ hexpands
        rw [List.filter_cons_of_pos (by simp [shown, hnil]), List.map_cons, hmissing,
          List.filter_cons_of_pos (by simpa using hnothing)]
      · have hsome : ¬r.Expands t arg [] := fun h => hnil (hexpands.unique h)
        rw [List.filter_cons_of_neg (by simp [shown, hnil]), hmissing,
          List.filter_cons_of_neg (by simpa using hsome)]
    · rw [List.flatMap_cons, hall, List.flatten_cons]
      congr 1
      cases files <;> rfl

/-- If an argument cannot be expanded, that is the error. -/
theorem expand_some (ht : t.WellFormed) (hbad : ∃ arg ∈ args, r.Refused t arg ∨ r.Fails t arg) :
    ∃ e, (∀ missing, e ≠ .noMatch missing) ∧
      (args.mapM fun arg => (r.expand t arg).map fun files => (arg, files)) = .error e := by
  induction args with
  | nil => simp at hbad
  | cons arg args ih =>
    rw [List.mapM_cons]
    rcases expand_cases r ht arg with ⟨files, hexpands, hrun⟩ | ⟨-, hrun | hrun⟩ | ⟨-, reason, hrun⟩
    -- This argument is looked up, so it is another one that cannot be.
    · obtain ⟨bad, hmem, hbad⟩ := hbad
      have hrest : bad ∈ args := by
        rcases List.mem_cons.mp hmem with rfl | hrest
        · exact absurd hbad (not_or.mpr hexpands.looked_up)
        · exact hrest
      obtain ⟨e, hne, hrun'⟩ := ih ⟨bad, hrest, hbad⟩
      refine ⟨e, hne, ?_⟩
      rw [hrun, hrun']
      rfl
    · exact ⟨.rooted arg, nofun, by rw [hrun]; rfl⟩
    · exact ⟨.malformed arg, nofun, by rw [hrun]; rfl⟩
    · exact ⟨.walk _ reason, nofun, by rw [hrun]; rfl⟩

/-- If an argument cannot be looked up, that is the error. -/
theorem resolve_some (hfiles : r.files = some t) (ht : t.WellFormed)
    (hbad : ∃ arg ∈ args, r.Refused t arg ∨ r.Fails t arg) :
    ∃ e, (∀ missing, e ≠ .noMatch missing) ∧ r.resolve args = .error e := by
  have hargs : args ≠ [] := by
    rintro rfl
    simp at hbad
  obtain ⟨e, hne, hrun⟩ := expand_some ht hbad
  exact ⟨e, hne, by rw [resolve_eq hfiles hargs, hrun]; rfl⟩

open Classical in
/-- If every argument can be looked up, the error is that some stand for
    nothing. -/
theorem resolve_all (hfiles : r.files = some t) (ht : t.WellFormed) (hargs : args ≠ [])
    (hgood : ∀ arg ∈ args, ¬r.Refused t arg ∧ ¬r.Fails t arg) :
    ∃ expansions, List.Forall₂ (r.Expands t) args expansions ∧
      r.resolve args = if (args.filter fun arg => r.Expands t arg []) = [] then
          .ok (dedupe expansions.flatten)
        else .error (.noMatch (args.filter fun arg => r.Expands t arg [])) := by
  obtain ⟨expansions, found, hexpands, hrun, hmissing, hall⟩ := expand_all ht hgood
  refine ⟨expansions, hexpands, ?_⟩
  rw [resolve_eq hfiles hargs, hrun]
  dsimp only [bind, Except.bind]
  rw [hmissing, hall]
  simp only [List.isEmpty_iff]

open Classical in
/-- **Arguments stand for their files, in order and once.**  If files are
    found, they are what the arguments stand for, one argument after the
    other, each as it first occurs.  They are found just if every argument
    can be looked up and stands for something.  That some arguments stand for
    nothing is the error just if every argument can be looked up; these are
    the arguments in the error. -/
theorem resolve_expands (hfiles : r.files = some t) (ht : t.WellFormed) (hargs : args ≠ []) :
    (∀ files, r.resolve args = .ok files → ∃ expansions,
      List.Forall₂ (r.Expands t) args expansions ∧ FirstOccurrences expansions.flatten files) ∧
    ((∃ files, r.resolve args = .ok files) ↔
      ∀ arg ∈ args, ¬r.Refused t arg ∧ ¬r.Fails t arg ∧ ¬r.Expands t arg []) ∧
    ∀ missing, r.resolve args = .error (.noMatch missing) ↔
      (∀ arg ∈ args, ¬r.Refused t arg ∧ ¬r.Fails t arg) ∧ (∃ arg ∈ args, r.Expands t arg []) ∧
        missing = args.filter fun arg => r.Expands t arg [] := by
  by_cases hbad : ∃ arg ∈ args, r.Refused t arg ∨ r.Fails t arg
  -- An argument that cannot be looked up is an error of another kind.
  · obtain ⟨e, hne, hrun⟩ := resolve_some hfiles ht hbad
    obtain ⟨bad, hmem, hbad⟩ := hbad
    rw [hrun]
    refine ⟨nofun, ⟨nofun, fun h => ?_⟩, fun missing => ⟨fun h => ?_, fun h => ?_⟩⟩
    · obtain ⟨hrefused, hfails, -⟩ := h bad hmem
      exact absurd hbad (not_or.mpr ⟨hrefused, hfails⟩)
    · exact absurd (Except.error.inj h) (hne missing)
    · exact absurd hbad (not_or.mpr (h.1 bad hmem))
  have hgood : ∀ arg ∈ args, ¬r.Refused t arg ∧ ¬r.Fails t arg := fun arg hmem =>
    not_or.mp fun h => hbad ⟨arg, hmem, h⟩
  obtain ⟨expansions, hexpands, hrun⟩ := resolve_all hfiles ht hargs hgood
  rw [hrun]
  by_cases hnone : (args.filter fun arg => r.Expands t arg []) = []
  · rw [if_pos hnone]
    have hsome : ∀ arg ∈ args, ¬r.Expands t arg [] := by simpa using List.filter_eq_nil_iff.mp hnone
    refine ⟨fun files h => ?_, ⟨fun _ arg hmem => ?_, fun _ => ⟨_, rfl⟩⟩, fun missing => ⟨nofun, ?_⟩⟩
    · obtain rfl := Except.ok.inj h
      exact ⟨expansions, hexpands, dedupe_firstOccurrences _⟩
    · exact ⟨(hgood arg hmem).1, (hgood arg hmem).2, hsome arg hmem⟩
    · rintro ⟨-, ⟨arg, hmem, hnothing⟩, -⟩
      exact absurd hnothing (hsome arg hmem)
  · rw [if_neg hnone]
    obtain ⟨arg, hmem⟩ := List.exists_mem_of_ne_nil _ hnone
    obtain ⟨hmem, hnothing⟩ := List.mem_filter.mp hmem
    have hnothing : r.Expands t arg [] := of_decide_eq_true hnothing
    refine ⟨nofun, ⟨nofun, fun h => absurd hnothing (h arg hmem).2.2⟩, fun missing => ⟨fun h => ?_, ?_⟩⟩
    · exact ⟨hgood, ⟨arg, hmem, hnothing⟩, (ResolveError.noMatch.inj (Except.error.inj h)).symm⟩
    · rintro ⟨-, -, rfl⟩
      rfl

/-- A directory with a file whose extension is in capitals, after a file that
    is not there and before the file itself. -/
theorem resolve_expands_directory :
    ∃ (r : Resolver) (t : FileTree), r.files = some t ∧ t.WellFormed ∧
      r.resolve ["b", "d", "d/a.RST"] = .ok ["b", "d/a.RST"] ∧
      ∃ expansions, List.Forall₂ (r.Expands t) ["b", "d", "d/a.RST"] expansions ∧
        FirstOccurrences expansions.flatten ["b", "d/a.RST"] := by
  let t : FileTree := { entries := [("d/a.RST", .file [])] }
  let r : Resolver := { files := some t }
  have ht : t.WellFormed := by
    refine ⟨by decide, fun p hp => ?_, fun p content hp q hq => ?_⟩
    · obtain rfl := List.mem_singleton.mp hp
      exact ⟨["d", "a.RST"], by decide, by simp [Path.Downward, Path.IsName], by decide⟩
    · obtain ⟨rfl, -⟩ := Prod.mk.inj (List.mem_singleton.mp hp)
      obtain rfl := List.mem_singleton.mp hq
      decide
  have hrun : r.resolve ["b", "d", "d/a.RST"] = .ok ["b", "d/a.RST"] := by decide +kernel
  exact ⟨r, t, rfl, ht, hrun, (resolve_expands rfl ht (by simp)).1 _ hrun⟩

/-- The directory has a file with the very extension that is asked for, which
    is in capitals, and stands for nothing. -/
theorem resolve_misses_capitals :
    let t : FileTree := { entries := [("d/a.RST", .file [])] }
    let r : Resolver := { files := some t, extensions := [".RST"] }
    Path.ext "d/a.RST" ∈ r.extensions ∧ r.resolve ["d"] = .error (.noMatch ["d"]) := by
  decide +kernel

end Resolver

end MarkupLint
