import MarkupLint.Files.Resolver
import MarkupLint.Proofs.Paths
import MarkupLint.Proofs.Placement

/-! # Directories

    In a tree whose paths are clean names without steps up, a directory is
    listed with the names right below it (`FileTree.mem_list`).  Its
    documents are the files below it with one of some extensions, none of
    them below a further directory whose name starts with a dot; they come
    in order, each of them once (`FileTree.mem_documents_iff`,
    `FileTree.WellFormed.pairwise_documents`). -/

namespace MarkupLint

namespace Data.Table

variable {α : Type} {t : Table α} {key : String} {value : α}

/-- A table of pairs, the later ones of a name in place of the earlier ones. -/
def ofPairs (ps : List (String × α)) : Table α := ps.foldl (fun t p => t.set p.1 p.2) []

theorem ofPairs_concat (ps : List (String × α)) (p : String × α) :
    ofPairs (ps ++ [p]) = (ofPairs ps).set p.1 p.2 := by
  rw [ofPairs, List.foldl_append]
  rfl

/-- A table has every key once. -/
theorem nodup_keys_ofPairs (ps : List (String × α)) : (ofPairs ps).keys.Nodup := by
  induction ps using List.reverseRecOn with
  | nil => exact List.nodup_nil
  | append_singleton ps p ih =>
    rw [ofPairs_concat]
    exact nodup_keys_set ih

/-- Pairs that give a name one value only are the entries of their table. -/
theorem mem_ofPairs {ps : List (String × α)}
    (hone : ∀ k v w, (k, v) ∈ ps → (k, w) ∈ ps → v = w) :
    (key, value) ∈ ofPairs ps ↔ (key, value) ∈ ps := by
  have hget : (ofPairs ps).get? key = some value ↔ (key, value) ∈ ps := by
    induction ps using List.reverseRecOn with
    | nil => simp [ofPairs]
    | append_singleton ps p ih =>
      have ih := ih fun k v w hv hw =>
        hone k v w (List.mem_append_left _ hv) (List.mem_append_left _ hw)
      obtain ⟨k, v⟩ := p
      rw [ofPairs_concat, List.mem_append, List.mem_singleton]
      by_cases hk : key = k
      · subst hk
        rw [get?_set_self, Option.some_inj]
        constructor
        · rintro rfl
          exact .inr rfl
        · intro h
          refine hone key v value (by simp) ?_
          rcases h with h | h
          · exact List.mem_append_left _ h
          · exact h ▸ by simp
      · rw [get?_set_of_ne _ _ hk, ih]
        simp [hk]
  rw [← hget]
  exact ⟨get?_of_mem (nodup_keys_ofPairs ps), mem_of_get?⟩

end Data.Table

namespace Path

variable {ds names more : List String} {n p : String}

/-! ## Names that lead down -/

/-- The names of a path that never leads up. -/
def Downward (names : List String) : Prop := ∀ s ∈ names, IsName s ∧ s ≠ ".."

theorem Downward.isName (h : Downward names) : ∀ s ∈ names, IsName s := fun s hs => (h s hs).1

theorem Downward.not_up (h : Downward names) : ".." ∉ names := fun hmem => (h _ hmem).2 rfl

/-- Names lead down if the first of them and the others do. -/
theorem downward_append : Downward (ds ++ names) ↔ Downward ds ∧ Downward names :=
  List.forall_mem_append

theorem downward_cons : Downward (n :: names) ↔ Downward [n] ∧ Downward names := by
  rw [← List.singleton_append, downward_append]

theorem parts_append_slash (a b : String) : parts (a ++ "/" ++ b) = parts a ++ parts b := by
  have hslash : (a ++ "/" ++ b).toList = a.toList ++ '/' :: b.toList := by simp
  simp only [parts, hslash, Text.splitOn_eq, List.splitOn_append_cons_self, List.map_append,
    List.filter_append]

/-- Names that do not lead up stay as they are. -/
theorem resolveUp_of_not_up {rooted : Bool} {done : List String} (h : ".." ∉ names) :
    resolveUp rooted done names = done.reverse ++ names := by
  induction names generalizing done with
  | nil => simp [resolveUp]
  | cons s rest ih =>
    rw [List.mem_cons, not_or] at h
    rw [resolveUp, ih h.2, List.reverse_cons, List.append_assoc, List.singleton_append]
    exact fun heq => h.1 heq.symm

theorem ofNames_cons_toList (n : String) (more : List String) :
    (ofNames (n :: more)).toList = n.toList ++ more.flatMap fun s => '/' :: s.toList := by
  rw [ofNames, if_neg (List.cons_ne_nil _ _), String.toList_intercalate]
  induction more generalizing n with
  | nil => simp
  | cons m more ih =>
    rw [List.map_cons, List.map_cons, List.intercalate_cons_cons, ← List.map_cons, ih]
    simp

/-- A path of names starts at none of its slashes. -/
theorem ofNames_toList (h : ∀ s ∈ names, IsName s) :
    ∃ c rest, (ofNames names).toList = c :: rest ∧ c ≠ '/' := by
  cases names with
  | nil => exact ⟨'.', [], by decide, by decide⟩
  | cons n more =>
    obtain ⟨hempty, -, hslash⟩ := h n List.mem_cons_self
    rw [ofNames_cons_toList]
    cases hn : n.toList with
    | nil => exact absurd (String.toList_eq_nil_iff.mp hn) hempty
    | cons c rest =>
      refine ⟨c, _, List.cons_append, fun hc => hslash ?_⟩
      rw [hn, hc]
      exact List.mem_cons_self

/-- A path of names starts from no root. -/
theorem isAbs_ofNames_append (h : ∀ s ∈ names, IsName s) (rest : String) :
    isAbs (ofNames names ++ rest) = false := by
  obtain ⟨c, cs, htext, hc⟩ := ofNames_toList h
  rw [isAbs, String.toList_append, htext]
  simpa using hc

/-- A name below a path is one name more. -/
theorem join_ofNames (hds : Downward ds) (hn : Downward [n]) :
    join (ofNames ds) n = ofNames (ds ++ [n]) := by
  obtain ⟨c, cs, htext, -⟩ := ofNames_toList hds.isName
  have hne : ofNames ds ≠ "" := fun h => by rw [h] at htext; cases htext
  have hparts : parts n = [n] := by
    have := parts_ofNames hn.isName
    simpa [ofNames] using this
  have habs : isAbs (ofNames ds ++ "/" ++ n) = false := by
    rw [String.append_assoc]
    exact isAbs_ofNames_append hds.isName _
  rw [join, if_neg hne, clean_eq_ofNames habs, parts_append_slash, parts_ofNames hds.isName, hparts,
    resolveUp_of_not_up (downward_append.mpr ⟨hds, hn⟩).not_up, List.reverse_nil, List.nil_append]

/-- Different names make different paths. -/
theorem ofNames_inj {names' : List String} (h : ∀ s ∈ names, IsName s) (h' : ∀ s ∈ names', IsName s)
    (heq : ofNames names = ofNames names') : names = names' := by
  rw [← parts_ofNames h, heq, parts_ofNames h']

/-- The current directory is the path of no names. -/
theorem ofNames_eq_dot (h : ∀ s ∈ names, IsName s) : ofNames names = "." ↔ names = [] :=
  ⟨fun heq => ofNames_inj h nofun heq, fun hnil => by rw [hnil]; rfl⟩

/-- A path has a character for each of its names. -/
theorem length_le_ofNames (h : Downward names) : names.length ≤ (ofNames names).length := by
  cases names with
  | nil => exact Nat.zero_le _
  | cons n more =>
    have hfirst : 0 < n.toList.length := List.length_pos_of_ne_nil fun hnil =>
      (h n List.mem_cons_self).1.1 (String.toList_eq_nil_iff.mp hnil)
    have hmore : more.length ≤ (more.flatMap fun s => '/' :: s.toList).length := by
      clear h
      induction more with
      | nil => exact Nat.zero_le _
      | cons m more ih =>
        rw [List.flatMap_cons, List.length_append, List.length_cons, List.length_cons]
        omega
    rw [← String.length_toList, ofNames_cons_toList, List.length_append, List.length_cons]
    omega

end Path

namespace FileTree

open MarkupLint.Path

variable {t : FileTree} {ds names more rest : List String} {extensions : List String} {n p : String}
  {e : FileEntry} {b : Bool} {depth : Nat}

/-! ## What stands below a directory -/

/-- The characters of a path that goes on below a directory. -/
theorem ofNames_append_toList (ds : List String) (hne : ds ≠ []) (n : String) (more : List String) :
    (ofNames (ds ++ n :: more)).toList
      = (ofNames ds).toList ++ '/' :: (ofNames (n :: more)).toList := by
  obtain ⟨d, ds, rfl⟩ := List.exists_cons_of_ne_nil hne
  rw [List.cons_append, ofNames_cons_toList, ofNames_cons_toList, ofNames_cons_toList]
  simp

/-- A path is below another whose names it starts with. -/
theorem isBelow_ofNames (hds : ∀ s ∈ ds, IsName s) (hnames : ∀ s ∈ names, IsName s)
    (hne : names ≠ []) :
    isBelow (ofNames ds) (ofNames names) = true ↔ ∃ n more, names = ds ++ n :: more := by
  by_cases hnil : ds = []
  · rw [isBelow, hnil]
    simpa [ofNames] using List.exists_cons_of_ne_nil hne
  have hdot : ofNames ds ≠ "." := fun h => hnil ((ofNames_eq_dot hds).mp h)
  have hslash : (ofNames ds ++ "/").toList = (ofNames ds).toList ++ ['/'] := by simp
  rw [isBelow, decide_eq_false hdot, Bool.false_or, Text.startsWith_iff, hslash]
  constructor
  -- What is left behind the directory and a slash is cut into the further names.
  · rintro ⟨r, hr⟩
    have hpath : ofNames names = ofNames ds ++ "/" ++ String.ofList r := by
      apply String.toList_injective
      rw [← hr, String.toList_append, hslash, String.toList_ofList]
    have hparts : names = ds ++ parts (String.ofList r) := by
      rw [← parts_ofNames hnames, hpath, parts_append_slash, parts_ofNames hds]
    cases hrest : parts (String.ofList r) with
    | nil =>
      rw [hrest, List.append_nil] at hparts
      have hlength := congrArg (·.toList.length) hpath
      simp [hparts] at hlength
    | cons n more => exact ⟨n, more, hrest ▸ hparts⟩
  · rintro ⟨n, more, rfl⟩
    rw [ofNames_append_toList ds hnil]
    exact ⟨(ofNames (n :: more)).toList, by simp⟩

/-- A tree of files: a path has one entry and is made of names without steps
    up, and nothing stands below a file. -/
structure WellFormed (t : FileTree) : Prop where
  distinct : t.entries.keys.Nodup
  named : ∀ p ∈ t.entries.keys, ∃ names, names ≠ [] ∧ Downward names ∧ p = ofNames names
  leaves : ∀ p content, (p, .file content) ∈ t.entries → ∀ q ∈ t.entries.keys, isBelow p q = false

/-- The name of an entry in a directory, and whether it stands for one. -/
def step? (dir : String) (p : String × FileEntry) : Option (String × Bool) :=
  if !isBelow dir p.1 then none
  else
    let rest := if dir = "." then p.1.toList else p.1.toList.drop (dir.length + 1)
    let name := rest.takeWhile (· ≠ '/')
    some (String.ofList name, decide (name.length < rest.length) || p.2 == .directory)

/-- A directory lists each name below it once, in order. -/
theorem list_eq (t : FileTree) (dir : String) :
    t.list dir = (Data.Table.ofPairs (t.entries.filterMap (step? dir))).mergeSort
      fun a b => a.1 ≤ b.1 := rfl

/-- What stands below a directory is listed by its first name there; it is a
    directory if more names follow. -/
theorem step?_ofNames (hds : Downward ds) (hnames : Downward (n :: more)) (e : FileEntry) :
    step? (ofNames ds) (ofNames (ds ++ n :: more), e)
      = some (n, !more.isEmpty || e == .directory) := by
  have hbelow := (isBelow_ofNames hds.isName (downward_append.mpr ⟨hds, hnames⟩).isName
    (by simp)).mpr ⟨n, more, rfl⟩
  have hrest : (if ofNames ds = "." then (ofNames (ds ++ n :: more)).toList
      else (ofNames (ds ++ n :: more)).toList.drop ((ofNames ds).length + 1))
      = (ofNames (n :: more)).toList := by
    by_cases hnil : ds = []
    · rw [if_pos ((ofNames_eq_dot hds.isName).mpr hnil), hnil, List.nil_append]
    · rw [if_neg fun h => hnil ((ofNames_eq_dot hds.isName).mp h), ofNames_append_toList ds hnil,
        ← String.length_toList, List.drop_append]
      simp
  have hname : (ofNames (n :: more)).toList.takeWhile (· ≠ '/') = n.toList := by
    have hslash := (hnames n List.mem_cons_self).1.2.2
    have hall : ∀ c ∈ n.toList, decide (c ≠ '/') = true := fun c hc =>
      decide_eq_true fun heq => hslash (heq ▸ hc)
    rw [ofNames_cons_toList, List.takeWhile_append_of_pos hall]
    cases more <;> simp
  simp only [step?, hbelow, hrest, hname, String.ofList_toList]
  cases more with
  | nil => simp [ofNames_cons_toList]
  | cons m more => simp [ofNames_cons_toList]

/-- The names in a directory are those that its entries go on with. -/
theorem WellFormed.mem_list (ht : t.WellFormed) (hds : Downward ds) :
    (n, b) ∈ t.list (ofNames ds) ↔ ∃ more e, (ofNames (ds ++ n :: more), e) ∈ t.entries ∧
      Downward (n :: more) ∧ b = (!more.isEmpty || e == .directory) := by
  have hsteps : ∀ n b, (n, b) ∈ t.entries.filterMap (step? (ofNames ds)) ↔
      ∃ more e, (ofNames (ds ++ n :: more), e) ∈ t.entries ∧ Downward (n :: more) ∧
        b = (!more.isEmpty || e == .directory) := by
    intro n b
    rw [List.mem_filterMap]
    constructor
    · rintro ⟨⟨p, e⟩, hmem, hstep⟩
      obtain ⟨names, hne, hnames, rfl⟩ := ht.named p (List.mem_map_of_mem hmem)
      have hbelow : isBelow (ofNames ds) (ofNames names) = true := by
        by_contra hnot
        simp [step?, hnot] at hstep
      obtain ⟨m, more, rfl⟩ := (isBelow_ofNames hds.isName hnames.isName hne).mp hbelow
      have hmore := (downward_append.mp hnames).2
      rw [step?_ofNames hds hmore, Option.some_inj, Prod.mk.injEq] at hstep
      obtain ⟨rfl, rfl⟩ := hstep
      exact ⟨more, e, hmem, hmore, rfl⟩
    · rintro ⟨more, e, hmem, hmore, rfl⟩
      exact ⟨_, hmem, step?_ofNames hds hmore e⟩
  rw [list_eq, List.mem_mergeSort, Data.Table.mem_ofPairs, hsteps]
  -- A name that stands for a file has no other entry.
  have hfile : ∀ n v w, (n, v) ∈ t.entries.filterMap (step? (ofNames ds)) →
      (n, w) ∈ t.entries.filterMap (step? (ofNames ds)) → v = false → w = false := by
    intro n v w hv hw hfalse
    obtain ⟨more, e, hmem, hmore, rfl⟩ := (hsteps n v).mp hv
    obtain ⟨more', e', hmem', hmore', rfl⟩ := (hsteps n w).mp hw
    rw [Bool.or_eq_false_iff, Bool.not_eq_false', List.isEmpty_iff] at hfalse
    obtain ⟨rfl, hentry⟩ := hfalse
    cases e with
    | directory => cases hentry
    | file content =>
      cases more' with
      | nil =>
        have heq := Data.Table.get?_of_mem ht.distinct hmem
        rw [Data.Table.get?_of_mem ht.distinct hmem'] at heq
        rw [Option.some.inj heq]
        rfl
      | cons m more' =>
        have hleaf := ht.leaves _ content hmem _ (List.mem_map_of_mem hmem')
        have hbelow := (isBelow_ofNames (downward_append.mpr ⟨hds, hmore⟩).isName
          (downward_append.mpr ⟨hds, hmore'⟩).isName (by simp)).mpr ⟨m, more', by simp⟩
        rw [hleaf] at hbelow
        cases hbelow
  intro n v w hv hw
  cases v with
  | false => exact (hfile n false w hv hw rfl).symm
  | true =>
    cases w with
    | false => exact hfile n false true hw hv rfl
    | true => rfl

/-- No name is listed twice. -/
theorem list_pairwise_ne (t : FileTree) (dir : String) :
    (t.list dir).Pairwise fun x y => x.1 ≠ y.1 := by
  have hnodup := Data.Table.nodup_keys_ofPairs (t.entries.filterMap (step? dir))
  rw [list_eq]
  refine List.Perm.pairwise (List.mergeSort_perm _ _).symm (List.pairwise_map.mp hnodup) ?_
  exact fun h => h.symm

/-! ## The documents of a directory -/

/-- A name that starts with a dot. -/
def IsHidden (name : String) : Prop := name.toList.head? = some '.'

/-- The path is that of a file below a directory, not below a hidden one in
    it, and has one of the extensions in whatever case. -/
def IsDocument (t : FileTree) (extensions : List String) (dir p : String) : Prop :=
  ∃ names content, names ≠ [] ∧ parts p = parts dir ++ names ∧ (p, .file content) ∈ t.entries ∧
    (∀ name ∈ names.dropLast, ¬IsHidden name) ∧ Text.lowerString (ext p) ∈ extensions

/-- What is found under a name in a directory. -/
def documentsUnder (t : FileTree) (extensions : List String) (depth : Nat) (dir : String)
    (x : String × Bool) : List String :=
  let path := Path.join dir x.1
  if x.2 then
    if x.1.toList.head? = some '.' then [] else t.documentsWithin extensions depth path
  else if extensions.contains (Text.lowerString (Path.ext path)) then [path]
  else []

/-- The documents of a directory: by the names that it lists. -/
theorem documentsWithin_succ (dir : String) :
    t.documentsWithin extensions (depth + 1) dir
      = (t.list dir).flatMap (t.documentsUnder extensions depth dir) := by
  rw [documentsWithin]
  rfl

/-- A name that is listed is a document, or a directory with documents below
    it. -/
theorem mem_documentsUnder (hds : Downward ds) (hn : Downward [n]) :
    p ∈ t.documentsUnder extensions depth (ofNames ds) (n, b) ↔
      b = true ∧ ¬IsHidden n ∧ p ∈ t.documentsWithin extensions depth (ofNames (ds ++ [n])) ∨
      b = false ∧ p = ofNames (ds ++ [n]) ∧ Text.lowerString (ext p) ∈ extensions := by
  simp only [documentsUnder, join_ofNames hds hn, IsHidden]
  cases b with
  | true => by_cases hhidden : n.toList.head? = some '.' <;> simp [hhidden]
  | false =>
    by_cases hext : Text.lowerString (ext (ofNames (ds ++ [n]))) ∈ extensions
    · simp only [List.contains_iff_mem.mpr hext]
      simp +contextual [hext]
    · simp only [Bool.eq_false_iff.mpr (mt List.contains_iff_mem.mp hext)]
      simp +contextual [hext]

/-- What is found in so many levels of a directory. -/
theorem WellFormed.mem_documentsWithin (ht : t.WellFormed) (hds : Downward ds) :
    p ∈ t.documentsWithin extensions depth (ofNames ds) ↔
      ∃ names content, names ≠ [] ∧ names.length ≤ depth ∧ Downward names ∧
        p = ofNames (ds ++ names) ∧ (p, .file content) ∈ t.entries ∧
        (∀ name ∈ names.dropLast, ¬IsHidden name) ∧ Text.lowerString (ext p) ∈ extensions := by
  induction depth generalizing ds with
  | zero =>
    rw [documentsWithin]
    constructor
    · intro h
      cases h
    · rintro ⟨names, content, hne, hlength, -⟩
      exact absurd (List.length_eq_zero_iff.mp (Nat.le_zero.mp hlength)) hne
  | succ depth ih =>
    rw [documentsWithin_succ, List.mem_flatMap]
    constructor
    · rintro ⟨⟨n, b⟩, hmem, hp⟩
      obtain ⟨more, e, hentry, hmore, hb⟩ := (ht.mem_list hds).mp hmem
      have hn := (downward_cons.mp hmore).1
      -- The name is that of a directory that is gone into, or of the file.
      rcases (mem_documentsUnder hds hn).mp hp with ⟨-, hhidden, hp⟩ | ⟨rfl, rfl, hext⟩
      · obtain ⟨names, content, hne, hlength, hnames, rfl, hfile, hopen, hext⟩ :=
          (ih (downward_append.mpr ⟨hds, hn⟩)).mp hp
        refine ⟨n :: names, content, by simp, by simpa using hlength,
          downward_cons.mpr ⟨hn, hnames⟩, by simp, hfile, ?_, hext⟩
        rw [List.dropLast_cons_of_ne_nil hne]
        exact List.forall_mem_cons.mpr ⟨hhidden, hopen⟩
      · obtain ⟨hnil, hfile⟩ := Bool.or_eq_false_iff.mp hb.symm
        obtain rfl := List.isEmpty_iff.mp (by simpa using hnil)
        cases e with
        | directory => cases hfile
        | file content => exact ⟨[n], content, by simp, by simp, hn, rfl, hentry, by simp, hext⟩
    · rintro ⟨names, content, hne, hlength, hnames, rfl, hfile, hopen, hext⟩
      obtain ⟨n, more, rfl⟩ := List.exists_cons_of_ne_nil hne
      obtain ⟨hn, hmore⟩ := downward_cons.mp hnames
      refine ⟨(n, !more.isEmpty), (ht.mem_list hds).mpr ⟨more, _, hfile, hnames, by simp⟩,
        (mem_documentsUnder hds hn).mpr ?_⟩
      cases more with
      | nil => exact .inr ⟨rfl, rfl, hext⟩
      | cons m more =>
        refine .inl ⟨rfl, hopen n (by simp), (ih (downward_append.mpr ⟨hds, hn⟩)).mpr
          ⟨m :: more, content, by simp, by simpa using hlength, hmore, by simp, hfile,
            fun name hname => hopen name ?_, hext⟩⟩
        rw [List.dropLast_cons_of_ne_nil (by simp)]
        exact List.mem_cons_of_mem _ hname

/-- What is found under a name goes on with that name. -/
theorem WellFormed.parts_of_mem_documentsUnder (ht : t.WellFormed) (hds : Downward ds)
    (hn : Downward [n]) (hp : p ∈ t.documentsUnder extensions depth (ofNames ds) (n, b)) :
    ∃ more, parts p = ds ++ n :: more := by
  have hdown := downward_append.mpr ⟨hds, hn⟩
  rcases (mem_documentsUnder hds hn).mp hp with ⟨-, -, hp⟩ | ⟨-, rfl, -⟩
  · obtain ⟨names, content, -, -, hnames, rfl, -⟩ := (ht.mem_documentsWithin hdown).mp hp
    refine ⟨names, ?_⟩
    rw [parts_ofNames (downward_append.mpr ⟨hdown, hnames⟩).isName, List.append_assoc]
    rfl
  · exact ⟨[], parts_ofNames hdown.isName⟩

/-- No document is found twice: by the depth, since different names lead to
    different documents. -/
theorem WellFormed.nodup_documentsWithin (ht : t.WellFormed) (hds : Downward ds) :
    (t.documentsWithin extensions depth (ofNames ds)).Nodup := by
  induction depth generalizing ds with
  | zero => exact List.nodup_nil
  | succ depth ih =>
    rw [documentsWithin_succ, List.Nodup, List.pairwise_flatMap]
    have hname : ∀ n b, (n, b) ∈ t.list (ofNames ds) → Downward [n] := fun n b hmem => by
      obtain ⟨more, e, -, hmore, -⟩ := (ht.mem_list hds).mp hmem
      exact (downward_cons.mp hmore).1
    constructor
    · rintro ⟨n, b⟩ hmem
      have hn := hname n b hmem
      simp only [documentsUnder, join_ofNames hds hn]
      split
      · split
        · exact List.nodup_nil
        · exact ih (downward_append.mpr ⟨hds, hn⟩)
      · split
        · exact List.pairwise_singleton _ _
        · exact List.nodup_nil
    -- What is found under two names goes on with one of them and with the other.
    · refine (list_pairwise_ne t (ofNames ds)).imp_of_mem ?_
      rintro ⟨n, b⟩ ⟨n', b'⟩ hmem hmem' hne p hp _ hp' rfl
      obtain ⟨more, hparts⟩ := ht.parts_of_mem_documentsUnder hds (hname n b hmem) hp
      obtain ⟨more', hparts'⟩ := ht.parts_of_mem_documentsUnder hds (hname n' b' hmem') hp'
      rw [hparts'] at hparts
      exact hne (List.cons.inj (List.append_cancel_left hparts)).1.symm

/-- No path is longer than the longest. -/
theorem le_longest {es : List (String × FileEntry)} (h : (p, e) ∈ es) (n : Nat) :
    p.length ≤ es.foldl (fun n p => max n p.1.length) n := by
  have hstart : ∀ (es : List (String × FileEntry)) n,
      n ≤ es.foldl (fun n p => max n p.1.length) n := by
    intro es
    induction es with
    | nil => exact fun n => Nat.le_refl n
    | cons x es ih => exact fun n => Nat.le_trans (Nat.le_max_left _ _) (ih _)
  induction es generalizing n with
  | nil => cases h
  | cons x es ih =>
    rcases List.mem_cons.mp h with rfl | h
    · exact Nat.le_trans (Nat.le_max_right n _) (hstart es _)
    · exact ih h _

/-- **The documents of a directory are found**, and nothing else. -/
theorem WellFormed.mem_documents_iff (ht : t.WellFormed) (hds : Downward ds) :
    p ∈ t.documents extensions (ofNames ds) ↔ t.IsDocument extensions (ofNames ds) p := by
  rw [documents, List.mem_mergeSort, ht.mem_documentsWithin hds, IsDocument, parts_ofNames hds.isName]
  constructor
  · rintro ⟨names, content, hne, -, hnames, rfl, hfile, hopen, hext⟩
    exact ⟨names, content, hne, parts_ofNames (downward_append.mpr ⟨hds, hnames⟩).isName, hfile,
      hopen, hext⟩
  · rintro ⟨names, content, hne, hparts, hfile, hopen, hext⟩
    obtain ⟨all, -, hall, rfl⟩ := ht.named p (List.mem_map_of_mem hfile)
    rw [parts_ofNames hall.isName] at hparts
    subst hparts
    refine ⟨names, content, hne, ?_, (downward_append.mp hall).2, rfl, hfile, hopen, hext⟩
    -- The longest path has more characters than any path has names.
    have hlength := length_le_ofNames hall
    have hlongest := le_longest hfile 0
    rw [List.length_append] at hlength
    omega

/-- Texts are put in order. -/
theorem pairwise_mergeSort_le (texts : List String) :
    (texts.mergeSort fun a b => a ≤ b).Pairwise (· ≤ ·) := by
  refine (List.pairwise_mergeSort ?_ ?_ texts).imp of_decide_eq_true
  · exact fun a b c hab hbc =>
      decide_eq_true (String.le_trans (of_decide_eq_true hab) (of_decide_eq_true hbc))
  · exact fun a b => by simpa using String.le_total a b

/-- The documents of a directory come in order, each of them once. -/
theorem WellFormed.pairwise_documents (ht : t.WellFormed) (hds : Downward ds) :
    (t.documents extensions (ofNames ds)).Pairwise (· < ·) := by
  have hsorted : (t.documents extensions (ofNames ds)).Pairwise (· ≤ ·) := pairwise_mergeSort_le _
  have hnodup : (t.documents extensions (ofNames ds)).Nodup :=
    (List.mergeSort_perm _ _).nodup_iff.mpr (ht.nodup_documentsWithin hds)
  exact (hsorted.and hnodup).imp fun h => Std.lt_of_le_of_ne h.1 h.2

/-- A path that leads to a directory leads down to it. -/
theorem WellFormed.downward_of_isDirectory (ht : t.WellFormed) (habs : isAbs p = false)
    (h : t.isDirectory (clean p) = true) : ∃ ds, Downward ds ∧ clean p = ofNames ds := by
  have hnames : ∀ s ∈ resolveUp false [] (parts p), IsName s := fun s => isName_of_mem_resolveUp
  rw [clean_eq_ofNames habs] at h ⊢
  generalize resolveUp false [] (parts p) = names at h hnames
  rw [isDirectory, beq_iff_eq, standing?] at h
  by_cases hdot : ofNames names = "."
  · exact ⟨[], List.forall_mem_nil _, hdot⟩
  rw [if_neg hdot] at h
  cases hget : t.entries.get? (ofNames names) with
  | some e =>
    obtain ⟨ds, -, hds, heq⟩ :=
      ht.named _ (List.mem_map_of_mem (Data.Table.mem_of_get? hget))
    exact ⟨ds, hds, heq⟩
  | none =>
    rw [hget] at h
    by_cases hany : (t.entries.any fun q => isBelow (ofNames names) q.1) = true
    · obtain ⟨q, hq, hbelow⟩ := List.any_eq_true.mp hany
      obtain ⟨all, hne, hall, hpath⟩ := ht.named q.1 (List.mem_map_of_mem hq)
      rw [hpath] at hbelow
      obtain ⟨n, more, rfl⟩ := (isBelow_ofNames hnames hall.isName hne).mp hbelow
      exact ⟨names, (downward_append.mp hall).1, rfl⟩
    · simp [hany] at h

end FileTree

end MarkupLint
