import MarkupLint.Batch.Run

/-! # What a key holds

    The parts of a key tell files apart as far as their results do: files
    whose parts are the same, with names to ignore that hold no NUL, are
    linted alike.  Two options that give the same parts may differ still, in
    the letter case of the encoding, which is not looked at, and in empty
    names, which are not ignored anyway. -/

namespace MarkupLint

/-! ## Names to ignore -/

theorem packText_injective {s t : String} (h : packText s = packText t) : s = t := by
  have hdata : s.toUTF8.data = t.toUTF8.data := Array.toList_inj.mp h
  exact String.toByteArray_inj.mp (ByteArray.ext hdata)

/-- Names without NUL are told apart by their key, but for empty ones. -/
theorem BatchOptions.joinNames_injective {as bs : List String}
    (has : ∀ a ∈ as, '\x00' ∉ a.toList) (hbs : ∀ b ∈ bs, '\x00' ∉ b.toList)
    (h : joinNames as = joinNames bs) :
    as.filter (· ≠ "") = bs.filter (· ≠ "") := by
  -- Splitting the joined names gives them back, if there are any.
  have hsplit : ∀ names : List String, (∀ a ∈ names, '\x00' ∉ a.toList) → names ≠ [] →
      (("\x00".intercalate names).toList.splitOn '\x00') = names.map String.toList := by
    intro names hnames hne
    rw [String.toList_intercalate]
    refine List.splitOn_intercalate '\x00' ?_ (by simpa using hne)
    intro l hl
    obtain ⟨a, ha, rfl⟩ := List.mem_map.mp hl
    exact hnames a ha
  have hinjective : ∀ {as bs : List String},
      as.map String.toList = bs.map String.toList → as = bs :=
    (List.map_inj_right fun _ _ => String.toList_inj.mp).mp
  have hjoin : "\x00".intercalate as = "\x00".intercalate bs := packText_injective h
  have hempty : ∀ names : List String, (∀ a ∈ names, '\x00' ∉ a.toList) →
      "\x00".intercalate names = "" → names.filter (· ≠ "") = [] := by
    intro names hnames hnone
    by_cases hne : names = []
    · rw [hne]
      rfl
    · have hparts := hsplit names hnames hne
      rw [hnone] at hparts
      have hone : names = [""] := hinjective hparts.symm
      rw [hone]
      rfl
  by_cases ha : as = []
  · subst ha
    exact (hempty bs hbs hjoin.symm).symm
  by_cases hb : bs = []
  · subst hb
    exact hempty as has hjoin
  have hmap : as.map String.toList = bs.map String.toList := by
    rw [← hsplit as has ha, ← hsplit bs hbs hb, hjoin]
  rw [hinjective hmap]

namespace Catalog

/-- Empty names are left out anyway. -/
theorem foldl_addName_filter (out names : List String) :
    (names.filter (· ≠ "")).foldl addName out = names.foldl addName out := by
  induction names generalizing out with
  | nil => rfl
  | cons name names ih =>
    by_cases hname : name = ""
    · subst hname
      exact ih out
    · rw [List.filter_cons_of_pos (by simpa using hname)]
      exact ih (addName out name)

theorem merge_filter (names others : List String) :
    merge [names, others.filter (· ≠ "")] = merge [names, others] := by
  simp only [merge, List.flatten_cons, List.flatten_nil, List.append_nil, List.foldl_append]
  exact foldl_addName_filter _ others

theorem mem_addName {out : List String} {name other : String} (h : name ∈ addName out other) :
    name ∈ out ∨ name = other := by
  simp only [addName] at h
  split at h
  · exact .inl h
  · exact (List.mem_append.mp h).imp_right List.mem_singleton.mp

/-- Merged names come from the lists. -/
theorem mem_merge {names others : List String} {name : String} (h : name ∈ merge [names, others]) :
    name ∈ names ∨ name ∈ others := by
  have hfold : ∀ (names out : List String), name ∈ names.foldl addName out →
      name ∈ out ∨ name ∈ names := by
    intro names
    induction names with
    | nil => exact fun out h => .inl h
    | cons other names ih =>
      intro out h
      rcases ih _ h with hout | hnames
      · rcases mem_addName hout with hout | rfl
        · exact .inl hout
        · exact .inr List.mem_cons_self
      · exact .inr (List.mem_cons_of_mem _ hnames)
  rcases hfold _ _ h with hnil | hmem
  · cases hnil
  · simpa using hmem

end Catalog

/-! ## Results -/

namespace BatchOptions

/-- No name to ignore holds a NUL. -/
def Clean (o : BatchOptions) : Prop :=
  ∀ name ∈ o.ignoreDirectives ++ o.ignoreRoles, '\x00' ∉ name.toList

/-- Nor does a name that is ignored on the whole. -/
theorem clean_merged {base given : List String} (hbase : ∀ name ∈ base, '\x00' ∉ name.toList)
    (hgiven : ∀ name ∈ given, '\x00' ∉ name.toList) (flag : Bool) :
    ∀ name ∈ (if flag then Catalog.merge [base, given] else given), '\x00' ∉ name.toList := by
  intro name hname
  split at hname
  · exact (Catalog.mem_merge hname).elim (hbase name) (hgiven name)
  · exact hgiven name hname

theorem Clean.directives {o : BatchOptions} (h : o.Clean) :
    ∀ name ∈ o.directives, '\x00' ∉ name.toList :=
  clean_merged (by decide) (fun name hname => h name (List.mem_append_left _ hname)) _

theorem Clean.roles {o : BatchOptions} (h : o.Clean) :
    ∀ name ∈ o.roles, '\x00' ∉ name.toList :=
  clean_merged (by decide) (fun name hname => h name (List.mem_append_right _ hname)) _

/-- The parts of a key hold what decides the result. -/
theorem lintContent_of_keyParts {b : Batch} {o o' : BatchOptions} (ho : o.Clean) (ho' : o'.Clean)
    {path path' : String} {content content' : Bytes}
    (hparts : o.keyParts path content = o'.keyParts path' content') {r : LintResult}
    (hr : b.lintContent o path content = .ok r) :
    path = path' ∧ content = content' ∧ b.lintContent o' path' content' = .ok r := by
  simp only [keyParts, List.cons.injEq, and_true, true_and] at hparts
  obtain ⟨hpath, rfl, hencoding, hdirectives, hroles⟩ := hparts
  obtain rfl := packText_injective hpath
  have hlint : ∀ text, (Linter.lint { env := b.env } text
      { source := path, ignoreDirectives := o.directives, ignoreRoles := o.roles }).1
      = (Linter.lint { env := b.env } text
      { source := path, ignoreDirectives := o'.directives, ignoreRoles := o'.roles }).1 := by
    intro text
    have hd := joinNames_injective ho.directives ho'.directives hdirectives
    have hr := joinNames_injective ho.roles ho'.roles hroles
    simp only [Linter.lint, Linter.ignoredDirectives, Linter.ignoredRoles]
    rw [← Catalog.merge_filter _ o.directives, ← Catalog.merge_filter _ o.roles, hd, hr,
      Catalog.merge_filter, Catalog.merge_filter]
  refine ⟨rfl, rfl, ?_⟩
  unfold Batch.lintContent at hr ⊢
  split at hr
  · cases hr
  · rename_i text htext
    rw [Text.Decoders.decode_eq_ok (packText_injective hencoding) htext]
    dsimp only
    rw [← hlint]
    exact hr

end BatchOptions

end MarkupLint
