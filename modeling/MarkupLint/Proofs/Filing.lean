import Mathlib.Algebra.Group.Nat.Defs
import MarkupLint.Cache.Directory
import MarkupLint.Cache.Key
import MarkupLint.Proofs.Listing

/-! # Keys and where results are filed

    What is hashed for a key is a list of parts, each written after its
    length in a field of fixed width, so a reader knows where it ends whatever
    it holds (`Data.Frame.decode?_encode`).  So lists of parts for which the
    same is hashed are the same.

    A key is thirty-two hexadecimal digits.  So it can stand in a path as it
    is, the two directories it is filed in are named after its first digits,
    and the paths of two keys, in whatever directory results are kept, have
    the same length and differ if the keys do (`DirectoryCache.path_inj`).
    None of them is below another, and all are below that directory. -/

namespace MarkupLint

/-! ## What is hashed for a key -/

namespace Data.Frame

/-- The number of bytes that a length can count. -/
def capacity : Nat := 2 ^ 64

theorem decode?_nil : decode? [] = some [] := by
  rw [decode?]
  rfl

/-- The first part is read up to its length; the rest is read by itself. -/
theorem decode?_frame {part : Bytes} (hpart : part.length < capacity) (more : Bytes) :
    decode? (bigEndian lengthWidth part.length ++ part ++ more)
      = (decode? more).map (part :: ·) := by
  have hfield : (bigEndian lengthWidth part.length).length = lengthWidth := length_bigEndian _ _
  have hsize : ofBigEndian (bigEndian lengthWidth part.length) = part.length :=
    ofBigEndian_bigEndian hpart
  have hsome : (bigEndian lengthWidth part.length ++ (part ++ more)).isEmpty = false := by
    rw [List.isEmpty_eq_false_iff]
    intro hnil
    rw [(List.append_eq_nil_iff.mp hnil).1] at hfield
    cases hfield
  have hlong : ¬(bigEndian lengthWidth part.length ++ (part ++ more)).length < lengthWidth := by
    rw [List.length_append, hfield]
    omega
  have hwhole : ¬(part ++ more).length < part.length := by
    rw [List.length_append]
    omega
  rw [List.append_assoc, decode?, if_neg (by rw [hsome]; decide), if_neg hlong,
    List.take_left' hfield, List.drop_left' hfield, hsize, if_neg hwhole, List.take_left,
    List.drop_left]

/-- **What was written is read back**, whatever the parts hold. -/
theorem decode?_encode {parts : List Bytes} (h : ∀ p ∈ parts, p.length < capacity) :
    decode? (encode parts) = some parts := by
  induction parts with
  | nil => exact decode?_nil
  | cons part rest ih =>
    obtain ⟨hpart, hrest⟩ := List.forall_mem_cons.mp h
    rw [encode, decode?_frame hpart, ih hrest]
    rfl

theorem encode_eq_flatMap (parts : List Bytes) :
    encode parts = parts.flatMap fun p => bigEndian lengthWidth p.length ++ p := by
  induction parts with
  | nil => rfl
  | cons part rest ih => rw [encode, ih, List.flatMap_cons]

end Data.Frame

namespace CacheKey

/-- **What is hashed shows the parts.**  For each part it holds the length in
    eight bytes, the highest first, and then the part; and lists of parts whose
    lengths fit are the same if the same bytes are hashed for them. -/
theorem hashed_injective {parts others : List Bytes} (hparts : ∀ p ∈ parts, p.length < 2 ^ 64)
    (hothers : ∀ p ∈ others, p.length < 2 ^ 64) :
    hashed parts = parts.flatMap (fun p => Data.bigEndian 8 p.length ++ p) ∧
      (hashed parts = hashed others ↔ parts = others) := by
  refine ⟨Data.Frame.encode_eq_flatMap parts, fun h => ?_, congrArg hashed⟩
  have hread := congrArg Data.Frame.decode? h
  rw [hashed, hashed, Data.Frame.decode?_encode hparts, Data.Frame.decode?_encode hothers] at hread
  exact Option.some.inj hread

/-- A part that ends in what looks like the length of another. -/
theorem hashed_injective_lookalike :
    let parts : List Bytes := [[1], []]
    let others : List Bytes := [[1, 0, 0, 0, 0, 0, 0, 0, 0]]
    (hashed parts).length = (hashed others).length ∧ hashed parts ≠ hashed others :=
  ⟨by decide, fun h => absurd ((hashed_injective (by decide) (by decide)).2.mp h) (by decide)⟩

end CacheKey

/-! ## Keys -/

namespace Data

/-- The digits that bytes are written with. -/
def hexDigits : List Char := "0123456789abcdef".toList

theorem mem_hexDigits_of_mem_hex {bytes : Bytes} {c : Char} (hc : c ∈ hex bytes) :
    c ∈ hexDigits := by
  have hdigit : ∀ n < 16, Nat.digitChar n ∈ hexDigits := by decide
  obtain ⟨b, -, hb⟩ := List.mem_flatMap.mp hc
  have hbyte := b.toNat_lt
  rcases List.mem_pair.mp hb with rfl | rfl
  · exact hdigit _ (by omega)
  · exact hdigit _ (by omega)

theorem length_hex (bytes : Bytes) : (hex bytes).length = 2 * bytes.length := by
  induction bytes with
  | nil => rfl
  | cons b bytes ih =>
    rw [hex, List.flatMap_cons, List.length_append, ← hex, ih, List.length_cons]
    simp only [hexByte, List.length_cons, List.length_nil]
    omega

theorem Digest.length_sha256 (message : Bytes) : (Digest.sha256 message).length = 32 := by
  simp [Digest.sha256, Digest.State.bytes]

end Data

/-- Whether a text can be a key. -/
structure CacheKey.IsDigest (key : String) : Prop where
  length : key.toList.length = 32
  digits : ∀ c ∈ key.toList, c ∈ Data.hexDigits

theorem CacheKey.isDigest_ofParts (parts : List Bytes) : IsDigest (ofParts parts) where
  length := by
    rw [ofParts, String.toList_ofList, Data.length_hex, List.length_take, Data.Digest.length_sha256]
    rfl
  digits c hc := by
    rw [ofParts, String.toList_ofList] at hc
    exact Data.mem_hexDigits_of_mem_hex hc

/-! ## Characters of one byte -/

/-- Characters of one byte are written as they are numbered. -/
theorem packText_of_ascii {s : String} (h : ∀ c ∈ s.toList, c.toNat < 128) :
    packText s = s.toList.map fun c => UInt8.ofNat c.toNat := by
  have hbytes : ∀ l : List Char, (∀ c ∈ l, c.toNat < 128) →
      l.utf8Encode.data.toList = l.map fun c => UInt8.ofNat c.toNat := by
    intro l hl
    induction l with
    | nil => rfl
    | cons c l ih =>
      obtain ⟨hc, hrest⟩ := List.forall_mem_cons.mp hl
      have hone : c.utf8Size = 1 := by
        rw [Char.utf8Size_eq_one_iff, UInt32.le_iff_toNat_le]
        exact Nat.le_of_lt_succ hc
      rw [List.utf8Encode_cons, List.utf8Encode_singleton, String.utf8EncodeChar_eq_singleton hone,
        ByteArray.data_append, Array.toList_append, ih hrest]
      rfl
  rw [packText, String.toUTF8_eq_toByteArray, ← String.utf8Encode_toList, hbytes _ h]

/-- And read back. -/
theorem decodeUtf8_of_ascii {s : List Char} (h : ∀ c ∈ s, c.toNat < 128) :
    Text.decodeUtf8 (s.map fun c => UInt8.ofNat c.toNat) = s := by
  induction s with
  | nil => rw [List.map_nil, Text.decodeUtf8]
  | cons c s ih =>
    obtain ⟨hc, hs⟩ := List.forall_mem_cons.mp h
    have hbyte : (UInt8.ofNat c.toNat).toNat = c.toNat := by
      rw [UInt8.toNat_ofNat']
      omega
    rw [List.map_cons, Text.decodeUtf8, hbyte, if_pos hc, ih hs, Char.ofNat_toNat]

/-! ## Paths of names -/

namespace Path

variable {names : List String} {n p : String} {rooted : Bool}

/-- The names of a path when no step up is left that could be taken back. -/
def settled (p : String) : List String := resolveUp (isAbs p) [] (parts p)

/-- The path that names lead to, from the root or from the working
    directory. -/
def render (rooted : Bool) (names : List String) : String :=
  let body := "/".intercalate names
  if rooted then "/" ++ body else if body = "" then "." else body

theorem clean_eq_render (p : String) : clean p = render (isAbs p) (settled p) := rfl

/-- The characters of a path before what is put at its end. -/
def front (rooted : Bool) (names : List String) : List Char :=
  (if rooted then ['/'] else []) ++ names.flatMap fun s => s.toList ++ ['/']

theorem intercalate_concat_toList (names : List String) (n : String) :
    ("/".intercalate (names ++ [n])).toList
      = (names.flatMap fun s => s.toList ++ ['/']) ++ n.toList := by
  rw [String.toList_intercalate]
  induction names with
  | nil => simp
  | cons m more ih =>
    obtain ⟨next, rest, hnext⟩ := List.exists_cons_of_ne_nil (List.append_ne_nil_of_right_ne_nil more
      (List.cons_ne_nil n []))
    rw [hnext, List.map_cons] at ih
    rw [List.cons_append, hnext, List.map_cons, List.map_cons, List.intercalate_cons_cons, ih]
    simp

theorem render_concat_toList (hn : n ≠ "") (rooted : Bool) (names : List String) :
    (render rooted (names ++ [n])).toList = front rooted names ++ n.toList := by
  have hbody := intercalate_concat_toList names n
  have hsome : "/".intercalate (names ++ [n]) ≠ "" := by
    intro hnone
    rw [hnone] at hbody
    have hempty : n.toList = [] := (List.append_eq_nil_iff.mp hbody.symm).2
    exact hn (String.toList_eq_nil_iff.mp hempty)
  cases rooted with
  | true => simp [render, front, hbody]
  | false => simp [render, front, hbody, hsome]

theorem resolveUp_concat (hn : n ≠ "..") (rooted : Bool) (done names : List String) :
    resolveUp rooted done (names ++ [n]) = resolveUp rooted done names ++ [n] := by
  fun_induction resolveUp rooted done names with
  | case1 done =>
    rw [List.nil_append, resolveUp, resolveUp, List.reverse_cons]
    exact hn
  | case2 rest before ih => rwa [List.cons_append, resolveUp, if_pos rfl]
  | case3 rest name before hname ih => rwa [List.cons_append, resolveUp, if_neg hname]
  | case4 rest hrooted ih => rwa [List.cons_append, resolveUp, if_pos hrooted]
  | case5 rest hrooted ih => rwa [List.cons_append, resolveUp, if_neg hrooted]
  | case6 done name rest hname ih =>
    rw [List.cons_append, resolveUp, ih]
    exact hname

/-- From the root on no step up is left. -/
theorem not_up_of_rooted {done : List String} (hdone : ".." ∉ done) :
    ".." ∉ resolveUp true done names := by
  induction names generalizing done with
  | nil => rwa [resolveUp, List.mem_reverse]
  | cons s rest ih =>
    by_cases hs : s = ".."
    · subst hs
      cases done with
      | nil => exact ih hdone
      | cons name before =>
        rw [List.mem_cons, not_or] at hdone
        rw [resolveUp, if_neg (Ne.symm hdone.1)]
        exact ih hdone.2
    · rw [resolveUp]
      · refine ih ?_
        rw [List.mem_cons, not_or]
        exact ⟨Ne.symm hs, hdone⟩
      · exact hs

theorem resolveUp_settled (p : String) : resolveUp (isAbs p) [] (settled p) = settled p := by
  unfold settled
  cases isAbs p with
  | false => exact resolveUp_idem _
  | true => exact resolveUp_of_not_up (not_up_of_rooted List.not_mem_nil)

theorem render_false (h : ∀ s ∈ names, IsName s) : render false names = ofNames names := by
  simp only [render, ofNames, Bool.false_eq_true, if_false]
  refine if_congr ⟨fun hnone => ?_, fun hnil => ?_⟩ rfl rfl
  · rw [← parts_intercalate h, hnone]
    decide
  · rw [hnil]
    rfl

theorem parts_render (h : ∀ s ∈ names, IsName s) (rooted : Bool) :
    parts (render rooted names) = names := by
  cases rooted with
  | true =>
    have hslash := parts_append_slash "" ("/".intercalate names)
    rw [parts_intercalate h, show parts "" = [] by decide, String.empty_append] at hslash
    exact hslash
  | false =>
    rw [render_false h]
    exact parts_ofNames h

theorem isAbs_render (h : ∀ s ∈ names, IsName s) (rooted : Bool) :
    isAbs (render rooted names) = rooted := by
  cases rooted with
  | true =>
    rw [isAbs, render, if_pos rfl, String.toList_append]
    rfl
  | false =>
    rw [render_false h, ← String.append_empty (s := ofNames names)]
    exact isAbs_ofNames_append h ""

/-- The last name of a path is what stands behind its last slash. -/
theorem base_of_toList {before : List Char} (hsome : n ≠ "") (hslash : '/' ∉ n.toList)
    (hp : p.toList = before ++ '/' :: n.toList) : base p = n := by
  obtain ⟨c, rest, hn⟩ := List.exists_cons_of_ne_nil
    (fun hnil => hsome (String.toList_eq_nil_iff.mp (List.reverse_eq_nil_iff.mp hnil)))
  have hback : ∀ x ∈ n.toList.reverse, decide (x ≠ '/') = true := fun x hx =>
    decide_eq_true fun heq => hslash (List.mem_reverse.mp (heq ▸ hx))
  have hc : (c == '/') = false :=
    beq_eq_false_iff_ne.mpr (of_decide_eq_true (hback c (hn ▸ List.mem_cons_self)))
  have hreverse : p.toList.reverse = n.toList.reverse ++ '/' :: before.reverse := by
    rw [hp]
    simp
  have htrim : p.toList.reverse.dropWhile (· == '/') = p.toList.reverse := by
    rw [hreverse, hn, List.cons_append, List.dropWhile_cons, hc]
    rfl
  have hpath : p ≠ "" := by
    rintro rfl
    exact absurd hp.symm (List.append_ne_nil_of_right_ne_nil _ (List.cons_ne_nil _ _))
  rw [base, if_neg hpath]
  simp only [htrim]
  rw [if_neg (by simp [hp]), hreverse, List.takeWhile_append_of_pos hback]
  simp

/-- Nothing but steps up is new among the names of a path. -/
theorem not_mem_settled {c : Char} (hc : c ≠ '.') (hp : c ∉ p.toList) {s : String}
    (hs : s ∈ settled p) : c ∉ s.toList := by
  rcases mem_resolveUp hs with hdone | hpart | rfl
  · cases hdone
  · obtain ⟨piece, hpiece, rfl⟩ := List.mem_map.mp (List.mem_of_mem_filter hpart)
    rw [String.toList_ofList]
    exact fun hmem => hp (Text.mem_of_mem_splitOn hpiece hmem)
  · simpa using hc

/-- A name is put behind the names of a path. -/
theorem join_eq_render (hn : Downward [n]) (p : String) :
    join p n = render (isAbs p) (settled p ++ [n]) := by
  obtain ⟨⟨hempty, hdot, hslash⟩, hup⟩ := hn n List.mem_cons_self
  have hparts : parts n = [n] := by
    have := parts_ofNames hn.isName
    simpa [ofNames] using this
  by_cases hp : p = ""
  · have habs : isAbs n = false := by
      have := isAbs_render hn.isName false
      rwa [render_false hn.isName] at this
    have halone : settled n = [n] := by
      rw [settled, hparts, resolveUp_of_not_up hn.not_up]
      rfl
    rw [hp, join, if_pos rfl, if_neg hempty, clean_eq_render, habs, halone]
    rfl
  · have habs : isAbs (p ++ "/" ++ n) = isAbs p := by
      obtain ⟨c, rest, hchars⟩ := List.exists_cons_of_ne_nil
        (fun hnil => hp (String.toList_eq_nil_iff.mp hnil))
      simp [isAbs, hchars]
    rw [join, if_neg hp, clean_eq_render, habs, settled, habs, parts_append_slash, hparts,
      resolveUp_concat hup]
    rfl

/-- Names are put behind one another. -/
theorem join_render (hn : Downward [n]) (h : ∀ s ∈ names, IsName s)
    (hsettled : resolveUp rooted [] names = names) :
    join (render rooted names) n = render rooted (names ++ [n]) := by
  rw [join_eq_render hn, settled, isAbs_render h, parts_render h, hsettled]

end Path

/-! ## Paths of results -/

namespace CacheKey.IsDigest

variable {key : String}

theorem ascii (h : IsDigest key) : ∀ c ∈ key.toList, c.toNat < 128 := by
  have hall : (Data.hexDigits.all fun c => decide (c.toNat < 128)) = true := by decide
  exact fun c hc => of_decide_eq_true (List.all_eq_true.mp hall c (h.digits c hc))

theorem safeKey_eq (h : IsDigest key) : DirectoryCache.safeKey key = key := by
  have hall : (Data.hexDigits.all fun c => !"/\\:*?\"<>|".toList.contains c) = true := by decide
  have hkept : ∀ c ∈ key.toList, (if "/\\:*?\"<>|".toList.contains c then '_' else c) = c :=
    fun c hc => if_neg (by simpa using List.all_eq_true.mp hall c (h.digits c hc))
  apply String.toList_injective
  rw [DirectoryCache.safeKey, String.toList_map]
  exact (List.map_congr_left hkept).trans (List.map_id _)

/-- Two digits of a key are a name that leads down. -/
theorem downward_digits (h : IsDigest key) {i : Nat} (hi : i < 32) :
    Path.Downward [String.ofList ((key.toList.drop i).take 2)] := by
  obtain ⟨s, hs⟩ : ∃ s, s = (key.toList.drop i).take 2 := ⟨_, rfl⟩
  have hdigits : ∀ c ∈ s, c ∈ Data.hexDigits := fun c hc =>
    h.digits c (List.drop_subset _ _ (List.take_subset _ _ (hs ▸ hc)))
  have hdot : '.' ∉ s := fun hmem => absurd (hdigits _ hmem) (by decide)
  have hslash : '/' ∉ s := fun hmem => absurd (hdigits _ hmem) (by decide)
  have hsome : s ≠ [] := by
    intro hnil
    have hlength := congrArg List.length (hs.symm.trans hnil)
    rw [List.length_take, List.length_drop, h.length, List.length_nil] at hlength
    omega
  rw [← hs]
  have hname : ∀ t : String, String.ofList s = t → s = t.toList := by
    rintro t rfl
    rw [String.toList_ofList]
  refine List.forall_mem_singleton.mpr ⟨⟨fun heq => hsome (hname _ heq), fun heq => hdot ?_, ?_⟩,
    fun heq => hdot ?_⟩
  · rw [hname _ heq]
    decide
  · rwa [String.toList_ofList]
  · rw [hname _ heq]
    decide

theorem length_file (h : IsDigest key) :
    (key ++ DirectoryCache.extension).toList.length = 40 := by
  rw [String.toList_append, List.length_append, h.length]
  rfl

/-- So is the name of the file for a key. -/
theorem downward_file (h : IsDigest key) : Path.Downward [key ++ DirectoryCache.extension] := by
  have hlong : ∀ t : String, t.toList.length ≠ 40 → key ++ DirectoryCache.extension ≠ t :=
    fun t ht heq => ht (heq ▸ h.length_file)
  have hslash : '/' ∉ (key ++ DirectoryCache.extension).toList := by
    rw [String.toList_append, List.mem_append, not_or]
    exact ⟨fun hmem => absurd (h.digits _ hmem) (by decide), by decide⟩
  exact List.forall_mem_singleton.mpr
    ⟨⟨hlong _ (by decide), hlong _ (by decide), hslash⟩, hlong _ (by decide)⟩

end CacheKey.IsDigest

namespace DirectoryCache

open CacheKey (IsDigest)

variable {c : DirectoryCache} {key key' : String}

/-- The names of the directories that the result of a key is filed in. -/
def folders (base key : String) : List String :=
  Path.settled base ++ [String.ofList (key.toList.take 2)]
    ++ [String.ofList ((key.toList.drop 2).take 2)]

theorem isName_folders (h : IsDigest key) (base : String) :
    ∀ s ∈ folders base key ++ [key ++ extension], Path.IsName s := by
  have hbase : ∀ s ∈ Path.settled base, Path.IsName s := fun s hs => Path.isName_of_mem_resolveUp hs
  have hfirst := (h.downward_digits (show 0 < 32 by decide)).isName
  have hsecond := (h.downward_digits (show 2 < 32 by decide)).isName
  exact List.forall_mem_append.mpr ⟨List.forall_mem_append.mpr
    ⟨List.forall_mem_append.mpr ⟨hbase, hfirst⟩, hsecond⟩, h.downward_file.isName⟩

/-- A result is filed in two directories that are named after the first digits
    of its key. -/
theorem path_eq (h : IsDigest key) (c : DirectoryCache) :
    c.path key = Path.render (Path.isAbs c.base) (folders c.base key ++ [key ++ extension]) := by
  -- The digits are counted in bytes, of which each has one.
  have hbytes := packText_of_ascii h.ascii
  have hlong : 4 ≤ (packText key).length := by
    rw [hbytes, List.length_map, h.length]
    decide
  have hdigits : ∀ i n, unpackText (((packText key).drop i).take n)
      = String.ofList ((key.toList.drop i).take n) := by
    intro i n
    rw [hbytes, ← List.map_drop, ← List.map_take, unpackText, decodeUtf8_of_ascii]
    exact fun x hx => h.ascii x (List.drop_subset _ _ (List.take_subset _ _ hx))
  have hfirst : Path.Downward [String.ofList (key.toList.take 2)] :=
    h.downward_digits (show 0 < 32 by decide)
  have hsecond := h.downward_digits (show 2 < 32 by decide)
  have hsettled := Path.resolveUp_settled c.base
  have hsettled' := (Path.resolveUp_concat (hfirst _ List.mem_cons_self).2 (Path.isAbs c.base) []
    (Path.settled c.base)).trans (congrArg (· ++ _) hsettled)
  have hsettled'' := (Path.resolveUp_concat (hsecond _ List.mem_cons_self).2 (Path.isAbs c.base) []
    _).trans (congrArg (· ++ _) hsettled')
  have hnames' : ∀ s ∈ Path.settled c.base ++ [String.ofList (key.toList.take 2)]
      ++ [String.ofList ((key.toList.drop 2).take 2)], Path.IsName s := fun s hs =>
    isName_folders h c.base s (List.mem_append_left _ hs)
  have hnames : ∀ s ∈ Path.settled c.base ++ [String.ofList (key.toList.take 2)], Path.IsName s :=
    fun s hs => hnames' s (List.mem_append_left _ hs)
  have htake : unpackText ((packText key).take 2) = String.ofList (key.toList.take 2) := hdigits 0 2
  simp only [path, h.safeKey_eq, if_pos hlong, htake, hdigits 2 2]
  rw [Path.join_eq_render hfirst, Path.join_render hsecond hnames hsettled',
    Path.join_render h.downward_file hnames' hsettled'']
  rfl

/-- The characters that the path of a key ends in. -/
def stem (key : String) : List Char :=
  key.toList.take 2 ++ '/' :: ((key.toList.drop 2).take 2
    ++ '/' :: (key ++ extension).toList)

theorem length_stem (h : IsDigest key) : (stem key).length = 46 := by
  simp only [stem, List.length_append, List.length_cons, List.length_take, List.length_drop,
    h.length, h.length_file]
  rfl

theorem path_toList (h : IsDigest key) (c : DirectoryCache) :
    (c.path key).toList
      = Path.front (Path.isAbs c.base) (Path.settled c.base) ++ stem key := by
  have hfile : key ++ extension ≠ "" := (h.downward_file _ List.mem_cons_self).1.1
  rw [path_eq h, Path.render_concat_toList hfile]
  simp [folders, Path.front, stem]

theorem length_path (h : IsDigest key) (h' : IsDigest key') (c : DirectoryCache) :
    (c.path key).toList.length = (c.path key').toList.length := by
  rw [path_toList h, path_toList h', List.length_append, List.length_append, length_stem h,
    length_stem h']

/-- Different keys are filed in different places. -/
theorem path_inj (h : IsDigest key) (h' : IsDigest key') (c : DirectoryCache) :
    c.path key = c.path key' ↔ key = key' := by
  refine ⟨fun heq => ?_, congrArg _⟩
  have hstem := congrArg String.toList heq
  rw [path_toList h, path_toList h', List.append_cancel_left_eq] at hstem
  have hfile : (key ++ extension).toList = (key' ++ extension).toList := by
    have hdrop := congrArg (List.drop 6) hstem
    have hsix : ∀ {k : String}, IsDigest k → (stem k).drop 6 = (k ++ extension).toList := by
      intro k hk
      have hsplit : stem k = (k.toList.take 2 ++ '/' :: ((k.toList.drop 2).take 2 ++ ['/']))
          ++ (k ++ extension).toList := by simp [stem]
      rw [hsplit]
      exact List.drop_left' (by simp [hk.length])
    rwa [hsix h, hsix h'] at hdrop
  rw [String.toList_append, String.toList_append, List.append_cancel_right_eq] at hfile
  exact String.toList_injective hfile

/-- No result is filed below another. -/
theorem isBelow_path (h : IsDigest key) (h' : IsDigest key') (c : DirectoryCache) :
    FileTree.isBelow (c.path key) (c.path key') = false := by
  have hlength := length_path h h' c
  have hstem := length_stem h
  rw [Bool.eq_false_iff, Ne, FileTree.isBelow, Bool.or_eq_true, decide_eq_true_eq,
    Text.startsWith_iff]
  rintro (hdot | hprefix)
  · have := congrArg (·.toList.length) hdot
    simp [path_toList h, hstem] at this
  -- What is below a path is longer, but the paths of two keys are as long.
  · have := hprefix.length_le
    rw [String.toList_append, List.length_append, hlength] at this
    exact absurd this (Nat.not_succ_le_self _)

/-- All results are filed below the directory that they are kept in. -/
theorem isWithin_path (h : IsDigest key) (c : DirectoryCache) :
    isWithin c.base (c.path key) = true := by
  have hbase : ∀ s ∈ Path.settled c.base, Path.IsName s := fun s hs => Path.isName_of_mem_resolveUp hs
  rw [isWithin]
  split
  -- From the root on there is no directory to be below.
  · rename_i hroot
    have habs := Path.isAbs_render hbase (Path.isAbs c.base)
    rw [← Path.clean_eq_render, hroot] at habs
    rw [path_eq h, Path.isAbs_render (isName_folders h c.base), ← habs]
    rfl
  · rename_i hroot
    rw [FileTree.isBelow, Bool.or_eq_true, decide_eq_true_eq, Text.startsWith_iff,
      Path.clean_eq_render]
    rw [Path.clean_eq_render] at hroot
    rcases List.eq_nil_or_concat (Path.settled c.base) with hnil | ⟨names, n, hnames⟩
    · rw [hnil] at hroot ⊢
      cases habs : Path.isAbs c.base with
      | true =>
        rw [habs] at hroot
        exact absurd rfl hroot
      | false => exact .inl rfl
    · right
      rw [List.concat_eq_append] at hnames
      have hn := (hbase n (hnames ▸ List.mem_append_right _ List.mem_cons_self)).1
      rw [path_toList h, String.toList_append, hnames, Path.render_concat_toList hn]
      exact ⟨stem key, by simp [Path.front]⟩

theorem holds_path (h : IsDigest key) (c : DirectoryCache) : c.holds (c.path key) = true := by
  rw [holds, isWithin_path h, Bool.true_and, Text.endsWith, Text.startsWith_iff, path_toList h]
  exact ⟨_, by simp [stem]; rfl⟩

/-- The name of the file that a key is filed in. -/
theorem base_path (h : IsDigest key) (c : DirectoryCache) :
    Path.base (c.path key) = key ++ extension := by
  obtain ⟨⟨hsome, -, hslash⟩, -⟩ := h.downward_file _ List.mem_cons_self
  have hpath : (c.path key).toList = (Path.front (Path.isAbs c.base) (Path.settled c.base)
      ++ (key.toList.take 2 ++ '/' :: (key.toList.drop 2).take 2))
      ++ '/' :: (key ++ extension).toList := by
    simp [path_toList h, stem]
  exact Path.base_of_toList hsome hslash hpath

/-- A path of a result is one that files can have. -/
theorem nul_not_mem_path (h : IsDigest key) (hbase : '\x00' ∉ c.base.toList) :
    '\x00' ∉ (c.path key).toList := by
  have hkey : '\x00' ∉ key.toList := fun hmem => absurd (h.digits _ hmem) (by decide)
  have hname : ∀ s ∈ Path.settled c.base, '\x00' ∉ s.toList := fun s =>
    Path.not_mem_settled (by decide) hbase
  have hfront : '\x00' ∉ Path.front (Path.isAbs c.base) (Path.settled c.base) := by
    rw [Path.front, List.mem_append, not_or, List.mem_flatMap]
    refine ⟨?_, ?_⟩
    · split <;> decide
    · rintro ⟨s, hs, hmem⟩
      rcases List.mem_append.mp hmem with hmem | hmem
      · exact hname s hs hmem
      · exact absurd hmem (by decide)
  have hstem : '\x00' ∉ stem key := by
    simp only [stem, List.mem_append, List.mem_cons, String.toList_append, not_or]
    exact ⟨fun hmem => hkey (List.take_subset _ _ hmem), by decide,
      fun hmem => hkey (List.drop_subset _ _ (List.take_subset _ _ hmem)), by decide, hkey,
      by decide⟩
  rw [path_toList h, List.mem_append, not_or]
  exact ⟨hfront, hstem⟩

/-- A result can be written where there are only results. -/
theorem canWrite_path (h : IsDigest key) (hbase : '\x00' ∉ c.base.toList)
    (hfiles : ∀ p ∈ c.files.keys, ∃ other, IsDigest other ∧ p = c.path other) :
    c.canWrite (c.path key) = true := by
  have hascii : ∀ x ∈ (key ++ extension).toList, x.toNat < 128 := by
    rw [String.toList_append]
    refine List.forall_mem_append.mpr ⟨h.ascii, fun x hx => ?_⟩
    have hall : (extension.toList.all fun x => decide (x.toNat < 128)) = true := by decide
    exact of_decide_eq_true (List.all_eq_true.mp hall x hx)
  have hshort : (packText (key ++ extension)).length ≤ longestName := by
    rw [packText_of_ascii hascii, List.length_map, h.length_file]
    decide
  rw [canWrite, base_path h, decide_eq_true hshort, Bool.true_and, Bool.and_eq_true,
    Bool.not_eq_true', Bool.not_eq_true', List.contains_eq_mem, decide_eq_false_iff_not,
    List.any_eq_false]
  refine ⟨nul_not_mem_path h hbase, fun p hp => ?_⟩
  obtain ⟨other, hother, hpath⟩ := hfiles p.1 (List.mem_map_of_mem hp)
  rw [hpath, isBelow_path hother h]
  exact Bool.false_ne_true

end DirectoryCache

end MarkupLint
