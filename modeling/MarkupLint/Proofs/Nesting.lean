import MarkupLint.Proofs.Parsing

/-! # How deep reading goes

    `Reached` lists the bodies that are read for a body, each with the files
    that are being read, the innermost first.  Bodies within one text get
    smaller on the way in, so the size of the outermost is depth enough for
    them; files need as much room as there are files inside one another.
    With that much, reading keeps its contract, however much more there is:
    it does not end for want of depth, and more depth changes nothing. -/

namespace MarkupLint

open Discipline

/-- The bodies that are read for the body `b` at a site, each with its site
    and the files that are being read. -/
inductive Reached (o : Origin) (site : Site) (b : Body) : List OpenFile → Site → Body → Prop
  | start : Reached o site b [] site b
  | step {files : List OpenFile} {site' site'' : Site} {b' b'' : Body} {block : Block}
      {file : Option OpenFile} (outer : Reached o site b files site' b')
      (found : block ∈ site'.blocks b') (handed : site'.Hands o block file site'' b'') :
    Reached o site b (file.toList ++ files) site'' b''

namespace Reached

variable {v w : World} {L : License} {n : Nat} {keep : Prop} {o : Origin} {site site' : Site}
  {b b' : Body} {files : List OpenFile}

theorem env (h : Reached o site b files site' b') : site'.env = site.env := by
  induction h with
  | start => rfl
  | step _ _ handed ih => exact handed.env.trans ih

/-- A site in the environment of a world is a site of that world. -/
theorem under_eq (hworld : site.under v = site) (h : Reached o site b files site' b') :
    site'.under v = site' := by
  have henv : site.env.under v = site.env := congrArg Site.env hworld
  rw [← h.env] at henv
  cases site'
  exact congrArg (Site.mk · _ _ _ _) henv

/-- Every block of the bodies that are read is allowed. -/
def Allowed (L : License) (o : Origin) (site : Site) (b : Body) : Prop :=
  ∀ files site' b', Reached o site b files site' b' → ∀ block ∈ site'.blocks b', site'.Allowed L block

/-- Reading gets stuck in none of the bodies that are read. -/
def Unstuck (o : Origin) (site : Site) (b : Body) : Prop :=
  ∀ files site' b', Reached o site b files site' b' →
    ∀ line first, Block.stuckList line first ∉ site'.blocks b'

theorem Allowed.deepEnough (o : Origin) (site : Site) (b : Body) :
    Allowed (.deepEnough o) o site b :=
  fun _ site' _ _ _ _ => site'.allowed_of_stops (fun _ h _ => h) (fun _ => trivial)
    (fun _ => trivial) fun _ _ _ => (nofun : Stop.endless ≠ .exhausted)

theorem Unstuck.allowed (h : Unstuck o site b) : Allowed (.finishing o) o site b := by
  intro files site' b' hreached block hblock
  refine site'.allowed_of_stops (L := .finishing o) (fun _ h h' => ⟨h, h'⟩) (fun _ => trivial)
    (fun _ => trivial) ?_
  rintro line first rfl
  exact absurd hblock (h files site' b' hreached line first)

section Enough

variable (hworld : site.under v = site) (habout : ∀ o', L.about o' → o' = o)
  (hallowed : Allowed L o site b)

include hworld habout hallowed

/-- A block that is reached grows the document, if the readers serve what it
    hands on. -/
theorem grow_blocks {read read' : ReadBody} (h : Reached o site b files site' b')
    (htitles : keep → site'.titles = false)
    (hserved : ∀ file site'' b'', Reached o site b (file.toList ++ files) site'' b'' →
      (file = none → b''.size < b'.size) → (keep → site''.titles = false) →
      Contract (growing v w L n keep) Anything (read.pick file site'' b'')
        (read'.pick file (site''.under w) b'')) :
    Contract (growing v w L n keep) Anything ((site'.blocks b').forM (site'.block read))
      ((site'.blocks b').forM ((site'.under w).block read')) := by
  have hsite := h.under_eq hworld
  have hgrow : Contract (growing v w L n keep) Anything
      ((site'.blocks b').forM ((site'.under v).block read))
      ((site'.blocks b').forM ((site'.under w).block read')) := by
    refine site'.grow_blocks b' (fun block hblock => Site.fit_of_titles htitles hblock ?_) ?_
    · rw [hsite]
      exact hallowed files site' b' h block hblock
    · intro block hblock o' file site'' b'' ho' hhands htitles''
      obtain rfl := habout o' ho'
      rw [hsite] at hhands
      refine hserved file site'' b'' (h.step hblock hhands) ?_ htitles''
      rintro rfl
      exact hhands.size_lt hblock
  rwa [hsite] at hgrow

/-- A depth beyond the size of a body is enough to read it, files apart. -/
theorem grow_readWithin {file file' : Site → Body → Parse Unit}
    (hfile : ∀ f site'' b'', Reached o site b (f :: files) site'' b'' →
      (keep → site''.titles = false) →
      Contract (growing v w L n keep) Anything (file site'' b'') (file' (site''.under w) b''))
    {depth depth' : Nat} (h : Reached o site b files site' b') (hdepth : b'.size < depth)
    (hdepth' : b'.size < depth') (htitles : keep → site'.titles = false) :
    Contract (growing v w L n keep) Anything (Site.readWithin file depth site' b')
      (Site.readWithin file' depth' (site'.under w) b') := by
  induction depth generalizing depth' site' b' with
  | zero => exact absurd hdepth (Nat.not_lt_zero _)
  | succ depth ih =>
    obtain ⟨depth', rfl⟩ := Nat.exists_eq_succ_of_ne_zero (Nat.ne_of_gt (Nat.zero_lt_of_lt hdepth'))
    refine grow_blocks hworld habout hallowed h htitles fun from? site'' b'' hreached hsize ht => ?_
    cases from? with
    | none =>
      have hsmaller := hsize rfl
      exact ih hreached (by omega) (by omega) ht
    | some f => exact hfile f site'' b'' hreached ht

/-- As much room for files as there are files inside one another is enough to
    read a body. -/
theorem grow_read {bound : Nat}
    (hbound : ∀ files site' b', Reached o site b files site' b' → files.length ≤ bound)
    {count count' : Nat} (h : Reached o site b files site' b')
    (hcount : bound < files.length + count) (hcount' : bound < files.length + count')
    (htitles : keep → site'.titles = false) :
    Contract (growing v w L n keep) Anything (Site.read count site' b')
      (Site.read count' (site'.under w) b') := by
  induction count generalizing count' files site' b' with
  | zero =>
    have := hbound files site' b' h
    omega
  | succ count ih =>
    cases count' with
    | zero =>
      have := hbound files site' b' h
      omega
    | succ count' =>
      refine grow_readWithin hworld habout hallowed (fun f site'' b'' hreached ht => ?_) h
        (Nat.lt_succ_self _) (Nat.lt_succ_self _) htitles
      exact ih hreached (by simp only [List.length_cons]; omega)
        (by simp only [List.length_cons]; omega) ht

end Enough

theorem trans {site'' : Site} {b'' : Body} {files' : List OpenFile}
    (h : Reached o site b files site' b') (h' : Reached o site' b' files' site'' b'') :
    Reached o site b (files' ++ files) site'' b'' := by
  induction h' with
  | start => exact h
  | step _ found handed ih =>
    rw [List.append_assoc]
    exact ih.step found handed

end Reached

/-! ## Bodies without directives -/

/-- No explicit markup uses a directive, in a body or in the bodies inside
    it. -/
def Site.Undirected (site : Site) (b : Body) : Prop :=
  ∀ o files site' b', Reached o site b files site' b' → ∀ line lines markup,
    Block.explicit line lines markup ∈ site'.blocks b' →
    site'.call? lines line (String.ofList markup) = none

namespace Site

variable {site : Site} {b : Body}

theorem Undirected.inside (h : site.Undirected b) {block : Block}
    (hblock : block ∈ site.blocks b) {c : Body} (hc : c ∈ block.bodies) (parent : NodeId) :
    (site.within parent).Undirected c := by
  intro o files site' b' hreached
  have hstep : Reached o site b [] (site.within parent) c :=
    Reached.start.step hblock (.nested hc parent)
  exact h o _ site' b' (hstep.trans hreached)

/-- Every depth beyond its size reads a body without directives in the same
    way, whatever reads files. -/
theorem Undirected.readWithin_eq (h : site.Undirected b) {file file' : Site → Body → Parse Unit}
    {depth depth' : Nat} (hdepth : b.size < depth) (hdepth' : b.size < depth') :
    readWithin file depth site b = readWithin file' depth' site b := by
  induction depth generalizing depth' site b with
  | zero => exact absurd hdepth (Nat.not_lt_zero _)
  | succ depth ih =>
    obtain ⟨depth', rfl⟩ := Nat.exists_eq_succ_of_ne_zero (Nat.ne_of_gt (Nat.zero_lt_of_lt hdepth'))
    simp only [readWithin]
    refine forM_congr fun block hblock => ?_
    by_cases hmarkup : ∃ line lines markup, block = .explicit line lines markup
    · obtain ⟨line, lines, markup, rfl⟩ := hmarkup
      have hcall := h ⟨"", 0⟩ [] site b .start line lines markup hblock
      simp only [Site.block, explicit_of_call?_none hcall ⟨readWithin file depth, file⟩
        ⟨readWithin file' depth', file'⟩]
    · refine block_congr (fun line lines markup heq => hmarkup ⟨line, lines, markup, heq⟩)
        fun parent c hc => ?_
      have hsize := (b.bodies_shorter site.titles _ hblock c hc).size_lt
      exact ih (h.inside hblock hc parent) (by omega) (by omega)

/-- Without directives, what is read lies below the outermost body. -/
theorem Undirected.below (h : site.Undirected b) {o : Origin} {files : List OpenFile} {site' : Site}
    {b' : Body} (hreached : Reached o site b files site' b') : b'.Below b := by
  induction hreached with
  | start => exact .refl b
  | step outer found handed ih =>
    cases handed with
    | nested inside =>
      exact ((Body.blocks_placed _ _ _ _ found).below_bodies _ inside).trans ih
    | called use =>
      rw [h _ _ _ _ outer _ _ _ found] at use
      cases use

/-- Reading does not get stuck in such a body if its numbers fit. -/
theorem Undirected.unstuck (h : site.Undirected b) (hcount : b.Countable) (o : Origin) :
    Reached.Unstuck o site b :=
  fun _ site' _ hreached =>
    (hcount.of_below (h.below hreached)).not_stuckList site'.titles site'.env.conventions.width

/-- Reading such a body stops for no reason that is not allowed. -/
theorem Undirected.readWithin_ends (h : site.Undirected b) {L : License} (s : ParseState)
    (habout : ∀ o, L.about o ↔ o = s.doc.origin) (hallowed : Reached.Allowed L s.doc.origin site b)
    (file : Site → Body → Parse Unit) {depth : Nat} (hdepth : b.size < depth) {e : Stop}
    {s' : ParseState} (hrun : readWithin file depth site b s = .error e s') : L.Stops s'.doc e := by
  let v : World := ⟨site.env.files, site.env.clock⟩
  -- No file is read, so any reader of files will do.
  have hcontract : Contract (growing v v L s.doc.forest.size False)
      Anything (readWithin (fun _ _ => pure ()) depth site b)
      (readWithin (fun _ _ => pure ()) depth (site.under v) b) :=
    Reached.grow_readWithin rfl (fun o => (habout o).mp) hallowed
      (fun _ _ _ _ _ => .pure trivial) .start hdepth hdepth False.elim
  obtain ⟨-, hends, -⟩ := hcontract s s ⟨s.doc, .refl _, rfl⟩
    ⟨Nat.le_refl _, Forest.closed_of_size_le (Nat.le_refl _), (habout _).mpr rfl⟩
  rw [h.readWithin_eq hdepth hdepth, hrun] at hends
  exact hends

/-- **Reading a body goes on and comes to an end.**  Reading is its turns one
    after the other, and every turn at a line whose number fits takes at least
    one line and none that is not there.  No marker is wider than its line.
    If all numbers fit, every list has an item, every block stands on lines of
    the body, and a title has the characters of its adornment for a style.  A
    body inside a block has fewer characters than the body it was cut from.
    So, unless a directive is used, reading with a depth beyond the size of
    the body does not end for want of depth or go on for ever, and neither
    more depth nor what reads files makes a difference. -/
theorem reading_progresses (site : Site) (b : Body) :
    (site.blocks b = b.blocksFrom site.titles site.env.conventions.width 0 ∧
      ∀ (i : Nat) (hi : i < b.lines.length),
        let turn := b.turn site.titles site.env.conventions.width i
        (Pattern.Countable b.lines[i] → i < turn.2 ∧ turn.2 ≤ b.lines.length) ∧
        b.blocksFrom site.titles site.env.conventions.width i
          = turn.1 ++ b.blocksFrom site.titles site.env.conventions.width turn.2) ∧
    (∀ l ∈ b.lines, ∀ width ∈ Pattern.markerWidths l, 0 < width ∧ width ≤ l.length) ∧
    (∀ block ∈ site.blocks b, block.Placed b ∧ block.Adorned ∧
      (∀ c ∈ block.bodies, c.chars < b.chars) ∧
      ((∀ l ∈ b.lines, Pattern.Countable l) → block.Filled)) ∧
    (site.Undirected b → ∀ file depth, b.size < depth →
      (∀ s s', readWithin file depth site b s ≠ .error .exhausted s') ∧
      (b.Countable → ∀ s s', readWithin file depth site b s ≠ .error .endless s') ∧
      ∀ file' depth', b.size < depth' →
        readWithin file' depth' site b = readWithin file depth site b) := by
  refine ⟨⟨rfl, fun i hi => ⟨b.turn_progress _ _ hi, b.blocksFrom_turn _ _ hi⟩⟩,
    fun l _ => Pattern.markerWidths_fit l, fun block hblock => ?_, ?_⟩
  · refine ⟨b.blocks_placed _ _ _ hblock, Reader.blocks_adorned _ _ _ _ hblock,
      fun c hc => (b.bodies_shorter _ _ hblock c hc).chars, fun hcount => ?_⟩
    rcases b.blocks_fit _ _ hblock with ⟨hfilled, -⟩ | ⟨line, rfl⟩
    · exact hfilled
    · exact absurd hblock (Body.not_stuckList hcount _ _ _ _)
  · intro hundirected file depth hdepth
    refine ⟨fun s s' hrun => ?_, fun hcount s s' hrun => ?_,
      fun file' depth' hdepth' => hundirected.readWithin_eq hdepth' hdepth⟩
    · have hends := hundirected.readWithin_ends (L := .deepEnough s.doc.origin) s (fun _ => .rfl)
        (.deepEnough _ site b) file hdepth hrun
      exact License.deepEnough_ne hends rfl
    · have hends := hundirected.readWithin_ends (L := .finishing s.doc.origin) s (fun _ => .rfl)
        (hundirected.unstuck hcount _).allowed file hdepth hrun
      exact (License.finishing_ne hends).2 rfl

/-- The quotation in an item of a list, read with just the depth that the
    list needs. -/
theorem reading_progresses_nested :
    let site : Site := ⟨(Environment.mk .standard {} 0 0 .standard).surroundings, "", true, 0, []⟩
    let b : Body := ⟨0, ["- a".toList, [], "    b".toList]⟩
    site.Undirected b ∧ b.Countable ∧ ∀ s s',
      readWithin (fun _ _ => throw .exhausted) 12 site b s ≠ .error .exhausted s' ∧
      readWithin (fun _ _ => throw .exhausted) 12 site b s ≠ .error .endless s' := by
  intro site b
  have hlist : b.blocks true Text.textWidth
      = [.bulletList 1 [⟨1, ⟨0, ["a".toList, [], "  b".toList]⟩⟩]] := by decide +kernel
  have hitem : (⟨0, ["a".toList, [], "  b".toList]⟩ : Body).blocks false Text.textWidth
      = [.paragraph 1 "a".toList none, .quote 3 ⟨2, ["b".toList]⟩] := by decide +kernel
  have hquote : (⟨2, ["b".toList]⟩ : Body).blocks false Text.textWidth
      = [.paragraph 3 "b".toList none] := by decide +kernel
  have hundirected : site.Undirected b := by
    intro o files site' b' hreached
    have hcases : site'.blocks b' = [.bulletList 1 [⟨1, ⟨0, ["a".toList, [], "  b".toList]⟩⟩]]
        ∨ site'.blocks b' = [.paragraph 1 "a".toList none, .quote 3 ⟨2, ["b".toList]⟩]
        ∨ site'.blocks b' = [.paragraph 3 "b".toList none] := by
      induction hreached with
      | start => exact .inl hlist
      | @step _ site' _ b' b'' block _ outer found handed ih =>
        cases handed with
        | called => rcases ih with ih | ih | ih <;> simp [ih] at found
        | nested inside parent =>
          have hwithin : (site'.within parent).blocks b'' = b''.blocks false Text.textWidth := by
            rw [blocks, show (site'.within parent).env = site.env from outer.env]
            rfl
          rw [hwithin]
          rcases ih with ih | ih | ih <;> rw [ih] at found
          · obtain rfl := List.mem_singleton.mp found
            obtain rfl := List.mem_singleton.mp inside
            exact .inr (.inl hitem)
          · rcases List.mem_pair.mp found with rfl | rfl
            · cases inside
            · obtain rfl := List.mem_singleton.mp inside
              exact .inr (.inr hquote)
          · obtain rfl := List.mem_singleton.mp found
            cases inside
    intro line lines markup hblock
    rcases hcases with h | h | h <;> simp [h] at hblock
  have hcount : b.Countable := by decide +kernel
  obtain ⟨-, -, -, hends⟩ := reading_progresses site b
  obtain ⟨hdeep, hfinite, -⟩ := hends hundirected (fun _ _ => throw .exhausted) 12 (by decide)
  exact ⟨hundirected, hcount, fun s s' => ⟨hdeep s s', hfinite hcount s s'⟩⟩

end Site

end MarkupLint
