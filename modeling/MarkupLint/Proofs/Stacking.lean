import MarkupLint.Proofs.Inclusion

/-! # One stack of files

    The files that are being included are handed down with every body
    (`Site.includes`).  A parser may as well keep them on one stack for all
    bodies, beside its state: the path of a file goes on the stack before its
    text is read and is taken off however that ends (`Stacked.entering`), and
    a block sees the stack as the files that are being included
    (`Stacked.step`).

    In the parser with the stack an alarm goes off before a body and before a
    block if a path is on the stack twice or is that of the document, and when
    the bodies that a block hands on were read, or reading them was given up,
    if the stack is not what it was.  Whatever the alarm does, the two parsers
    are the same (`parseText_stacked`): it never goes off. -/

namespace MarkupLint

open Discipline

/-- A step of parsing with a stack of files. -/
abbrev Stacked := EStateM Stop (ParseState × List String)

namespace Stacked

variable (alarm : Parse Unit)

/-- A step that leaves the stack alone. -/
def lift {α : Type} (x : Parse α) : Stacked α := onPart Prod.fst (fun p s => (s, p.2)) x

/-- The document and the files on the stack are different ones. -/
def guard (stack : List String) : Parse Unit := do
  let d ← Parse.document
  if (stack ++ [d.source]).Nodup then return ⟨⟩ else alarm

/-- Reads a body with a stack, which has to be the same in the end, however
    that comes. -/
def reader (stack : List String) (x : Site → Body → Stacked Unit) (site : Site) (body : Body) :
    Parse Unit := fun s =>
  match x site body (s, stack) with
  | .ok a (t, after) => if after = stack then .ok a t else alarm t
  | .error e (t, after) => if after = stack then .error e t else alarm t

/-- Takes the top off the stack when a step has ended. -/
def popping (x : Stacked Unit) : Stacked Unit := fun p =>
  match x p with
  | .ok a (t, stack) => .ok a (t, stack.tail)
  | .error e (t, stack) => .error e (t, stack.tail)

/-- Reads a body that comes from a file.  The path of a file that is included
    is on the stack meanwhile; but the values of a table belong to the place
    where the table stands. -/
def entering (file : Site → Body → Stacked Unit) (site : Site) (body : Body) : Stacked Unit :=
  fun p =>
    if site.includes = p.2 then file site body p
    else popping (file site body) (p.1, site.source :: p.2)

/-- Adds what a block stands for, with the files on the stack as those that
    are being included. -/
def step (within file : Site → Body → Stacked Unit) (stack : List String) (site : Site)
    (b : Block) : Parse Unit := do
  guard alarm stack
  { site with includes := stack }.block
    ⟨reader alarm stack within, reader alarm stack (entering file)⟩ b

def block (within file : Site → Body → Stacked Unit) (site : Site) (b : Block) : Stacked Unit :=
  fun p => lift (step alarm within file p.2 site b) p

def readWithin (file : Site → Body → Stacked Unit) : Nat → Site → Body → Stacked Unit
  | 0, _, _ => throw .exhausted
  | depth + 1, site, body => fun p =>
    (lift (guard alarm p.2) >>= fun _ =>
      (site.blocks body).forM (block alarm (readWithin file depth) file site)) p

def read : Nat → Site → Body → Stacked Unit
  | 0, _, _ => throw .exhausted
  | count + 1, site, body => readWithin alarm (read count) (body.size + 1) site body

/-- Parses a text into a document, with a stack that is empty at first. -/
def parseText (env : Surroundings) (text : List Char) : Parse Unit := do
  let d ← Parse.document
  match splitLines? d.tabWidth text with
  | none => throw .fault
  | some lines => reader alarm [] (read alarm (env.nesting + 1)) (d.site env) ⟨0, lines⟩

/-- The stack is what it was, however a step ends. -/
def Leaves (x : Stacked Unit) : Prop := ∀ s stack, (endState (x (s, stack))).2 = stack

variable {alarm} {within file : Site → Body → Stacked Unit} {site : Site} {body : Body}
  {stack : List String} {s : ParseState}

/-- A step of parsing knows of no stack. -/
theorem lift_leaves (x : Parse Unit) : Leaves (lift x) := by
  intro s stack
  unfold lift onPart
  cases x s <;> rfl

/-- A step that knows of no stack may be followed by one that sees the stack as
    it is. -/
theorem lift_bind {α β : Type} (x : Parse α) (f : α → Parse β) (g : α → Stacked β) (s : ParseState)
    (stack : List String) (h : ∀ a t, g a (t, stack) = lift (f a) (t, stack)) :
    (lift x >>= g) (s, stack) = lift (x >>= f) (s, stack) := by
  rw [Contract.bind_run]
  simp only [lift, onPart, Contract.bind_run] at h ⊢
  cases x s with
  | ok a t => exact h a t
  | error e t => rfl

/-- By the blocks: the stack is the same at each of them. -/
theorem forM_block (bs : List Block) (s : ParseState) (stack : List String) :
    bs.forM (block alarm within file site) (s, stack)
      = lift (bs.forM (step alarm within file stack site)) (s, stack) := by
  induction bs generalizing s with
  | nil => rfl
  | cons b bs ih => exact lift_bind _ _ _ s stack fun _ => ih

/-- The guard and the blocks of a body see one stack. -/
theorem readWithin_run (file : Site → Body → Stacked Unit) (depth : Nat) (site : Site)
    (body : Body) (s : ParseState) (stack : List String) :
    readWithin alarm file (depth + 1) site body (s, stack)
      = lift (do
          guard alarm stack
          (site.blocks body).forM (step alarm (readWithin alarm file depth) file stack site))
        (s, stack) :=
  lift_bind _ _ _ s stack fun _ t => forM_block _ t stack

/-- The guard and the blocks leave the stack alone. -/
theorem readWithin_leaves (file : Site → Body → Stacked Unit) (depth : Nat) (site : Site)
    (body : Body) : Leaves (readWithin alarm file depth site body) := by
  cases depth with
  | zero => exact fun _ _ => rfl
  | succ depth =>
    intro s stack
    rw [readWithin_run]
    exact lift_leaves _ s stack

/-- So does reading a body of a file. -/
theorem read_leaves (count : Nat) (site : Site) (body : Body) : Leaves (read alarm count site body) := by
  cases count with
  | zero => exact fun _ _ => rfl
  | succ count => exact readWithin_leaves _ _ site body

/-! ## Readers -/

/-- A reader whose steps know of no stack finds it as it was. -/
theorem reader_of_lift {x : Parse Unit} {file : Site → Body → Stacked Unit}
    (h : ∀ s, file site body (s, stack) = lift x (s, stack)) :
    reader alarm stack file site body = x := by
  funext s
  rw [reader, h s, lift, onPart]
  cases x s
  all_goals exact if_pos rfl

/-- A body is read block by block, behind its guard. -/
theorem reader_readWithin (file : Site → Body → Stacked Unit) (depth : Nat) (site : Site)
    (body : Body) (stack : List String) :
    reader alarm stack (readWithin alarm file (depth + 1)) site body
      = (do
        guard alarm stack
        (site.blocks body).forM (step alarm (readWithin alarm file depth) file stack site)) :=
  reader_of_lift fun s => readWithin_run file depth site body s stack

/-- The values of a table are read with the stack as it is. -/
theorem reader_entering_of_eq (h : site.includes = stack) :
    reader alarm stack (entering file) site body = reader alarm stack file site body := by
  funext s
  rw [reader, entering, if_pos h]
  rfl

/-- A file that is included is read with its path on the stack. -/
theorem reader_entering (hleaves : Leaves (file site body))
    (h : site.includes = site.source :: stack) :
    reader alarm stack (entering file) site body
      = reader alarm (site.source :: stack) file site body := by
  funext s
  have hne : site.includes ≠ stack := h ▸ List.cons_ne_self _ _
  have hafter := hleaves s (site.source :: stack)
  rw [reader, reader, entering, if_neg hne, popping]
  generalize file site body (s, site.source :: stack) = r at hafter
  rcases r with ⟨a, t, after⟩ | ⟨e, t, after⟩
  all_goals
    obtain rfl : after = site.source :: stack := hafter
    exact (if_pos rfl).trans (if_pos rfl).symm

/-- No path is on the stack twice, nor is that of the document. -/
theorem guard_eq (h : (stack ++ [s.doc.source]).Nodup) : guard alarm stack s = .ok ⟨⟩ s := by
  show (if (stack ++ [s.doc.source]).Nodup then pure ⟨⟩ else alarm : Parse Unit) s = _
  rw [if_pos h]
  rfl

/-- Where the guard lets a block pass, it is read like any other. -/
theorem step_eq (within file : Site → Body → Stacked Unit) (b : Block)
    (h : (site.includes ++ [s.doc.source]).Nodup) :
    step alarm within file site.includes site b s
      = site.block ⟨reader alarm site.includes within, reader alarm site.includes (entering file)⟩
        b s := by
  rw [step, Contract.bind_run, guard_eq h]

end Stacked

/-- What a block hands on is read with the files that are being included, and
    with one more if it comes from a file that is included. -/
theorem Site.Hands.includes {site site' : Site} {o : Origin} {block : Block}
    {file : Option OpenFile} {body : Body} (h : site.Hands o block file site' body) :
    site'.includes = site.includes ∨
      file ≠ none ∧ site'.includes = site'.source :: site.includes := by
  cases h with
  | nested => exact .inl rfl
  | called use handed =>
    obtain ⟨name, -, -, invocation, -, rfl⟩ := Site.call?_eq_some use
    cases handed with
    | content | cell | filed => exact .inl rfl
    | included => exact .inr ⟨Option.some_ne_none _, rfl⟩

/-- So it is read with these files on the stack. -/
theorem Site.Hands.pick_stacked {alarm : Parse Unit} {within file : Site → Body → Stacked Unit}
    {site site' : Site} {o : Origin} {block : Block} {opened : Option OpenFile} {body : Body}
    (h : site.Hands o block opened site' body) (hleaves : Stacked.Leaves (file site' body)) :
    ReadBody.pick ⟨Stacked.reader alarm site.includes within,
        Stacked.reader alarm site.includes (Stacked.entering file)⟩ opened site' body
      = Stacked.reader alarm site'.includes (if opened = none then within else file) site' body := by
  rcases h.includes with hsame | ⟨hopened, hone⟩
  · cases opened with
    | none => rw [if_pos rfl, hsame, ReadBody.pick]
    | some f =>
      rw [if_neg (Option.some_ne_none f), hsame]
      exact Stacked.reader_entering_of_eq hsame
  · obtain ⟨f, rfl⟩ := Option.ne_none_iff_exists'.mp hopened
    rw [if_neg hopened, hone]
    exact Stacked.reader_entering hleaves hone

namespace Reached

variable {alarm : Parse Unit} {v : World} {L : License} {n : Nat} {o : Origin} {site site' : Site}
  {b b' : Body} {files : List OpenFile}

section Same

variable (hworld : site.under v = site) (habout : ∀ o', L.about o' → o' = o) (hfree : L.Free)
  (hincludes : site.includes = []) (hsource : site.source = o.source)

include hworld habout hfree hincludes hsource

/-- By the depth: what a block hands on is read with the stack that it was
    found with, and a path more if it is the text of a file. -/
theorem grow_stackedWithin {file : Site → Body → Parse Unit} {stacked : Site → Body → Stacked Unit}
    (hleaves : ∀ site'' b'', Stacked.Leaves (stacked site'' b''))
    (hfile : ∀ f site'' b'', Reached o site b (f :: files) site'' b'' →
      Contract (growing v v L n False) Anything (file site'' b'')
        (Stacked.reader alarm site''.includes stacked site'' b''))
    (depth : Nat) (h : Reached o site b files site' b') :
    Contract (growing v v L n False) Anything (Site.readWithin file depth site' b')
      (Stacked.reader alarm site'.includes (Stacked.readWithin alarm stacked depth) site' b') := by
  induction depth generalizing site' b' with
  | zero =>
    have hnone : Stacked.reader alarm site'.includes (Stacked.readWithin alarm stacked 0) site' b'
        = throw .exhausted := funext fun _ => if_pos rfl
    rw [hnone]
    exact .throw fun _ => .inl (hfree.stops _)
  | succ depth ih =>
    rw [Stacked.reader_readWithin]
    -- The second run comes past the guard, for its document has the same source.
    have hdistinct : ∀ {s t : ParseState}, (growing v v L n False).alike s t →
        (growing v v L n False).ready s → (site'.includes ++ [t.doc.source]).Nodup := by
      intro s t hst hready
      have hchain := h.chain hincludes hsource
      obtain ⟨_, ⟨forest, halt, -, -⟩, rfl⟩ := hst
      rw [← Document.origin_source]
      exact habout _ hready.2.2 ▸ hchain.distinct
    suffices hall : Contract (growing v v L n False) Anything
        ((site'.blocks b').forM (site'.block ⟨Site.readWithin file depth, file⟩))
        ((site'.blocks b').forM (Stacked.step alarm (Stacked.readWithin alarm stacked depth) stacked
          site'.includes site')) by
      intro s t hst hready
      refine (hall s t hst hready).congr rfl ?_
      rw [Contract.bind_run, Stacked.guard_eq (hdistinct hst hready)]
    refine .forM fun block hblock => ?_
    intro s t hst hready
    have hsite := h.under_eq hworld
    have hgrow : Contract (growing v v L n False) Anything
        ((site'.under v).block ⟨Site.readWithin file depth, file⟩ block)
        ((site'.under v).block ⟨Stacked.reader alarm site'.includes
          (Stacked.readWithin alarm stacked depth), Stacked.reader alarm site'.includes
          (Stacked.entering stacked)⟩ block) := by
      refine site'.grow_block block (Site.fit_of_titles False.elim hblock
        (Site.allowed_of_free hfree _ block)) ?_
      intro o' from? site'' b'' ho' hhands _
      obtain rfl := habout o' ho'
      rw [hsite] at hhands
      have hreached := h.step hblock hhands
      rw [hreached.under_eq hworld, hhands.pick_stacked (hleaves site'' b'')]
      cases from? with
      | none => exact ih hreached
      | some f => exact hfile f site'' b'' hreached
    rw [hsite] at hgrow
    exact (hgrow s t hst hready).congr rfl (Stacked.step_eq _ _ block (hdistinct hst hready))

/-- By the number of files that fit inside one another. -/
theorem grow_stacked (count : Nat) (h : Reached o site b files site' b') :
    Contract (growing v v L n False) Anything (Site.read count site' b')
      (Stacked.reader alarm site'.includes (Stacked.read alarm count) site' b') := by
  induction count generalizing files site' b' with
  | zero =>
    have hnone : Stacked.reader alarm site'.includes (Stacked.read alarm 0) site' b'
        = throw .exhausted := funext fun _ => if_pos rfl
    rw [hnone]
    exact .throw fun _ => .inl (hfree.stops _)
  | succ count ih =>
    exact grow_stackedWithin hworld habout hfree hincludes hsource
      (fun site'' b'' => Stacked.read_leaves count site'' b'')
      (fun _ _ _ hreached => ih hreached) (b'.size + 1) h

end Same

end Reached

/-- The whole text is read at the bottom of an empty stack. -/
theorem Stacked.parseText_eq (alarm : Parse Unit) (env : Surroundings) (text : List Char) :
    Stacked.parseText alarm env text = MarkupLint.parseText env text := by
  funext s
  let v : World := ⟨env.files, env.clock⟩
  show (match splitLines? s.doc.tabWidth text with
      | none => throw .fault
      | some lines => reader alarm [] (read alarm (env.nesting + 1)) (s.doc.site env) ⟨0, lines⟩ :
      Parse Unit) s
    = (match splitLines? s.doc.tabWidth text with
      | none => throw .fault
      | some lines => Site.read (env.nesting + 1) (s.doc.site env) ⟨0, lines⟩ : Parse Unit) s
  cases splitLines? s.doc.tabWidth text with
  | none => rfl
  | some lines =>
    have hsame : Contract (growing v v (.anyOf s.doc.origin) 0 False) Anything
        (Site.read (env.nesting + 1) (s.doc.site env) ⟨0, lines⟩)
        (reader alarm [] (read alarm (env.nesting + 1)) (s.doc.site env) ⟨0, lines⟩) :=
      Reached.grow_stacked rfl (fun _ h => h) (License.free_anyOf _) rfl rfl _ .start
    exact (hsame.run_eq id ⟨Nat.zero_le _, fun _ _ _ _ => Nat.zero_le _, rfl⟩).symm

/-! ## Circles -/

namespace Call

variable {c : Call} {read : ReadBody} {s t : ParseState} {e : Complaint}

/-- Text that cannot be read or selected is a severe error. -/
theorem severe_of_includedText {r : Except SourceError (List Char)} {path : String}
    (h : c.includedText path r = .error e) : e.level = .severe := by
  have hbeside : ∀ {option side text}, c.besideMarker option side text = .error e →
      e.level = .severe := by
    intro option side text hside
    simp only [besideMarker] at hside
    split at hside
    · cases hside
    · split at hside <;> cases hside
      rfl
  cases r with
  | ok text =>
    simp only [includedText, selectMarked] at h
    cases hafter : c.besideMarker "start-after" (·.2) (c.selectLines text) with
    | error e' =>
      rw [hafter] at h
      cases h
      exact hbeside hafter
    | ok text' =>
      rw [hafter] at h
      exact hbeside h
  | error e' =>
    simp only [includedText] at h
    split at h <;> cases h <;> rfl

/-- Text with tabs is expanded without a complaint. -/
theorem expanded_ne_error {α : Type} (x : Option α) (e : Complaint) (s s' : ParseState) :
    (expanded x).run s ≠ .ok (.error e) s' := by
  cases x with
  | none => exact Run.lift_ne_error _ e s s'
  | some a => exact nofun

/-- An include complains about its path, or severely about the text behind
    it. -/
theorem complaint_of_includeFile (h : (c.includeFile read).run s = .ok (.error e) t) :
    c.includePath s.doc.source = .error e ∨ e.level = .severe := by
  rcases Run.bind_eq_error h with h | ⟨d, u, hd, h⟩
  · exact absurd h (Run.lift_ne_error _ _ _ _)
  cases hd
  cases hpath : c.includePath s.doc.source with
  | error e' =>
    rw [hpath] at h
    cases h
    exact .inl rfl
  | ok path =>
    rw [hpath] at h
    right
    rcases Run.bind_eq_error h with h | ⟨path', u, hu, h⟩
    · cases h
    cases hu
    rcases Run.bind_eq_error h with h | ⟨file, u, hu, h⟩
    · exact absurd h (Run.lift_ne_error _ _ _ _)
    cases htext : c.includedText path file with
    | error e' =>
      rw [htext] at h
      cases h
      exact severe_of_includedText htext
    | ok text =>
      rw [htext] at h
      rcases Run.bind_eq_error h with h | ⟨text', u, hu, h⟩
      · cases h
      cases hu
      -- What is left are steps of parsing.
      split at h
      · rcases Run.bind_eq_error h with h | ⟨shown, u, -, h⟩
        · exact absurd h (expanded_ne_error _ _ _ _)
        · exact absurd h (Run.lift_ne_error _ _ _ _)
      · rcases Run.bind_eq_error h with h | ⟨lines, u, -, h⟩
        · exact absurd h (expanded_ne_error _ _ _ _)
        rcases Run.bind_eq_error h with h | ⟨parent, u, -, h⟩
        · exact absurd h (Run.lift_ne_error _ _ _ _)
        rcases Run.bind_eq_error h with h | ⟨_, u, -, h⟩
        · exact absurd h (Run.lift_ne_error _ _ _ _)
        · cases h

/-- An include is refused because of a circle just where its path is that of
    the document or of a file that is being included. -/
theorem includeFile_circular_iff (c : Call) (read : ReadBody) (s : ParseState) :
    (∃ path t, (c.includeFile read).run s = .ok (.error (c.cycleProblem path s.doc.source)) t) ↔
      ∃ path ∈ c.includeTarget?, path = s.doc.source ∨ path ∈ c.site.includes := by
  constructor
  · rintro ⟨path, t, h⟩
    obtain hpath | hsevere := complaint_of_includeFile h
    · cases htarget : c.includeTarget? with
      | none =>
        obtain ⟨reason, hproblem⟩ := includePath_of_none htarget s.doc.source
        have heq := Except.error.inj (hproblem.symm.trans hpath)
        have hlevel : Level.severe = Level.warning := congrArg Complaint.level heq
        cases hlevel
      | some target =>
        rw [includePath_of_some htarget] at hpath
        split at hpath
        · rename_i hcircle
          exact ⟨target, rfl, hcircle⟩
        · cases hpath
    · have hlevel : Level.warning = Level.severe := hsevere
      cases hlevel
  · rintro ⟨path, htarget, hcircle⟩
    have hpath := includePath_of_some htarget s.doc.source
    rw [if_pos hcircle] at hpath
    refine ⟨path, s, ?_⟩
    have hdocument : Parse.document s = .ok s.doc s := rfl
    unfold includeFile
    rw [Run.bind_lift hdocument, hpath]
    rfl

end Call

/-- **No file is included inside itself.**  Parsing is the same with one stack
    of files for all bodies, whatever the alarm does: before every body and
    every block no path is on the stack twice, nor is that of the document, and
    what a block hands on to be read, if only until something stops it, leaves
    the stack as it was.  An include is refused because of a circle just where
    its path is that of the document or of a file that is being included. -/
theorem parseText_stacked (alarm : Parse Unit) (env : Surroundings) (text : List Char) :
    Stacked.parseText alarm env text = parseText env text ∧
      ∀ (c : Call) (read : ReadBody) (s : ParseState),
        (∃ path t, (c.runStandard read .includeFile).run s
            = .ok (.error (c.cycleProblem path s.doc.source)) t) ↔
          ∃ path ∈ c.includeTarget?, path = s.doc.source ∨ path ∈ c.site.includes :=
  ⟨Stacked.parseText_eq alarm env text, fun c read s => c.includeFile_circular_iff read s⟩

end MarkupLint
