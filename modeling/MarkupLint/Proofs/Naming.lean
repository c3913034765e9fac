import MarkupLint.Proofs.Collecting

/-! # What names come to stand for

    The table of names keeps one node and one flag for a name, however often
    the name was noted.  What it holds has a closed form in the notings of the
    name (`Noting.owner`): explicit ones decide if there are any, whatever
    implicit ones came before, between or after them.  The same history says
    which notings are complained about (`Noting.complaint`).

    A list of names may hold one of them twice, so notings are counted by
    the names in the lists and not by the calls that note them. -/

namespace MarkupLint

/-! ## The notings of one name -/

/-- A name that is noted for a node. -/
structure Noting where
  node : NodeId
  explicit : Bool
  name : String
  deriving DecidableEq, Repr

namespace Noting

/-- Whether a node leads somewhere, and to where another one leads. -/
def leads (refuri : NodeId → String) (first later : NodeId) : Bool :=
  refuri later ≠ "" && refuri first == refuri later

/-- The node that a name stands for after its notings; none if the name is
    ambiguous. -/
def owner (refuri : NodeId → String) (mine : List Noting) : Option NodeId :=
  match mine.filter (·.explicit), mine with
  | first :: later, _ =>
    if later.all fun y => leads refuri first.node y.node then some first.node else none
  | [], [only] => some only.node
  | [], _ => none

/-- What a name stands for after the notings of all names; nothing if it is
    not among them. -/
def meaning (refuri : NodeId → String) (past : List Noting) (name : String) :
    Option (Option NodeId) :=
  let mine := past.filter (·.name = name)
  if mine = [] then none else some (owner refuri mine)

/-- Nothing is complained about the first noting of a name, nor about an
    explicit one after several implicit ones. -/
def quiet (mine : List Noting) (x : Noting) : Bool :=
  mine = [] || x.explicit && mine.all (!·.explicit) && 2 ≤ mine.length

/-- What is complained about a noting after others of the same name. -/
def complaint (refuri : NodeId → String) (mine : List Noting) (x : Noting) : Option Clash :=
  if quiet mine x then none
  else if x.explicit && mine.any (·.explicit) then
    some (.explicit (if (owner refuri (mine ++ [x])).isSome then .info else .warning))
  else some .implicit

/-- What is complained about notings that come, one after the other, after
    those of the past. -/
def complaints (refuri : NodeId → String) (past : List Noting) : List Noting → List (Noting × Clash)
  | [] => []
  | x :: rest =>
    ((complaint refuri (past.filter (·.name = x.name)) x).map (x, ·)).toList
      ++ complaints refuri (past ++ [x]) rest

/-- Complaints come one noting after the other. -/
theorem complaints_cons (refuri : NodeId → String) (past : List Noting) (x : Noting)
    (rest : List Noting) :
    complaints refuri past (x :: rest)
      = complaints refuri past [x] ++ complaints refuri (past ++ [x]) rest := by
  simp [complaints]

/-- The entry of a name after its notings. -/
def bound? (refuri : NodeId → String) (mine : List Noting) : Option NameEntry :=
  if mine = [] then none else some ⟨owner refuri mine, mine.any (·.explicit)⟩

variable {refuri refuri' : NodeId → String} {mine past : List Noting} {x first : Noting}
  {later : List Noting}

/-- The first explicit noting owns the name if all later ones lead where it
    leads. -/
theorem owner_of_explicit (h : mine.filter (·.explicit) = first :: later) :
    owner refuri mine =
      if later.all fun y => leads refuri first.node y.node then some first.node else none := by
  unfold owner
  rw [h]

/-- Of several implicit notings none owns the name. -/
theorem owner_of_several (h : mine.filter (·.explicit) = []) (hlength : mine.length ≠ 1) :
    owner refuri mine = none := by
  unfold owner
  rw [h]
  match mine, hlength with
  | [], _ => rfl
  | [_], hlength => exact absurd rfl hlength
  | _ :: _ :: _, _ => rfl

/-- Whether any noting is explicit, asked of the explicit ones. -/
theorem any_explicit (mine : List Noting) :
    mine.any (·.explicit) = !(mine.filter (·.explicit)).isEmpty := by
  induction mine with
  | nil => rfl
  | cons y mine ih => cases h : y.explicit <;> simp [h, ih]

/-- Claiming a name that is taken does to its entry what one more noting does
    to the history of the name. -/
theorem claim_entry (hmine : mine ≠ []) (x : Noting) :
    NameEntry.claim ⟨owner refuri mine, mine.any (·.explicit)⟩ x.node x.explicit
        ((owner refuri mine).any fun o => leads refuri o x.node)
      = (⟨owner refuri (mine ++ [x]), (mine ++ [x]).any (·.explicit)⟩,
          complaint refuri mine x) := by
  cases hexplicit : mine.filter (·.explicit) with
  | nil =>
    have hnone : mine.any (·.explicit) = false := by
      rw [any_explicit, hexplicit]
      rfl
    cases hx : x.explicit with
    | false =>
      -- Two implicit notings, or more.
      have howner : owner refuri (mine ++ [x]) = none := by
        refine owner_of_several (by simp [hexplicit, hx]) fun hone => hmine ?_
        simpa using hone
      simp [NameEntry.claim, complaint, quiet, hnone, hx, howner, hmine]
    | true =>
      have howner : owner refuri (mine ++ [x]) = some x.node := by
        rw [owner_of_explicit (show _ = [x] by simp [hexplicit, hx])]
        rfl
      have hall : (mine.all fun y => !y.explicit) = true := by simpa using hnone
      -- The name was ambiguous before if several implicit notings came before.
      have hquiet : quiet mine x = !(owner refuri mine).isSome := by
        match mine, hmine with
        | [only], _ =>
          have honly : owner refuri [only] = some only.node := by
            unfold owner
            rw [hexplicit]
          simp [quiet, honly]
        | y :: z :: rest, _ =>
          rw [owner_of_several hexplicit (by simp)]
          simp [quiet, hall, hx]
      simp only [NameEntry.claim, complaint, hquiet, hnone, hx, howner]
      cases (owner refuri mine).isSome <;> simp [hx]
  | cons first later =>
    have hsome : mine.any (·.explicit) = true := by
      rw [any_explicit, hexplicit]
      rfl
    have hquiet : quiet mine x = false := by
      have hall : (mine.all fun y => !y.explicit) = false := by simpa using hsome
      simp [quiet, hmine, hall]
    cases hx : x.explicit with
    | false =>
      have howner : owner refuri (mine ++ [x]) = owner refuri mine := by
        rw [owner_of_explicit hexplicit,
          owner_of_explicit (show _ = first :: later by simp [hexplicit, hx])]
      simp [NameEntry.claim, complaint, hquiet, hsome, hx, howner]
    | true =>
      have hafter : owner refuri (mine ++ [x])
          = if (later ++ [x]).all fun y => leads refuri first.node y.node then some first.node
            else none :=
        owner_of_explicit (by simp [hexplicit, hx])
      rw [owner_of_explicit hexplicit]
      simp only [NameEntry.claim, complaint, hquiet, hsome, hafter, List.all_append,
        List.all_cons, List.all_nil, Bool.and_true, List.any_append, Bool.true_or]
      cases later.all fun y => leads refuri first.node y.node <;>
        cases hleads : leads refuri first.node x.node <;> simp [hx, hleads]

/-- The places that nodes lead to matter for the nodes noted only. -/
theorem owner_congr (h : ∀ y ∈ mine, refuri y.node = refuri' y.node) :
    owner refuri mine = owner refuri' mine := by
  cases hexplicit : mine.filter (·.explicit) with
  | nil =>
    unfold owner
    rw [hexplicit]
    match mine with
    | [] | [_] | _ :: _ :: _ => rfl
  | cons first later =>
    have hmem : ∀ y ∈ first :: later, refuri y.node = refuri' y.node := fun y hy =>
      h y (List.mem_of_mem_filter (hexplicit ▸ hy))
    obtain ⟨hfirst, hlater⟩ := List.forall_mem_cons.mp hmem
    have hall : (later.all fun y => leads refuri first.node y.node)
        = later.all fun y => leads refuri' first.node y.node := by
      rw [Bool.eq_iff_iff, List.all_eq_true, List.all_eq_true]
      refine forall₂_congr fun y hy => ?_
      rw [leads, leads, hfirst, hlater y hy]
    rw [owner_of_explicit hexplicit, owner_of_explicit hexplicit, hall]

/-- What a name is bound to depends on its notings' addresses only. -/
theorem bound?_congr (h : ∀ y ∈ mine, refuri y.node = refuri' y.node) :
    bound? refuri mine = bound? refuri' mine := by
  rw [bound?, bound?, owner_congr h]

/-- So does what is said about a noting. -/
theorem complaint_congr (h : ∀ y ∈ mine ++ [x], refuri y.node = refuri' y.node) :
    complaint refuri mine x = complaint refuri' mine x := by
  rw [complaint, complaint, owner_congr h]

/-- And what is said about all of them. -/
theorem complaints_congr {rest : List Noting}
    (h : ∀ y ∈ past ++ rest, refuri y.node = refuri' y.node) :
    complaints refuri past rest = complaints refuri' past rest := by
  induction rest generalizing past with
  | nil => rfl
  | cons x rest ih =>
    have hrest : complaints refuri (past ++ [x]) rest = complaints refuri' (past ++ [x]) rest :=
      ih (by simpa using h)
    rw [complaints, complaints, hrest]
    refine congrArg (fun c => (c.map (x, ·)).toList ++ _) (complaint_congr fun y hy => h y ?_)
    rcases List.mem_append.mp hy with hy | hy
    · exact List.mem_append_left _ (List.mem_of_mem_filter hy)
    · exact List.mem_append_right _ (List.mem_singleton.mp hy ▸ List.mem_cons_self)

end Noting

/-! ## Noting one name -/

namespace Document

/-- Where a node leads. -/
def refuri (d : Document) (i : NodeId) : String := (d.node i).refuri

/-- The table of names is what the notings made of it. -/
structure Notes (d : Document) (past : List Noting) : Prop where
  inside : ∀ y ∈ past, y.node < d.forest.size
  entry : ∀ name, d.names.get? name = Noting.bound? d.refuri (past.filter (·.name = name))

variable {d d' : Document} {past : List Noting}

/-- Addresses are compared in the document as among the notings. -/
theorem sameUri_eq (d : Document) (old : Option NodeId) (n : NodeId) :
    d.sameUri old n = old.any fun o => Noting.leads d.refuri o n := by
  cases old <;> rfl

/-- Whatever keeps the table of names and the addresses keeps its notings. -/
theorem Notes.keep (h : d.Notes past) (hnames : d'.names = d.names)
    (hsize : d.forest.size ≤ d'.forest.size)
    (hrefuri : ∀ i < d.forest.size, d'.refuri i = d.refuri i) : d'.Notes past := by
  refine ⟨fun y hy => Nat.lt_of_lt_of_le (h.inside y hy) hsize, fun name => ?_⟩
  rw [hnames, h.entry]
  exact Noting.bound?_congr fun y hy => (hrefuri _ (h.inside y (List.mem_of_mem_filter hy))).symm

/-- The document after a name was noted, before anything is said about it. -/
theorem Notes.set (h : d.Notes past) {x : Noting} (hx : x.node < d.forest.size) :
    ∃ e, Notes { d with names := d.names.set x.name e } (past ++ [x]) ∧
      (match d.names.get? x.name with
        | none => (⟨some x.node, x.explicit⟩, none)
        | some old => old.claim x.node x.explicit (d.sameUri old.node x.node))
      = (e, Noting.complaint d.refuri (past.filter (·.name = x.name)) x) := by
  obtain ⟨mine, hdef⟩ : ∃ mine, past.filter (·.name = x.name) = mine := ⟨_, rfl⟩
  refine ⟨⟨Noting.owner d.refuri (mine ++ [x]), (mine ++ [x]).any (·.explicit)⟩, ⟨?_, ?_⟩, ?_⟩
  · rintro y hy
    rcases List.mem_append.mp hy with hy | hy
    · exact h.inside y hy
    · exact List.mem_singleton.mp hy ▸ hx
  · intro name
    rw [List.filter_append]
    by_cases hname : name = x.name
    · subst hname
      simp [Noting.bound?, hdef]
      rfl
    · have hother : [x].filter (·.name = name) = [] := by simp [Ne.symm hname]
      rw [hother, List.append_nil, Data.Table.get?_set_of_ne _ _ hname]
      exact h.entry name
  · rw [h.entry, hdef, Noting.bound?]
    by_cases hmine : mine = []
    · subst hmine
      cases hx : x.explicit <;> simp [Noting.owner, Noting.complaint, Noting.quiet, hx]
    · rw [if_neg hmine]
      simp only [sameUri_eq]
      exact Noting.claim_entry hmine x

end Document

/-- What a notice says is what is complained about a noting. -/
def Notice.states (x : Notice) (c : Noting × Clash) : Prop :=
  x.level = c.2.level ∧ x.text = c.2.message c.1.name

/-- One noting adds to the history of the names; what is complained about it
    is raised as a message, and given if the message does not stop the run. -/
theorem Build.noteName_run {d : Document} {past : List Noting} (h : d.Notes past) {n : NodeId}
    (hn : n < d.forest.size) (explicit : Bool) (name : String) :
    let x : Noting := ⟨n, explicit, name⟩
    ∃ (d' : Document) (notices : List Notice), d'.Notes (past ++ [x]) ∧
      d.forest.Extends d'.forest ∧
      d'.reporter = notices.foldl Reporter.heard d.reporter ∧
      List.Forall₂ Notice.states notices (Noting.complaints d.refuri past [x]) ∧
      ((∃ msgs : List NodeId, msgs.length = notices.length ∧
          Build.noteName n explicit name d = .ok msgs d') ∨
        ∃ last ∈ notices.getLast?,
          Build.noteName n explicit name d = .error (.halted last.halt) d') := by
  intro x
  obtain ⟨e, hnotes, hclaim⟩ := h.set (x := ⟨n, explicit, name⟩) hn
  dsimp only at hclaim
  have hdocument : (get : Build Document) d = .ok d d := rfl
  have hmodify : ∀ e : NameEntry, (modify fun d : Document =>
      { d with names := d.names.set name e } : Build Unit) d
        = .ok () { d with names := d.names.set name e } := fun _ => rfl
  have hrun : Build.noteName n explicit name d =
      (((Noting.complaint d.refuri (past.filter (·.name = name)) x).map fun c =>
        do return [← Build.raise c.level (c.message name) { base := some n }]).getD
          (return []) : Build (List NodeId)) { d with names := d.names.set name e } := by
    cases hget : d.names.get? name with
    | none =>
      rw [hget] at hclaim
      obtain ⟨rfl, hclash⟩ := Prod.mk.inj hclaim
      rw [← hclash]
      simp only [Build.noteName, Contract.bind_run, hdocument, hget, hmodify]
      rfl
    | some old =>
      rw [hget] at hclaim
      simp only [Build.noteName, Contract.bind_run, hdocument, hget, hclaim, hmodify]
      cases Noting.complaint d.refuri (past.filter (·.name = name)) x <;> rfl
  rw [hrun]
  have hcomplaints : Noting.complaints d.refuri past [x]
      = ((Noting.complaint d.refuri (past.filter (·.name = name)) x).map (x, ·)).toList :=
    List.append_nil _
  rw [hcomplaints]
  cases hcomplaint : Noting.complaint d.refuri (past.filter (·.name = name)) x with
  | none =>
    exact ⟨_, [], hnotes, ⟨Nat.le_refl _, fun _ _ => rfl⟩, rfl, .nil, .inl ⟨[], rfl, rfl⟩⟩
  | some c =>
    obtain ⟨notice, g, hlevel, htext, hextends, hends⟩ := Build.raise_heard c.level (c.message name)
      { base := some n } { d with names := d.names.set name e }
    let d' : Document :=
      { d with names := d.names.set name e, forest := g, reporter := d.reporter.heard notice }
    have hkept : d'.Notes (past ++ [x]) := hnotes.keep rfl hextends.size fun i hi =>
      congrArg (·.refuri) (hextends.old i hi)
    refine ⟨d', [notice], hkept, hextends, rfl, .cons ⟨hlevel, htext⟩ .nil, ?_⟩
    rw [Option.map_some, Option.getD_some, Contract.bind_run]
    rcases hends with ⟨-, hraise⟩ | ⟨msg, hraise⟩
    · refine .inr ⟨notice, rfl, ?_⟩
      rw [hraise]
    · refine .inl ⟨[msg], rfl, ?_⟩
      rw [hraise]
      rfl

/-! ## Noting the names of nodes -/

namespace Build

/-- The names that the noting of several names for a node gets to before a
    message stops it. -/
def reached (n : NodeId) (explicit : Bool) : Document → List String → List String
  | _, [] => []
  | d, name :: names =>
    name :: match noteName n explicit name d with
      | .ok _ d' => reached n explicit d' names
      | .error _ _ => []

/-- By the names: each is noted, until one of them halts the run. -/
theorem noteNames_run {d : Document} {past : List Noting} (h : d.Notes past) {n : NodeId}
    (hn : n < d.forest.size) (explicit : Bool) (names : List String) :
    let new := (reached n explicit d names).map (Noting.mk n explicit)
    ∃ (d' : Document) (notices : List Notice), d'.Notes (past ++ new) ∧
      d.forest.Extends d'.forest ∧
      d'.reporter = notices.foldl Reporter.heard d.reporter ∧
      List.Forall₂ Notice.states notices (Noting.complaints d.refuri past new) ∧
      ((∃ msgs : List (List NodeId), msgs.flatten.length = notices.length ∧
          reached n explicit d names = names ∧
          names.mapM (noteName n explicit) d = .ok msgs d') ∨
        ∃ last ∈ notices.getLast?,
          names.mapM (noteName n explicit) d = .error (.halted last.halt) d') := by
  induction names generalizing d past with
  | nil =>
    refine ⟨d, [], ?_, ⟨Nat.le_refl _, fun _ _ => rfl⟩, rfl, .nil, .inl ⟨[], rfl, rfl, rfl⟩⟩
    simpa [reached] using h
  | cons name names ih =>
    obtain ⟨d₁, first, hnotes₁, hextends₁, hreporter₁, hstates₁, hends₁⟩ :=
      noteName_run h hn explicit name
    rcases hends₁ with ⟨msgs₁, hlength₁, hrun₁⟩ | ⟨last, hlast, hrun₁⟩
    · -- The other names are noted in the history that the first one is part of.
      obtain ⟨d₂, rest, hnotes₂, hextends₂, hreporter₂, hstates₂, hends₂⟩ :=
        ih hnotes₁ (Nat.lt_of_lt_of_le hn hextends₁.size)
      have hreached : reached n explicit d (name :: names)
          = name :: reached n explicit d₁ names := by
        rw [reached, hrun₁]
      rw [hreached, List.map_cons]
      refine ⟨d₂, first ++ rest, by simpa using hnotes₂, hextends₁.trans hextends₂, ?_, ?_, ?_⟩
      · rw [hreporter₂, hreporter₁, List.foldl_append]
      · rw [Noting.complaints_cons]
        refine List.rel_append hstates₁ ?_
        have hsame := @Noting.complaints_congr d₁.refuri d.refuri (past ++ [⟨n, explicit, name⟩])
          ((reached n explicit d₁ names).map (Noting.mk n explicit)) fun y hy => ?_
        · rwa [← hsame]
        · refine congrArg (·.refuri) (hextends₁.old y.node ?_)
          rcases List.mem_append.mp hy with hy | hy
          · rcases List.mem_append.mp hy with hy | hy
            · exact h.inside y hy
            · exact List.mem_singleton.mp hy ▸ hn
          · obtain ⟨_, -, rfl⟩ := List.mem_map.mp hy
            exact hn
      · rcases hends₂ with ⟨msgs₂, hlength₂, hall, hrun₂⟩ | ⟨last, hlast, hrun₂⟩
        · refine .inl ⟨msgs₁ :: msgs₂, ?_, by rw [hall], ?_⟩
          · rw [List.flatten_cons, List.length_append, List.length_append, hlength₁, hlength₂]
          · rw [List.mapM_cons]
            simp only [bind, EStateM.bind, hrun₁, hrun₂, pure, EStateM.pure]
        · refine .inr ⟨last, ?_, ?_⟩
          · rw [List.getLast?_append, Option.mem_def.mp hlast]
            rfl
          · rw [List.mapM_cons]
            simp only [bind, EStateM.bind, hrun₁, hrun₂]
    · -- The message about the first name stopped the run, so no other one is reached.
      have hreached : reached n explicit d (name :: names) = [name] := by
        rw [reached, hrun₁]
      rw [hreached]
      refine ⟨d₁, first, hnotes₁, hextends₁, hreporter₁, hstates₁, .inr ⟨last, hlast, ?_⟩⟩
      rw [List.mapM_cons]
      simp only [bind, EStateM.bind, hrun₁]

end Build

namespace Document

variable {d : Document} {past : List Noting}

/-- The notings of a call that notes the names of a node. -/
def notings (d : Document) (n : NodeId) (explicit : Bool) : List Noting :=
  (Build.reached n explicit d (d.node n).names).map (Noting.mk n explicit)

/-- The names of a node are noted with it, and what there is to complain of is
    told. -/
theorem noteTarget_run (h : d.Notes past) (n : NodeId) (explicit : Bool) :
    (stateAfter (Build.noteTarget n explicit) d).Notes (past ++ d.notings n explicit) ∧
      ∃ notices : List Notice,
        (stateAfter (Build.noteTarget n explicit) d).reporter
            = notices.foldl Reporter.heard d.reporter ∧
          List.Forall₂ Notice.states notices
            (Noting.complaints d.refuri past (d.notings n explicit)) ∧
          match Build.noteTarget n explicit d with
          | .ok msgs _ => msgs.length = notices.length ∧
              d.notings n explicit = (d.node n).names.map (Noting.mk n explicit)
          | .error stop _ => ∃ last ∈ notices.getLast?, stop = .halted last.halt := by
  have hrun : Build.noteTarget n explicit d
      = ((d.node n).names.mapM (Build.noteName n explicit) >>= fun msgs => pure msgs.flatten) d :=
    rfl
  rw [notings, stateAfter_eq, hrun]
  by_cases hn : n < d.forest.size
  · obtain ⟨d', notices, hnotes, -, hreporter, hstates, hends⟩ :=
      Build.noteNames_run h hn explicit (d.node n).names
    rcases hends with ⟨msgs, hlength, hall, hmapM⟩ | ⟨last, hlast, hmapM⟩
    · simp only [bind, EStateM.bind, hmapM, pure, EStateM.pure, endState]
      exact ⟨hnotes, notices, hreporter, hstates, hlength, by rw [hall]⟩
    · simp only [bind, EStateM.bind, hmapM, endState]
      exact ⟨hnotes, notices, hreporter, hstates, last, hlast, rfl⟩
  · -- A place without a node has no names.
    have hnames : (d.node n).names = [] := by
      rw [node, Forest.get_of_size_le (Nat.le_of_not_lt hn)]
      rfl
    rw [hnames]
    refine ⟨?_, [], rfl, .nil, rfl, rfl⟩
    rw [Build.reached, List.map_nil, List.append_nil]
    exact h

/-- A document in which calls noted names, one after the other.  Meanwhile
    anything was done but to the table of names and to where nodes lead. -/
inductive Noted : Document → List Noting → Prop
  | start {d : Document} (h : d.names = []) : Noted d []
  | call {d : Document} {past : List Noting} (before : Noted d past) (n : NodeId)
      (explicit : Bool) :
      Noted (stateAfter (Build.noteTarget n explicit) d) (past ++ d.notings n explicit)
  | meanwhile {d d' : Document} {past : List Noting} (before : Noted d past)
      (names : d'.names = d.names) (size : d.forest.size ≤ d'.forest.size)
      (refuri : ∀ i < d.forest.size, d'.refuri i = d.refuri i) : Noted d' past

/-- By the notings: the table of names is what they make of it. -/
theorem Noted.notes (h : d.Noted past) : d.Notes past := by
  induction h with
  | start h => exact ⟨nofun, fun name => by rw [h]; rfl⟩
  | call _ n explicit ih => exact (noteTarget_run ih n explicit).1
  | meanwhile _ names size refuri ih => exact ih.keep names size refuri

/-- **What a name stands for has a closed form.**  Whatever names were noted
    for whatever nodes, a name is unknown if none of the notings is of it.
    The first explicit noting decides otherwise, if all later explicit ones
    are of nodes that lead to the same place; without explicit ones the name
    has to be noted once.  One more call raises a message for each of its
    notings that is not the first one of its name, but for the first explicit
    one after several implicit ones; a call that stops was stopped by the
    last of them. -/
theorem names_closed_form (h : d.Noted past) :
    (∀ name, d.lookup name = Noting.meaning d.refuri past name) ∧
      ∀ (n : NodeId) (explicit : Bool), ∃ notices : List Notice,
        (stateAfter (Build.noteTarget n explicit) d).reporter
            = notices.foldl Reporter.heard d.reporter ∧
          List.Forall₂ Notice.states notices
            (Noting.complaints d.refuri past (d.notings n explicit)) ∧
          match Build.noteTarget n explicit d with
          | .ok msgs _ => msgs.length = notices.length ∧
              d.notings n explicit = (d.node n).names.map (Noting.mk n explicit)
          | .error stop _ => ∃ last ∈ notices.getLast?, stop = .halted last.halt := by
  refine ⟨fun name => ?_, fun n explicit => (noteTarget_run h.notes n explicit).2⟩
  rw [lookup, h.notes.entry, Noting.bound?, Noting.meaning]
  split <;> rfl

/-- Two titles and then a target have the same name: it stands for the
    target. -/
theorem names_closed_form_override :
    let target (names : List String) : Node := { kind := .target, names := names }
    let d : Document := { Document.new "" {} with
      forest := ⟨#[{ kind := .document }, target ["a"], target ["a"], target ["a"]]⟩ }
    let d' := stateAfter (Build.noteTarget 3 true)
      (stateAfter (Build.noteTarget 2 false) (stateAfter (Build.noteTarget 1 false) d))
    d'.lookup "a" = some (some 3) ∧ ∃ past, d'.Noted past := by
  intro target d d'
  have h := (((Noted.start (d := d) rfl).call 1 false).call 2 false).call 3 true
  refine ⟨((names_closed_form h).1 "a").trans ?_, _, h⟩
  decide +kernel

/-- A name that one call notes twice is ambiguous. -/
theorem noted_twice_ambiguous :
    ¬∀ (d : Document) (n : NodeId) (name : String), d.names = [] → name ∈ (d.node n).names →
      (stateAfter (Build.noteTarget n false) d).lookup name = some (some n) := by
  intro hclaim
  let d : Document := { Document.new "" {} with
    forest := ⟨#[{ kind := .document }, { kind := .target, names := ["a", "a"] }]⟩ }
  have honce := hclaim d 1 "a" rfl (by decide)
  revert honce
  decide

end Document

end MarkupLint
