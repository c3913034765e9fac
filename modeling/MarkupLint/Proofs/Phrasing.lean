import MarkupLint.Parse.Inline
import MarkupLint.Proofs.Tending

/-! # Text in a line under watch

    What inline markup makes of a text may stand in a line, and what it
    complains about names the source of the text.  Roles apart: they are not
    told the source, so their complaints name that of the document. -/

namespace MarkupLint

/-- The names that a text sees are those of the standard constructs, or of
    none at all. -/
structure Surroundings.Builtin (env : Surroundings) : Prop where
  roles : ∀ name r, env.role? name = some r → r.isPhrase = true
  directives : ∀ name c, env.directive? name ≠ some (.custom c)

namespace Watch

/-- The site may be read under watch. -/
structure Tends (W : Watch) (site : Site) : Prop where
  hears : W.Hears site.source
  builtin : W.strict → site.env.Builtin

/-- The nodes may stand in a line, and the messages anywhere. -/
structure Inlines (W : Watch) (d : Document) (made : Inlined) : Prop where
  nodes : W.Fit d .inline made.nodes
  messages : W.Fit d .container made.messages

variable {W : Watch} {d e : Document} {made : Inlined}

/-- What stands in a line goes on doing so. -/
theorem Inlines.changes (h : W.Inlines d made) (hde : d.Changes e) : W.Inlines e made :=
  ⟨h.nodes.changes hde, h.messages.changes hde⟩

theorem Leads.inlines {σ : Type} [HasDocument σ] {s t : σ} (hst : W.Leads s t)
    (h : W.Inlines (HasDocument.document s) made) : W.Inlines (HasDocument.document t) made :=
  h.changes hst.changes

/-- One node without messages. -/
theorem Inlines.one {i : NodeId} {text : String} (h : W.Fit d .inline [i]) :
    W.Inlines d ⟨[i], [], text⟩ :=
  ⟨h, .nil d _⟩

theorem Inlines.none (d : Document) : W.Inlines d {} := ⟨.nil d _, .nil d _⟩

end Watch

variable {W : Watch} {d : Document} {s : ParseState} {α : Type}

/-! ## Steps on the document -/

theorem ParseState.Orderly.changes {e : Document} (h : s.Orderly) (hde : s.doc.Changes e) :
    ({ s with doc := e } : ParseState).Orderly :=
  ⟨h.roles, fun i hi => (h.sections i hi).changes hde⟩

/-- A step on the document, while a text is parsed. -/
theorem Parse.meets_build {x : Build α} {P : α → Document → Prop} (h : W.Meets s.doc x P) :
    W.Meets s (build x) fun a t => P a t.doc := by
  intro hs
  have hends := h ⟨hs.usual, hs.origin, hs.accounted, fun _ => trivial⟩
  rw [build]
  generalize x s.doc = result at hends
  cases hends with
  | ok leads gives =>
    exact .ok ⟨⟨leads.holds.usual, leads.holds.origin, leads.holds.accounted, fun hstrict =>
      .changes (hs.orderly hstrict) leads.changes⟩, leads.changes, leads.heard, leads.listed⟩ gives
  | stop stops => exact .stop stops

/-- A message at a line of a site names the source of the site. -/
theorem Site.meets_raise {site : Site} (hsite : W.Tends site) (level : Level) (line : Nat)
    (text : String) (literal : Option String) :
    W.Meets d (site.raise level line text literal) fun msg e => W.Fit e .container [msg] :=
  (Build.meets_raise fun _ hspot => hsite.hears _ fun hne => Build.place_source hspot hne).mono
    fun _ _ _ h => h.1

/-- The next block of a body goes where nodes of any kind may stand. -/
theorem Site.meets_container {site : Site} (hparent : W.Roomy s.doc site.parent) :
    W.Meets s site.container fun p t => W.Roomy t.doc p := by
  refine .start fun hs => .get (.pure fun hstrict => ?_)
  have horderly : s.Orderly := hs.orderly hstrict
  have hproper := (hs.accounted hstrict).proper
  split
  · cases hsections : s.sections with
    | nil =>
      refine ⟨hproper.inside, ?_⟩
      show (s.doc.node s.doc.root).kind.isRoomy = true
      rw [show (s.doc.node s.doc.root).kind = .document from hproper.kind]
      rfl
    | cons i rest => exact horderly.sections i (by simp [hsections])
  · exact hparent hstrict

/-! ## Roles -/

namespace RoleCall

/-- A complaint of a role names the source of the document. -/
theorem meets_problem (c : RoleCall) {message : String} (h : c.Objection message) :
    W.Meets d (c.problem message) fun made e => W.Inlines e made := by
  refine .start fun hd => .bind (Build.meets_raise fun spot hspot => ?_) fun msg e _ hmsg => ?_
  · obtain rfl : spot = (d.reporter.source, c.line) := by
      have hplace : Build.place { line := some c.line } d = .ok (d.reporter.source, c.line) d := rfl
      rw [hplace] at hspot
      cases hspot
      rfl
    exact W.roles _ ⟨rfl, hd.usual, c, h, rfl⟩
  · refine .bind (Build.meets_textElement _ fun _ => ⟨nofun, rfl⟩) fun i f hef hi => ?_
    exact .pure ⟨hi.fit rfl, hef.fit hmsg.1⟩

/-- A role's text in a node of its kind. -/
theorem meets_wrap (c : RoleCall) {n : Node} (hn : W.strict → n.kind.isPhrase = true) :
    W.Meets d (c.wrap n) fun made e => W.Inlines e made := by
  refine .bind (Build.meets_textElement _ fun hstrict => ?_) fun i e _ hi => ?_
  · exact ⟨Kind.ne_pending_of_isPhrase (hn hstrict), Kind.isList_of_isPhrase (hn hstrict)⟩
  · exact .pure (.one (hi.fit_of_strict fun hstrict => Kind.mayHold_of_isPhrase rfl (hn hstrict)))

/-- A reference with a number is a node with an address. -/
theorem meets_numbered (c : RoleCall) (shown uri : String) :
    W.Meets d (c.numbered shown uri) fun made e => W.Inlines e made :=
  .bind (Build.meets_textElement _ fun _ => ⟨nofun, rfl⟩) fun _ _ _ hi => .pure (.one (hi.fit rfl))

end RoleCall

/-- By induction on the role: a role that the document defined applies its
    base. -/
theorem Role.meets_apply (c : RoleCall) (r : Role) (hr : W.strict → r.isPhrase = true) :
    W.Meets d (r.apply c) fun made e => W.Inlines e made := by
  induction r generalizing d with
  | generic kind => exact c.meets_wrap hr
  | code => exact c.meets_wrap fun _ => rfl
  | pep =>
    simp only [apply]
    split
    · exact .ite (fun _ => c.meets_numbered _ _) fun _ => c.meets_problem .pep
    · exact c.meets_problem .pep
  | rfc =>
    simp only [apply]
    split
    · exact .ite (fun _ => c.meets_numbered _ _) fun _ => c.meets_problem .rfc
    · exact c.meets_problem .rfc
  | raw format => exact .ite (fun _ => c.meets_problem .raw) fun _ => c.meets_wrap fun _ => rfl
  | styled base classes ih =>
    refine .bind (ih hr) fun made e _ hmade => ?_
    refine .bind (.forM fun i _ f _ => ?_) fun _ f hef _ => .pure (hef.inlines hmade)
    exact Build.meets_node (.ite (fun _ => Build.meets_setAttr i _ _) fun _ => .pure trivial)
  | ignored => exact .pure (.none d)
  | custom role =>
    simp only [apply]
    cases role.answer c with
    | problem => exact c.meets_problem .custom
    | nothing => exact .pure (.none d)
    | wrap attributes => exact c.meets_wrap fun _ => rfl

/-! ## Pieces -/

/-- The role of a name makes text in a line. -/
theorem Site.meets_role? {site : Site} (hsite : W.Tends site) (name : String) :
    W.Meets s (site.role? name) fun r _ => ∀ role, r = some role → W.strict → role.isPhrase = true := by
  refine .start fun hs => .get ?_
  split
  · rename_i r hget
    refine .pure fun role hrole hstrict => ?_
    obtain rfl := Option.some.inj hrole
    have horderly : s.Orderly := hs.orderly hstrict
    exact horderly.roles _ _ hget
  · exact .pure fun role hrole hstrict => (hsite.builtin hstrict).roles _ _ hrole

namespace Parse.InlineSite

variable {x : InlineSite} (hsite : W.Tends x.site)

/-- Lines are written into new nodes. -/
theorem meets_place (x : InlineSite) (nodes : List NodeId) : W.Keeps d (x.place nodes) := by
  refine .forM fun i _ e _ => Build.meets_update i ?_ ?_ ?_ fun _ => ?_
  · intro n
    split <;> rfl
  · intro n
    split <;> rfl
  · intro n
    split <;> rfl
  · split <;> rfl

include hsite

/-- A problem is a message, with its text marked. -/
theorem meets_problem (level : Level) (message : String) (raw : List Char) :
    W.Meets d (x.problem level message raw) fun made e => W.Inlines e made := by
  refine .bind (Site.meets_raise hsite _ _ _ _) fun msg e _ hmsg => ?_
  refine .bind (Build.meets_textElement _ fun _ => ⟨nofun, rfl⟩) fun i f hef hi => ?_
  exact .pure ⟨hi.fit rfl, hef.fit hmsg⟩

/-- A role is looked up and called; an unknown one is a message. -/
theorem meets_interpret (role raw inner : List Char) :
    W.Meets s (x.interpret role raw inner) fun made t => W.Inlines t.doc made := by
  have hname : W.Keeps s (roleName role) := .get (.pure trivial)
  refine .bind hname fun name t _ _ => .bind (Site.meets_role? hsite name) fun r u _ hr => ?_
  cases r with
  | none =>
    refine .bind (meets_build (Site.meets_raise hsite _ _ _ _)) fun note v _ hnote => ?_
    refine .bind (meets_build (meets_problem hsite _ _ _)) fun made w hvw hmade => ?_
    exact .pure ⟨hmade.nodes, (hvw.fit hnote).append hmade.messages⟩
  | some r => exact meets_build (r.meets_apply _ (hr r rfl))

/-- Markup around text is a node around it. -/
theorem meets_phrase (inner : List Char) (mark : Inline.Mark) :
    W.Meets d (x.phrase inner mark) fun made e => W.Inlines e made := by
  have hkind : ∀ (a b c : Prop) [Decidable a] [Decidable b] [Decidable c] (m n o p : Node),
      m.kind = .reference → n.kind = .reference → o.kind = .reference → p.kind = .reference →
      (if a then m else if b then n else if c then o else p).kind = .reference := by
    intro a b c _ _ _ m n o p hm hn ho hp
    split
    · exact hm
    · split
      · exact hn
      · split
        · exact ho
        · exact hp
  refine .bind (Build.meets_textElement_as (hkind _ _ _ _ _ _ _ rfl rfl rfl rfl) _ nofun rfl)
    fun ref e _ href => ?_
  refine .ite (fun _ => .pure (.one (href.fit rfl))) fun _ => ?_
  refine .bind (Build.meets_element (fun _ => ⟨nofun, rfl⟩) (.nil e _)) fun target f hef htarget => ?_
  refine .bind (Build.meets_noteTarget true htarget.inside (htarget.source nofun) hsite.hears)
    fun complaints g hfg hcomplaints => ?_
  exact .pure ⟨((hef.trans hfg).fit (href.fit rfl)).append (hfg.fit (htarget.fit rfl)), hcomplaints⟩

/-- By the kind of the piece. -/
theorem meets_piece (scan : Inline.Scan) (p : Inline.Piece) :
    W.Meets s (x.piece scan p) fun made t => W.Inlines t.doc made := by
  have hone : ∀ (n : Node) (text : String), n.kind.isPhrase = true →
      W.Meets s (Parse.build do return ⟨[← Build.textElement n text], [], text⟩)
        fun made t => W.Inlines t.doc made := by
    intro n text hn
    refine meets_build (P := fun made e => W.Inlines e made)
      (.bind (Build.meets_textElement _ fun _ => ⟨?_, ?_⟩) fun i e _ hi => ?_)
    · exact Kind.ne_pending_of_isPhrase hn
    · exact Kind.isList_of_isPhrase hn
    · exact .pure (.one (hi.fit (Kind.mayHold_of_isPhrase rfl hn)))
  obtain ⟨start, stop, form⟩ := p
  cases form with
  | uri => exact hone _ _ rfl
  | literal text => exact hone _ _ rfl
  | emphasis text => exact hone _ _ rfl
  | strong text => exact hone _ _ rfl
  | problem level message => exact meets_build (meets_problem hsite _ _ _)
  | interpreted role inner => exact meets_interpret hsite _ _ _
  | phrase inner mark => exact meets_build (meets_phrase hsite _ _)
  | reference name mark =>
    cases mark with
    | anonymous => exact hone _ _ rfl
    | named => exact hone _ _ rfl
  | substitution name mark =>
    refine .bind (meets_build (Build.meets_textElement _ fun _ => ⟨nofun, rfl⟩))
      fun sub t _ hsub => ?_
    cases mark with
    | none => exact .pure (.one (hsub.fit rfl))
    | some mark =>
      cases mark with
      | anonymous =>
        refine .bind (meets_build (Build.meets_element (fun _ => ⟨nofun, rfl⟩) (hsub.fit rfl)))
          fun ref u _ href => .pure (.one (href.fit rfl))
      | named =>
        refine .bind (meets_build (Build.meets_element (fun _ => ⟨nofun, rfl⟩) (hsub.fit rfl)))
          fun ref u _ href => .pure (.one (href.fit rfl))
  | target name =>
    refine .bind (meets_build (Build.meets_textElement _ fun _ => ⟨nofun, rfl⟩))
      fun i t _ hi => ?_
    refine .bind (meets_build (Build.meets_noteTarget true hi.inside (hi.source nofun) hsite.hears))
      fun complaints u htu hcomplaints => ?_
    exact .pure ⟨htu.fit (hi.fit rfl), hcomplaints⟩

omit hsite in
/-- What stands between pieces is a text. -/
theorem meets_gap (scan : Inline.Scan) (start stop : Nat) :
    W.Meets d (gap scan start stop) fun made e => W.Inlines e made :=
  .ite (fun _ => .bind (Build.meets_leaf _) fun _ _ _ hi => .pure (.one (hi.fit rfl)))
    fun _ => .pure (.none d)

/-- By induction on the pieces. -/
theorem meets_assemble (scan : Inline.Scan) (flushed : Nat) (pieces : List Inline.Piece) :
    W.Meets s (x.assemble scan flushed pieces) fun made t => W.Inlines t.doc made := by
  induction pieces generalizing flushed s with
  | nil => exact meets_build (meets_gap scan _ _)
  | cons p rest ih =>
    refine .bind (meets_build (meets_gap scan _ _)) fun before t _ hbefore => ?_
    refine .bind (meets_piece hsite scan p) fun made u htu hmade => ?_
    refine .bind (meets_build (x.meets_place made.nodes)) fun _ v huv _ => ?_
    refine .bind (ih p.stop) fun after w hvw hafter => ?_
    have hbefore := ((htu.trans huv).trans hvw).inlines hbefore
    have hmade := (huv.trans hvw).inlines hmade
    exact .pure ⟨(hbefore.nodes.append hmade.nodes).append hafter.nodes,
      hmade.messages.append hafter.messages⟩

end Parse.InlineSite

/-- The inline markup of a text makes text in a line. -/
theorem Parse.meets_inlineParse {site : Site} (hsite : W.Tends site) (text : List Char)
    (line : Nat) : W.Meets s (inlineParse site text line) fun made t => W.Inlines t.doc made :=
  InlineSite.meets_assemble hsite _ _ _

end MarkupLint
