import MarkupLint.Parse.Inline
import MarkupLint.Proofs.Message

/-! # Inline markup is prepared aside

    The nodes of a line of text are made before they are hung up anywhere,
    and nothing about them depends on files or the clock: in any two worlds
    the same nodes are made, with the same messages, and the nodes that were
    there before are left alone. -/

namespace MarkupLint

/-- The surroundings as they are in a world. -/
def Surroundings.under (env : Surroundings) (w : World) : Surroundings :=
  { env with files := w.files, clock := w.clock }

/-- The site as it is in a world. -/
def Site.under (site : Site) (w : World) : Site := { site with env := site.env.under w }

/-- What was made is new. -/
def Inlined.New (n : Nat) (made : Inlined) : Prop :=
  AllNew n made.nodes ∧ AllNew n made.messages

/-- What is new since a later size is new since an earlier one. -/
theorem Inlined.New.mono {m n : Nat} {made : Inlined} (hnm : n ≤ m) (h : made.New m) :
    made.New n :=
  ⟨h.1.mono hnm, h.2.mono hnm⟩

open Discipline

variable {v w : World} {L : License} {n : Nat}

/-! ## Roles -/

namespace RoleCall

/-- A problem is a message and a mark, both new. -/
theorem aside_problem (c : RoleCall) (message : String) :
    Contract (aside v w L n) (Inlined.New n) (c.problem message) (c.problem message) := by
  refine .bind (Build.aside_raise _ _ _ L.error) fun msg hmsg => ?_
  refine .bind (Build.aside_textElement _ _) fun node hnode => ?_
  exact .pure ⟨.one hnode, .one hmsg⟩

/-- The text of a role goes into a new node. -/
theorem aside_wrap (c : RoleCall) (a : Node) :
    Contract (aside v w L n) (Inlined.New n) (c.wrap a) (c.wrap a) :=
  .bind (Build.aside_textElement _ _) fun _ hnode => .pure ⟨.one hnode, .nil n⟩

/-- A numbered reference is a new node with an address. -/
theorem aside_numbered (c : RoleCall) (shown uri : String) :
    Contract (aside v w L n) (Inlined.New n) (c.numbered shown uri) (c.numbered shown uri) :=
  .bind (Build.aside_textElement _ _) fun _ hnode => .pure ⟨.one hnode, .nil n⟩

end RoleCall

/-- By the roles: each wraps its text, refers to something, or is refused. -/
theorem Role.aside_apply (c : RoleCall) (r : Role) :
    Contract (aside v w L n) (Inlined.New n) (r.apply c) (r.apply c) := by
  have hnothing : Inlined.New n {} := ⟨.nil n, .nil n⟩
  induction r with
  | generic kind => exact c.aside_wrap _
  | code => exact c.aside_wrap _
  | pep =>
    simp only [apply]
    split
    · exact .ite (fun _ => c.aside_numbered _ _) fun _ => c.aside_problem _
    · exact c.aside_problem _
  | rfc =>
    simp only [apply]
    split
    · exact .ite (fun _ => c.aside_numbered _ _) fun _ => c.aside_problem _
    · exact c.aside_problem _
  | raw format => exact .ite (fun _ => c.aside_problem _) fun _ => c.aside_wrap _
  | styled base classes ih =>
    refine .bind ih fun made hmade => ?_
    refine .bind (.forM fun i hi => ?_) fun _ _ => .pure hmade
    refine Build.contract_node fun a b hab => ?_
    rw [hab.kind]
    exact .ite (fun _ => Build.aside_setAttr (hmade.1 i hi) _ _) fun _ => .pure trivial
  | ignored => exact .pure hnothing
  | custom role =>
    simp only [apply]
    cases role.answer c with
    | problem => exact c.aside_problem _
    | nothing => exact .pure hnothing
    | wrap attributes => exact c.aside_wrap _

/-! ## Pieces -/

/-- A message about a line of the body is new and of an allowed level. -/
theorem Site.aside_raise (site : Site) (level : Level) (line : Nat) (text : String)
    (literal : Option String) (hlevel : L.levels level) :
    Contract (aside v w L n) (n ≤ ·) (site.raise level line text literal)
      (site.raise level line text literal) :=
  Build.aside_raise _ _ _ hlevel

/-- What a name stands for as a role is the same in any world. -/
theorem Site.contract_role? {D : Discipline ParseState}
    (hroles : ∀ {s t}, D.alike s t → t.roles = s.roles) (site : Site) (name : String) :
    Contract D Anything ((site.under v).role? name) ((site.under w).role? name) := by
  refine .get fun s t hst _ => ?_
  rw [hroles hst]
  split
  · exact .pure trivial
  · exact .pure trivial

namespace Parse.InlineSite

/-- The site of a text as it is in a world. -/
def under (x : InlineSite) (w : World) : InlineSite := { x with site := x.site.under w }

/-- Nodes of a piece are told where they stand, and are new as before. -/
theorem aside_place (x : InlineSite) {nodes : List NodeId} (h : AllNew n nodes) :
    Contract (aside v w L n) Anything (x.place nodes) (x.place nodes) := by
  refine .forM fun i hi => Build.aside_update (h i hi) ?_ ?_ ?_
  · intro a value attrs
    dsimp only
    split <;> exact ⟨rfl, rfl, rfl, rfl⟩
  · intro a
    split <;> rfl
  · intro a
    split <;> rfl

/-- The mark for a piece that is refused holds the markup of the piece. -/
theorem aside_problem (x : InlineSite) (level : Level) (message : String) (raw : List Char)
    (hlevel : L.levels level) :
    Contract (aside v w L n) (Inlined.New n) (x.problem level message raw)
      (x.problem level message raw) := by
  refine .bind (x.site.aside_raise _ _ _ _ hlevel) fun msg hmsg => ?_
  refine .bind (Build.aside_textElement _ _) fun node hnode => ?_
  exact .pure ⟨.one hnode, .one hmsg⟩

/-- The role of a piece is looked up aside from the document, and then
    applied. -/
theorem aside_interpret (x : InlineSite) (role raw inner : List Char) :
    Contract (aside v w L n).lift (Inlined.New n) ((x.under v).interpret role raw inner)
      ((x.under w).interpret role raw inner) := by
  have hname : Contract (aside v w L n).lift Anything (roleName role) (roleName role) := by
    refine .get ?_
    rintro s _ ⟨_, ⟨forest, halt, hlike, hsooner⟩, rfl⟩ _
    exact .pure trivial
  have hrole : ∀ name, Contract (aside v w L n).lift Anything ((x.under v).site.role? name)
      ((x.under w).site.role? name) :=
    Site.contract_role? (by rintro s _ ⟨d, -, rfl⟩; rfl) x.site
  refine .bind hname fun name _ => .bind (hrole name) fun r _ => ?_
  cases r with
  | none =>
    refine .bind (.build (x.site.aside_raise _ _ _ _ L.info)) fun note hnote => ?_
    refine .bind (.build (x.aside_problem _ _ _ L.error)) fun made hmade => ?_
    exact .pure ⟨hmade.1, .cons hnote hmade.2⟩
  | some r => exact .build (r.aside_apply _)

/-- A phrase is a node with its text. -/
theorem aside_phrase (x : InlineSite) (inner : List Char) (mark : Inline.Mark) :
    Contract (aside v w L n) (Inlined.New n) (x.phrase inner mark) (x.phrase inner mark) := by
  refine .bind (Build.aside_textElement _ _) fun ref href => ?_
  refine .ite (fun _ => .pure ⟨.one href, .nil n⟩) fun _ => ?_
  refine .bind (Build.aside_element (.refl _) (.nil n)) fun target htarget => ?_
  refine .bind (Build.aside_noteTarget _ _) fun complaints hcomplaints => ?_
  exact .pure ⟨.cons href (.one htarget), hcomplaints⟩

/-- By the pieces: each has nodes of its own. -/
theorem aside_piece (x : InlineSite) (scan : Inline.Scan) (p : Inline.Piece) :
    Contract (aside v w L n).lift (Inlined.New n) ((x.under v).piece scan p)
      ((x.under w).piece scan p) := by
  have hone : ∀ (a : Node) (text : String), Contract (aside v w L n).lift (Inlined.New n)
      (Parse.build do return ⟨[← Build.textElement a text], [], text⟩)
      (Parse.build do return ⟨[← Build.textElement a text], [], text⟩) := fun a text =>
    .build (.bind (Build.aside_textElement _ _) fun _ hnode => .pure ⟨.one hnode, .nil n⟩)
  obtain ⟨start, stop, form⟩ := p
  cases form with
  | uri => exact hone _ _
  | literal text => exact hone _ _
  | emphasis text => exact hone _ _
  | strong text => exact hone _ _
  | problem level message => exact .build (x.aside_problem _ _ _ (L.severity level))
  | interpreted role inner => exact x.aside_interpret _ _ _
  | phrase inner mark => exact .build (x.aside_phrase _ _)
  | reference name mark =>
    cases mark with
    | anonymous => exact hone _ _
    | named => exact hone _ _
  | substitution name mark =>
    refine .bind (.build (Build.aside_textElement _ _)) fun sub hsub => ?_
    have href : ∀ a : Node, Contract (aside v w L n).lift (n ≤ ·)
        (Parse.build (Build.element a [sub])) (Parse.build (Build.element a [sub])) := fun a =>
      .build (Build.aside_element (.refl a) (.one hsub))
    cases mark with
    | none => exact .pure ⟨.one hsub, .nil n⟩
    | some mark =>
      cases mark with
      | anonymous => exact .bind (href _) fun ref hnew => .pure ⟨.one hnew, .nil n⟩
      | named => exact .bind (href _) fun ref hnew => .pure ⟨.one hnew, .nil n⟩
  | target name =>
    refine .bind (.build (Build.aside_textElement _ _)) fun t ht => ?_
    refine .bind (.build (Build.aside_noteTarget _ _)) fun complaints hcomplaints => ?_
    exact .pure ⟨.one ht, hcomplaints⟩

/-- The text between two pieces is a leaf, or nothing. -/
theorem aside_gap (scan : Inline.Scan) (start stop : Nat) :
    Contract (aside v w L n) (Inlined.New n) (gap scan start stop) (gap scan start stop) := by
  refine .ite (fun _ => ?_) fun _ => .pure ⟨.nil n, .nil n⟩
  exact .bind (Build.aside_leaf _) fun _ hnode => .pure ⟨.one hnode, .nil n⟩

/-- By the pieces: the nodes of each follow those of the text before it. -/
theorem aside_assemble (x : InlineSite) (scan : Inline.Scan) (flushed : Nat)
    (pieces : List Inline.Piece) :
    Contract (aside v w L n).lift (Inlined.New n) ((x.under v).assemble scan flushed pieces)
      ((x.under w).assemble scan flushed pieces) := by
  induction pieces generalizing flushed with
  | nil => exact .build (aside_gap scan _ _)
  | cons p rest ih =>
    refine .bind (.build (aside_gap scan _ _)) fun before hbefore => ?_
    refine .bind (x.aside_piece scan p) fun made hmade => ?_
    refine .bind (.build (x.aside_place hmade.1)) fun _ _ => ?_
    refine .bind (ih p.stop) fun after hafter => ?_
    exact .pure ⟨(hbefore.1.append hmade.1).append hafter.1, hmade.2.append hafter.2⟩

end Parse.InlineSite

/-- The inline markup of a text is prepared aside. -/
theorem Parse.aside_inlineParse (site : Site) (text : List Char) (line : Nat) :
    Contract (aside v w L n).lift (Inlined.New n) (inlineParse (site.under v) text line)
      (inlineParse (site.under w) text line) :=
  InlineSite.aside_assemble ⟨site, line⟩ _ _ _

end MarkupLint
