import TreeLowering.Lowering.Widening
import TreeLowering.Model.Member
set_option autoImplicit false

/-!
# Lowering: refined members

A member that refines declarations inherited through several supertypes is
emitted with a signature that widens none of them.  The topmost refined
declaration is the plain answer; it is wrong when the member is inherited with
several instantiations, of which some erase to the root object.
-/

namespace TreeLowering

namespace Model

/-! ## Candidates -/

/-- Declarations visited and members found, in the order of the visits. -/
structure Visit where
  visited : List DeclId
  found : List DeclId
  deriving DecidableEq, Repr, Inhabited

namespace Visit

/-- Nothing visited yet. -/
def start : Visit := ⟨[], []⟩

/-- Adds a member unless it was found before. -/
def addMember (v : Visit) : Option DeclId → Visit
  | none => v
  | some x => if x ∈ v.found then v else { v with found := v.found ++ [x] }

end Visit

/-- Declarations of the nominal supertypes of a declaration. -/
def superDecls (m : Model) (d : DeclId) : List DeclId :=
  (m.decl d).supertypes.filterMap Ty.decl?

/-- Visits the supertypes of a declaration and then the declaration, unless it
was visited, `fuel` levels deep at most. -/
def visitMembers (m : Model) (name : String) : Nat → DeclId → Visit → Visit
  | 0, _, v => v
  | fuel + 1, d, v =>
    if d ∈ v.visited then v
    else
      ((m.superDecls d).foldl (fun v s => visitMembers m name fuel s v)
        { v with visited := d :: v.visited }).addMember (m.directMember? d name)

/-- Members of a name that a declaration or any of its supertypes declares:
those of the extended type, those of the satisfied types, then its own.  A path
of visits repeats no declaration, so their number bounds the levels. -/
def refinedMembers (m : Model) (d : DeclId) (name : String) : List DeclId :=
  (m.visitMembers name (m.declCount + 1) d .start).found

/-- The instantiation of the topmost refined declaration through a direct
supertype, when the member was inherited through several of them. -/
def directInstance? (m : Model) (declaring refined : DeclId) : Option MemberRef :=
  match (m.decl refined).ty with
  | none => none
  | some t =>
    if t.isParam then
      ((m.decl declaring).supertypes.map (fun s => m.memberRef s refined)).find? fun r =>
        !(m.refType r).isTypeParameter && !m.erasesToObject (m.refType r)
    else none

/-- The candidate to check a signature against: one whose type is a type
parameter, else one whose type does not erase, else another instantiation of
the topmost refined declaration. -/
def pickCandidate? (m : Model) (outer : Ty) (declaring refined : DeclId)
    (candidates : List DeclId) : Option MemberRef :=
  let refs := candidates.map (m.memberRef outer)
  match refs.find? (fun r => (m.refType r).isTypeParameter) with
  | some r => some r
  | none =>
    match refs.find? (fun r => !m.erasesToObject (m.refType r)) with
    | some r => some r
    | none => m.directInstance? declaring refined

/-! ## Reference to check and reference to emit -/

/-- The candidate picked for a member whose own type erases. -/
def erasedCandidate? (m : Model) (r : MemberRef) (outer : Ty) (refined : DeclId) :
    Option MemberRef :=
  match m.enclosingType? r.decl with
  | none => none
  | some declaring =>
    let t := m.refType r
    if m.erasesToObject t && !t.isTypeParameter then
      let candidates := m.refinedMembers declaring (m.decl r.decl).name
      if 1 < candidates.length then m.pickCandidate? outer declaring refined candidates else none
    else none

/-- The reference that a member's signature is checked against, if it refines
anything. -/
def refinedRef? (m : Model) (r : MemberRef) : Option MemberRef :=
  match (m.decl r.decl).refined with
  | none => none
  | some refined =>
    if refined = r.decl then none
    else
      match r.outer with
      | none => none
      | some outer =>
        match m.erasedCandidate? r outer refined with
        | some chosen => some chosen
        | none => some (m.memberRef outer refined)

/-- The type that a member is compared with.  A type parameter of the refined
method says nothing about the member, so that the member's own type stands for
it. -/
def nonWideningType (m : Model) (r refined : MemberRef) : Ty :=
  if r = refined then m.refType r
  else
    match m.refType refined with
    | .param p =>
      if (m.decl (m.param p).owner).isMethod then m.refType r else .param p
    | t => t

/-- The member's own type would widen what it refines. -/
def widensRefined (m : Model) (r refined : MemberRef) : Bool :=
  let t := m.refType r
  let other := m.refType refined
  m.isWidening t other ||
    m.widensTypeArguments t
      (if other.isParam && !t.isParam then m.nonWideningType r refined else other) true

/-- The reference that a member's signature is taken from: what it refines when
its own type would widen that, else the member itself. -/
def nonWideningRef (m : Model) (r : MemberRef) : MemberRef :=
  match m.refinedRef? r with
  | none => r
  | some refined => if m.widensRefined r refined then refined else r

end Model

end TreeLowering
