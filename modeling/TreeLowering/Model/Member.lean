import TreeLowering.Model.Supertype
set_option autoImplicit false

/-!
# Model: members seen through a type

A reference pairs a member with the instantiation of its container that it is
seen through; the member's type is instantiated accordingly.
-/

namespace TreeLowering

/-- A declaration seen through an instantiation of its container. -/
structure MemberRef where
  decl : DeclId
  outer : Option Ty
  deriving DecidableEq, Repr, Inhabited

namespace Model

/-- A member seen through the supertype of `t` that declares it. -/
def memberRef (m : Model) (t : Ty) (member : DeclId) : MemberRef :=
  ⟨member, (m.decl member).container.bind (m.supertype? t)⟩

/-- The declared type of the member, instantiated. -/
def refType (m : Model) (r : MemberRef) : Ty :=
  match (m.decl r.decl).ty with
  | none => .error
  | some t =>
    match r.outer with
    | none => t
    | some outer => t.subst (m.substitution outer)

/-- A declaration seen through its container's own type. -/
def ownRef (m : Model) (d : DeclId) : MemberRef :=
  match m.enclosingType? d with
  | some c => m.memberRef (m.declaredType c) d
  | none => ⟨d, none⟩

end Model

end TreeLowering
