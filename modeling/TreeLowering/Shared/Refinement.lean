import TreeLowering.Lowering.Refinement
import TreeLowering.Shared.State
set_option autoImplicit false

/-!
# Shared tables: members and what they refine

The reference that a member's signature is taken from, where types are
positions.  The arguments of two types are compared in the order of their
parameters, whatever order a hash map holds them in.
-/

namespace TreeLowering.Shared

open Tabled

/-- A declaration seen through an instantiation of its container. -/
structure MemberRef where
  decl : DeclId
  outer : Option TypeIdx
  deriving DecidableEq, Repr, Inhabited

namespace Model

variable (m : Model)

/-- A member seen through the supertype of `i` that declares it. -/
def memberRef (i : TypeIdx) (member : DeclId) : Tabled MemberRef :=
  match (m.decl member).container with
  | none => pure ⟨member, none⟩
  | some c => MemberRef.mk member <$> m.supertype? i c

/-- The declared type of the member, instantiated. -/
def refType (r : MemberRef) : Tabled TypeIdx :=
  match (m.decl r.decl).ty with
  | none => pure .error
  | some i =>
    match r.outer with
    | none => pure i
    | some outer => do
      let s ← m.substitution outer
      subst s i

/-- A declaration seen through its container's own type. -/
def ownRef (d : DeclId) : Tabled MemberRef :=
  match m.enclosingType? d with
  | some c => do
    let own ← m.declaredType c
    m.memberRef own d
  | none => pure ⟨d, none⟩

/-! ## Widening -/

/-- Two type parameters have the same bounds, in whatever order. -/
def haveSameBounds (p q : ParamId) : Bool :=
  let bounds := (m.param p).bounds
  let remaining := (m.param q).bounds
  bounds.length == remaining.length && TreeLowering.Model.takesOut bounds remaining

/-- `i` erases to the root object where `j` does not; the object type itself is
no less precise than anything. -/
def isWidening (i j : TypeIdx) : Tabled Bool :=
  if i = m.builtins.object then pure false
  else both (m.erasesToObject i) (no (m.erasesToObject j))

end Model

/-- One argument comes before the other, or at the same place: the parameter
decides, and the position between arguments of one parameter. -/
def argumentLe (e e' : ParamId × TypeIdx) : Bool :=
  e.1.index < e'.1.index || (e.1.index == e'.1.index && e.2.index ≤ e'.2.index)

namespace Env

variable (env : Env)

/-- An argument of `i`, at a depth below `fuel`, widens the one of `j` in its
place, or `j` has none. -/
def widensWithin : Nat → TypeIdx → TypeIdx → Tabled Bool
  | 0, _, _ => halt .endless
  | fuel + 1, i, j => do
    match ← nodeAt i, ← nodeAt j with
    | .param p, .param q => pure (!env.model.haveSameBounds p q)
    | _, _ => do
      let mine ← env.model.substitution i
      let others ← env.model.substitution j
      anyOf (fun e =>
          match others.lookup e.1 with
          | none => pure true
          | some other => either (env.model.isWidening e.2 other) (widensWithin fuel e.2 other))
        ((env.order mine).mergeSort argumentLe)

/-- An argument of `i`, at any depth, widens the one of `j` in its place. -/
def widensArguments (i j : TypeIdx) : Tabled Bool := env.widensWithin (i.index + 1) i j

/-- An argument of `i`, seen as an instantiation of the declaration of `j`,
widens the one of `j` in its place. -/
def widensInherited (i j : TypeIdx) : Tabled Bool := do
  match ← nodeAt i, ← nodeAt j with
  | .param p, .param q => pure (!env.model.haveSameBounds p q)
  | _, _ => do
    if ← both (env.model.erasesToObject j) (no (env.model.erasesToObject i)) then pure false
    else if i = j then env.widensArguments i j
    else do
      let present ← env.model.definite j
      match ← decl? present with
      | none => pure true
      | some target =>
        match ← env.model.supertype? i target with
        | none => pure true
        | some seen => env.widensArguments seen present

end Env

namespace Model

variable (m : Model)

/-! ## Candidates -/

/-- Declarations of the nominal supertypes of a declaration. -/
def superDecls (p : TypePool) (d : DeclId) : List DeclId :=
  (m.decl d).supertypes.filterMap fun i => (p.node i).decl?

/-- Visits the supertypes of a declaration and then the declaration, unless it
was visited, `fuel` levels deep at most. -/
def visitMembers (p : TypePool) (name : Name) :
    Nat → DeclId → TreeLowering.Model.Visit → TreeLowering.Model.Visit
  | 0, _, v => v
  | fuel + 1, d, v =>
    if d ∈ v.visited then v
    else
      ((m.superDecls p d).foldl (fun v s => visitMembers p name fuel s v)
        { v with visited := d :: v.visited }).addMember (m.directMember? d name)

/-- Members of a name that a declaration or any of its supertypes declares:
those of the extended type, those of the satisfied types, then its own. -/
def refinedMembers (d : DeclId) (name : Name) : Tabled (List DeclId) :=
  reading fun t => (m.visitMembers t.pool name (m.decls.size + 1) d .start).found

/-- The member's type is a type parameter. -/
def isOpen (r : MemberRef) : Tabled Bool := m.refType r >>= m.isTypeParameter

/-- The member's type does not erase to the root object. -/
def isKept (r : MemberRef) : Tabled Bool := no (m.refType r >>= m.erasesToObject)

/-- The instantiation of the topmost refined declaration through a direct
supertype, when the member was inherited through several of them. -/
def directInstance? (declaring refined : DeclId) : Tabled (Option MemberRef) :=
  match (m.decl refined).ty with
  | none => pure none
  | some i => do
    if ← isParam i then
      firstOf (fun s => do
        let r ← m.memberRef s refined
        if ← both (no (m.isOpen r)) (m.isKept r) then pure (some r) else pure none)
        (m.decl declaring).supertypes
    else pure none

/-- The candidate to check a signature against: one whose type is a type
parameter, else one whose type does not erase, else another instantiation of
the topmost refined declaration. -/
def pickCandidate? (outer : TypeIdx) (declaring refined : DeclId) (candidates : List DeclId) :
    Tabled (Option MemberRef) := do
  let refs ← each (m.memberRef outer) candidates
  match ← findOf m.isOpen refs with
  | some r => pure (some r)
  | none =>
    match ← findOf m.isKept refs with
    | some r => pure (some r)
    | none => m.directInstance? declaring refined

/-! ## Reference to check and reference to emit -/

/-- The candidate picked for a member whose own type erases. -/
def erasedCandidate? (r : MemberRef) (outer : TypeIdx) (refined : DeclId) :
    Tabled (Option MemberRef) :=
  match m.enclosingType? r.decl with
  | none => pure none
  | some declaring => do
    let i ← m.refType r
    if ← both (m.erasesToObject i) (no (m.isTypeParameter i)) then do
      let candidates ← m.refinedMembers declaring (m.decl r.decl).name
      if 1 < candidates.length then m.pickCandidate? outer declaring refined candidates
      else pure none
    else pure none

/-- The reference that a member's signature is checked against, if it refines
anything. -/
def refinedRef? (r : MemberRef) : Tabled (Option MemberRef) :=
  match (m.decl r.decl).refined with
  | none => pure none
  | some refined =>
    if refined = r.decl then pure none
    else
      match r.outer with
      | none => pure none
      | some outer => do
        match ← m.erasedCandidate? r outer refined with
        | some chosen => pure (some chosen)
        | none => some <$> m.memberRef outer refined

/-- The type that a member is compared with.  A type parameter of the refined
method says nothing about the member, so that the member's own type stands for
it. -/
def nonWideningType (r refined : MemberRef) : Tabled TypeIdx := do
  let own ← m.refType r
  if r = refined then pure own
  else do
    let other ← m.refType refined
    match ← nodeAt other with
    | .param p => pure (if (m.decl (m.param p).owner).isMethod then own else other)
    | _ => pure other

end Model

namespace Env

variable (env : Env)

/-- The type that a member is compared with, from its own type and the type of
what it refines. -/
def comparedType (r refined : MemberRef) (own other : TypeIdx) : Tabled TypeIdx := do
  if ← both (isParam other) (no (isParam own)) then env.model.nonWideningType r refined
  else pure other

/-- The member's own type would widen what it refines. -/
def widensRefined (r refined : MemberRef) : Tabled Bool := do
  let own ← env.model.refType r
  let other ← env.model.refType refined
  either (env.model.isWidening own other)
    (env.comparedType r refined own other >>= env.widensInherited own)

/-- The reference that a member's signature is taken from: what it refines when
its own type would widen that, else the member itself. -/
def nonWideningRef (r : MemberRef) : Tabled MemberRef := do
  match ← env.model.refinedRef? r with
  | none => pure r
  | some refined => do
    if ← env.widensRefined r refined then pure refined else pure r

/-- The result type that a function's method declares: its own, or an inherited
one when its own would widen what it refines. -/
def resultType (d : DeclId) : Tabled TypeIdx := do
  let own ← env.model.ownRef d
  let r ← env.nonWideningRef own
  env.model.refType r

end Env

end TreeLowering.Shared
