import TreeLowering.Model.Basic
set_option autoImplicit false

/-!
# Model: instantiations and supertypes

The arguments of a nominal type, together with those of the types around it,
instantiate its declaration's supertypes.  Climbing them answers which
instantiation of a declaration a type is a subtype of.

A climb enters each declaration and each type parameter at most once when the
declared supertypes are nominal, no declaration is its own proper supertype and
no type parameter bounds itself, so their number bounds the climb.  A declared
supertype that is a type parameter leads on into an argument, and through as
many declarations as the argument nests; ample room is left for those.
-/

namespace TreeLowering

namespace Model

/-! ## Substitutions of nominal types -/

/-- Adds the arguments of one segment; a parameter that takes any number of
arguments has none. -/
def bindSegment (m : Model) (segment : Ty) (s : Subst) : Subst :=
  match segment with
  | .nominal d as _ _ =>
    s.insertAll (((m.decl d).typeParams.zip as).filter (fun e => !(m.param e.1).sequenced))
  | _ => s

/-- The arguments of a nominal type and of the types around it; the inner ones
win. -/
def substitution (m : Model) (t : Ty) : Subst :=
  t.segments.foldr (bindSegment m) .empty

/-! ## Joining the cases of a union -/

/-- One argument for several: the union where the parameter is covariant, the
intersection where it is contravariant, and the common argument, if there is
one, where it is invariant. -/
def joinArgument (m : Model) (p : ParamId) (column : List Ty) : Option Ty :=
  match (m.param p).variance with
  | .covariant => some (.join column)
  | .contravariant => some (.meet column)
  | .invariant =>
    match column with
    | [] => none
    | t :: ts => if ts.all (· = t) then some t else none

/-- Joins argument lists position by position. -/
def joinArguments (m : Model) : List ParamId → List (List Ty) → Option (List Ty)
  | [], _ => some []
  | p :: ps, rows =>
    match m.joinArgument p (rows.filterMap List.head?) with
    | none => none
    | some t =>
      match joinArguments m ps (rows.map List.tail) with
      | none => none
      | some ts => some (t :: ts)

/-- The instantiation at the bottom type. -/
def bottomInstance (m : Model) (target : DeclId) : Ty :=
  .of target (List.replicate (m.decl target).typeParams.length .bottom)

/-- The instantiation that covers all the given ones. -/
def joinInstances (m : Model) (target : DeclId) : List Ty → Option Ty
  | [] => some (m.bottomInstance target)
  | [t] => some t
  | first :: rest =>
    match first with
    | .nominal _ _ outer _ =>
      (m.joinArguments (m.decl target).typeParams ((first :: rest).map Ty.args)).map
        (fun joined => .nominal target joined outer none)
    | _ => none

/-! ## Climbing -/

mutual

/-- The instantiation of `target` above a type, where `up` climbs on from the
declared supertypes and bounds.  The extended type comes before the satisfied
types, in source order; a union reaches `target` when each case other than
bottom does. -/
def climb (m : Model) (up : Ty → Option Ty) (target : DeclId) : Ty → Option Ty
  | .nominal d as o h =>
    if d = target then some (.nominal d as o h)
    else
      let s := m.substitution (.nominal d as o h)
      (m.decl d).supertypes.findSome? (fun t => up (t.subst s))
  | .param p => (m.param p).bounds.findSome? up
  | .inter bounds => climbAny m up target bounds
  | .union cases => (climbEach m up target cases).bind (m.joinInstances target)
  | .bottom => some (m.bottomInstance target)
  | .error => none

/-- Climbs from the first type that reaches `target`. -/
def climbAny (m : Model) (up : Ty → Option Ty) (target : DeclId) : List Ty → Option Ty
  | [] => none
  | t :: ts =>
    match climb m up target t with
    | some found => some found
    | none => climbAny m up target ts

/-- Climbs from every type other than bottom. -/
def climbEach (m : Model) (up : Ty → Option Ty) (target : DeclId) : List Ty → Option (List Ty)
  | [] => some []
  | t :: ts =>
    if t = .bottom then climbEach m up target ts
    else
      match climb m up target t with
      | none => none
      | some found =>
        match climbEach m up target ts with
        | none => none
        | some rest => some (found :: rest)

end

/-- Climbs through at most `fuel` declarations and bounds. -/
def supertypeWithin (m : Model) (target : DeclId) : Nat → Ty → Option Ty
  | 0, t => m.climb (fun _ => none) target t
  | fuel + 1, t => m.climb (supertypeWithin m target fuel) target t

theorem supertypeWithin_zero (m : Model) (target : DeclId) (t : Ty) :
    m.supertypeWithin target 0 t = m.climb (fun _ => none) target t := by
  rw [supertypeWithin]

theorem supertypeWithin_succ (m : Model) (target : DeclId) (fuel : Nat) (t : Ty) :
    m.supertypeWithin target (fuel + 1) t = m.climb (m.supertypeWithin target fuel) target t := by
  rw [supertypeWithin]

/-- Room for climbs through arguments, beyond any nesting that is written
down. -/
def ampleClimb : Nat := 1000000

/-- How many declarations and bounds a climb may go through. -/
def climbLimit (m : Model) : Nat := m.declCount + m.paramCount + ampleClimb

/-- The instantiation of `target` that a type is a subtype of. -/
def supertype? (m : Model) (t : Ty) (target : DeclId) : Option Ty :=
  m.supertypeWithin target m.climbLimit t

/-- The type is a subtype of some instantiation of `target`. -/
def isSubtypeOf (m : Model) (t : Ty) (target : DeclId) : Bool := (m.supertype? t target).isSome

end Model

end TreeLowering
