import TreeLowering.Types.Pool
set_option autoImplicit false

/-!
# Model: queries over a pool

Substitution and the search for supertypes where types are positions in a pool.
Both build types as they go, so they change the pool.

Nothing keeps the nodes of a pool from referring to each other in a circle, so a
query goes `fuel` positions deep at most, and has no answer when it would go
deeper.
-/

namespace TreeLowering

/-- What the queries ask of a declaration, with positions for types. -/
structure PooledDecl where
  typeParams : List ParamId
  /-- The extended type, then the satisfied types. -/
  supertypes : List TypeIdx
  deriving DecidableEq, Repr, Inhabited

/-- What the queries ask of a type parameter, with positions for types. -/
structure PooledParam where
  variance : Variance
  bounds : List TypeIdx
  /-- It takes any number of arguments. -/
  sequenced : Bool
  deriving DecidableEq, Repr, Inhabited

/-- The declarations and type parameters of a program, with positions for
types. -/
structure PooledModel where
  decl : DeclId → PooledDecl
  param : ParamId → PooledParam
  deriving Inhabited

/-- Arguments for type parameters, at most one for each. -/
abbrev PoolSubst : Type := List (ParamId × TypeIdx)

/-- A computation that builds types in a pool, without an answer when it goes
too deep. -/
abbrev Pooled (α : Type) : Type := StateT TypePool Option α

namespace Pooled

variable {α : Type}

/-- Reads from the pool. -/
def reading (f : TypePool → α) : Pooled α := fun p => some (f p, p)

/-- Builds types in the pool. -/
def building (f : TypePool → α × TypePool) : Pooled α := fun p => some (f p)

/-- There is no answer. -/
def tooDeep : Pooled α := fun _ => none

/-- The node at a position. -/
def nodeAt (i : TypeIdx) : Pooled TypeNode := reading (·.node i)

/-- What becomes of each position. -/
def each (f : TypeIdx → Pooled TypeIdx) : List TypeIdx → Pooled (List TypeIdx)
  | [] => pure []
  | i :: is => do
    let j ← f i
    let js ← each f is
    pure (j :: js)

/-- What becomes of the position, if there is one. -/
def ifAny (f : TypeIdx → Pooled TypeIdx) : Option TypeIdx → Pooled (Option TypeIdx)
  | none => pure none
  | some i => some <$> f i

/-- The first position that is found. -/
def firstOf (f : TypeIdx → Pooled (Option TypeIdx)) : List TypeIdx → Pooled (Option TypeIdx)
  | [] => pure none
  | i :: is => do
    match ← f i with
    | some found => pure (some found)
    | none => firstOf f is

/-- All the positions that are found, or none when one is not. -/
def allOf (f : TypeIdx → Pooled (Option TypeIdx)) :
    List TypeIdx → Pooled (Option (List TypeIdx))
  | [] => pure (some [])
  | i :: is => do
    match ← f i with
    | none => pure none
    | some found => Option.map (found :: ·) <$> allOf f is

end Pooled

namespace TypePool

/-- Arguments of a nominal type. -/
def args (p : TypePool) (i : TypeIdx) : List TypeIdx :=
  match p.node i with
  | .nominal _ as _ _ => as
  | _ => []

end TypePool

open Pooled

/-- Replaces the type parameters that have an argument; with no arguments at all
there is nothing to do. -/
def PoolSubst.apply (s : PoolSubst) : Nat → TypeIdx → Pooled TypeIdx
  | 0, _ => tooDeep
  | fuel + 1, i =>
    if s.isEmpty then pure i
    else do
      match ← nodeAt i with
      | .param q => pure ((s.lookup q).getD i)
      | .nominal d as o h => do
        let args ← each (PoolSubst.apply s fuel) as
        let outer ← ifAny (PoolSubst.apply s fuel) o
        building (·.intern (.nominal d args outer h))
      | .union cases => do
        let replaced ← each (PoolSubst.apply s fuel) cases
        building (·.union replaced)
      | .inter bounds => do
        let replaced ← each (PoolSubst.apply s fuel) bounds
        building (·.inter replaced)
      | .bottom | .error => pure i

namespace PooledModel

/-- Gives the parameters of a declaration their arguments; a parameter that
takes any number of arguments has none. -/
def bind (m : PooledModel) (d : DeclId) (as : List TypeIdx) (s : PoolSubst) : PoolSubst :=
  (((m.decl d).typeParams.zip as).filter (fun e => !(m.param e.1).sequenced)).foldl
    (fun s e => Assoc.set e.1 e.2 s) s

/-- The arguments of a nominal type and of the types around it; the inner ones
win. -/
def substitution (m : PooledModel) : Nat → TypeIdx → Pooled PoolSubst
  | 0, _ => tooDeep
  | fuel + 1, i => do
    match ← nodeAt i with
    | .nominal d as none _ => pure (m.bind d as [])
    | .nominal d as (some outer) _ => m.bind d as <$> substitution m fuel outer
    | _ => pure []

/-! ## Joining the cases of a union -/

/-- One argument for several: the union where the parameter is covariant, the
intersection where it is contravariant, and the common argument, if there is
one, where it is invariant. -/
def joinArgument (m : PooledModel) (q : ParamId) (column : List TypeIdx) :
    Pooled (Option TypeIdx) :=
  match (m.param q).variance with
  | .covariant => some <$> building (·.join column)
  | .contravariant => some <$> building (·.meet column)
  | .invariant =>
    match column with
    | [] => pure none
    | i :: is => pure (if is.all (· = i) then some i else none)

/-- Joins argument lists position by position. -/
def joinArguments (m : PooledModel) :
    List ParamId → List (List TypeIdx) → Pooled (Option (List TypeIdx))
  | [], _ => pure (some [])
  | q :: qs, rows => do
    match ← m.joinArgument q (rows.filterMap List.head?) with
    | none => pure none
    | some i => Option.map (i :: ·) <$> joinArguments m qs (rows.map List.tail)

/-- The instantiation at the bottom type. -/
def bottomInstance (m : PooledModel) (target : DeclId) : Pooled TypeIdx :=
  building (·.nominal target (List.replicate (m.decl target).typeParams.length .bottom))

/-- The instantiation that covers all the given ones. -/
def joinInstances (m : PooledModel) (target : DeclId) : List TypeIdx → Pooled (Option TypeIdx)
  | [] => some <$> m.bottomInstance target
  | [i] => pure (some i)
  | first :: rest => do
    match ← nodeAt first with
    | .nominal _ _ outer _ => do
      let rows ← reading fun p => (first :: rest).map p.args
      match ← m.joinArguments (m.decl target).typeParams rows with
      | none => pure none
      | some joined => some <$> building (·.intern (.nominal target joined outer none))
    | _ => pure none

/-! ## Climbing -/

/-- The instantiation of `target` that a type is a subtype of.  The extended
type comes before the satisfied types, in source order; a union reaches `target`
when each case other than bottom does. -/
def supertype (m : PooledModel) (target : DeclId) : Nat → TypeIdx → Pooled (Option TypeIdx)
  | 0, _ => tooDeep
  | fuel + 1, i => do
    match ← nodeAt i with
    | .nominal d _ _ _ =>
      if d = target then pure (some i)
      else do
        let s ← m.substitution fuel i
        firstOf (fun t => do supertype m target fuel (← s.apply fuel t)) (m.decl d).supertypes
    | .param q => firstOf (supertype m target fuel) (m.param q).bounds
    | .inter bounds => firstOf (supertype m target fuel) bounds
    | .union cases => do
      match ← allOf (supertype m target fuel) (cases.filter (· ≠ .bottom)) with
      | none => pure none
      | some found => m.joinInstances target found
    | .bottom => some <$> m.bottomInstance target
    | .error => pure none

end PooledModel

end TreeLowering
