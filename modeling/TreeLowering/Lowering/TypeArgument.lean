import TreeLowering.Lowering.Context
import TreeLowering.Lowering.Erasure
import TreeLowering.Lowering.TypeLowering
import TreeLowering.Target.Ty
set_option autoImplicit false

/-!
# Lowering: type arguments

A declaration that varies in a parameter is written with a wildcard where it is
used.  An argument that the target cannot express becomes a wildcard or a bound,
or makes the whole type raw.

The lowering of a single argument is a parameter here, so that what is said
about argument lists holds for any of them.
-/

namespace TreeLowering

namespace Target

/-- The platform's root object. -/
def Ty.object : Ty := .cls Support.object

end Target

/-- How a type argument is treated. -/
inductive ArgumentView where
  /-- The whole type has to be written raw. -/
  | forcesRaw
  /-- The argument is lowered as this type. -/
  | as (t : Ty)
  deriving DecidableEq, Repr, Inhabited

namespace ArgumentView

/-- A case of the Boolean type is seen as the Boolean type. -/
def widenBoolean (m : Model) (t : Ty) : Ty :=
  if m.isBoolean t && !t.isTypeParameter then Language.booleanTy else t

/-- An argument without its absent value; a union or intersection is seen as
its iterable shape, and without one it forces the type raw wherever a wildcard
would not do. -/
def of (m : Model) (ctx : Context) (arg : Ty) : ArgumentView :=
  let only := arg.collapse
  let present := if only ≠ Language.voidTy && only.isOptional then only.nonNull else only
  if present.isComposite then
    match m.iterableShape? present with
    | some shape => .as (widenBoolean m shape)
    | none =>
      if ctx.creating || !ctx.nestsArguments then .forcesRaw else .as (widenBoolean m present)
  else .as (widenBoolean m present)

end ArgumentView

namespace TypeLowering

/-- A lowered argument as a use of a parameter: a wildcard where the parameter
varies, exact where it does not and where an object is created. -/
def wildcard (v : Variance) (ctx : Context) (t : Target.Ty) : Target.Ty :=
  if ctx.creating then t
  else
    match v with
    | .covariant => .subtypeOf t
    | .contravariant => .supertypeOf t
    | .invariant => t

variable (m : Model) (lower : Ty → TypeLowering Target.Ty) (ctx : Context)

/-- Writes the argument that stands for everything. -/
def voidArgument (v : Variance) : Target.Ty :=
  if ctx.inSupertypeClause then .object
  else
    match v with
    | .covariant => .anyType
    | .contravariant | .invariant => .object

/-- Writes an argument as it is seen; no answer inside means that the type has
to be raw. -/
def viewedArgument (p : TypeParam) (t : Ty) : TypeLowering (Option Target.Ty) :=
  if t = Language.voidTy then pure (some (voidArgument ctx p.variance))
  else if t = .bottom || (ctx.nestsArguments && t.isComposite) then
    if ctx.creating then pure none
    else if ctx.inSupertypeClause then
      match p.bounds.head? with
      | some bound => if t ≠ .bottom then some <$> lower bound else pure (some .object)
      | none => pure (some .object)
    else if t = .bottom then pure (some .anyType)
    else (fun u => some (wildcard p.variance ctx u)) <$> lower t
  else if ctx.inSupertypeClause then some <$> lower t
  else (fun u => some (wildcard p.variance ctx u)) <$> lower t

/-- Writes the argument of one parameter.  A missing one is noted and leaves
the placeholder. -/
def argument (owner : Ty) (p : ParamId) : Option Ty → TypeLowering (Option Target.Ty)
  | none => do
    note (.missingArgument owner (m.param p).name)
    pure (some .erroneous)
  | some arg =>
    match ArgumentView.of m ctx arg with
    | .forcesRaw => pure none
    | .as t => viewedArgument lower ctx (m.param p) t

/-- Writes the arguments one after the other, until one forces the type raw. -/
def arguments (owner : Ty) : List (ParamId × Option Ty) → TypeLowering (Option (List Target.Ty))
  | [] => pure (some [])
  | (p, arg) :: rest => do
    match ← argument m lower ctx owner p arg with
    | none => pure none
    | some t =>
      match ← arguments owner rest with
      | none => pure none
      | some ts => pure (some (t :: ts))

/-- Pairs each parameter with its argument, if there is one. -/
def pairArguments : List ParamId → List Ty → List (ParamId × Option Ty)
  | [], _ => []
  | p :: ps, [] => (p, none) :: pairArguments ps []
  | p :: ps, t :: ts => (p, some t) :: pairArguments ps ts

/-- The arguments that are written: of a function value's type the target knows
the result only. -/
def writtenArguments (callable : Bool) (pairs : List (ParamId × Option Ty)) :
    List (ParamId × Option Ty) :=
  if callable then pairs.take 1 else pairs

/-- The written arguments of a type; no answer inside means that it is raw. -/
def typeArguments (callable : Bool) (owner : Ty) (pairs : List (ParamId × Option Ty)) :
    TypeLowering (Option (List Target.Ty)) :=
  arguments m lower ctx owner (writtenArguments callable pairs)

end TypeLowering

end TreeLowering
