import TreeLowering.Lowering.TypeExpr
import TreeLowering.Shared.Refinement
import TreeLowering.Shared.Target
set_option autoImplicit false

/-!
# Shared tables: types

The lowering of types, where these are positions in a pool and the names in the
lowered type are those of an interner.  The name of a declaration is rendered
once and then found in the cache.
-/

namespace TreeLowering.Shared

open Tabled

namespace Target

/-- A class by its text. -/
def Ty.named (text : String) : Tabled Ty := Ty.cls <$> intern text

/-- The platform's root object. -/
def Ty.object : Tabled Ty := Ty.named Support.object

end Target

/-! ## Arguments -/

/-- How a type argument is treated. -/
inductive ArgumentView where
  /-- The whole type has to be written raw. -/
  | forcesRaw
  /-- The argument is lowered as this type. -/
  | as (i : TypeIdx)
  deriving DecidableEq, Repr, Inhabited

namespace Model

variable (m : Model)

/-- A case of the Boolean type is seen as the Boolean type. -/
def widenBoolean (i : TypeIdx) : Tabled TypeIdx := do
  if ← both (m.isBoolean i) (no (m.isTypeParameter i)) then pure m.builtins.boolean else pure i

/-- An argument without its absent case; the type that says nothing keeps it. -/
def presentArgument (i : TypeIdx) : Tabled TypeIdx := do
  if ← both (pure (i ≠ m.builtins.void)) (isOptional i) then m.nonNull i else pure i

/-- An argument without its absent value; a union or intersection is seen as
its iterable shape, and without one it forces the type raw wherever a wildcard
would not do. -/
def viewArgument (ctx : Context) (arg : TypeIdx) : Tabled ArgumentView := do
  let only ← collapse arg
  let present ← m.presentArgument only
  if ← isComposite present then
    match ← m.iterableShape? present with
    | some shape => .as <$> m.widenBoolean shape
    | none =>
      if ctx.creating || !ctx.nestsArguments then pure .forcesRaw
      else .as <$> m.widenBoolean present
  else .as <$> m.widenBoolean present

end Model

/-- A lowered argument as a use of a parameter: a wildcard where the parameter
varies, exact where it does not and where an object is created. -/
def wildcard (v : Variance) (ctx : Context) (t : Target.Ty) : Target.Ty :=
  if ctx.creating then t
  else
    match v with
    | .covariant => .subtypeOf t
    | .contravariant => .supertypeOf t
    | .invariant => t

/-- The parameters of a declaration, each with its argument if there is one. -/
def pairArguments : List ParamId → List TypeIdx → List (ParamId × Option TypeIdx)
  | [], _ => []
  | p :: ps, [] => (p, none) :: pairArguments ps []
  | p :: ps, i :: is => (p, some i) :: pairArguments ps is

section Arguments

variable (m : Model) (lower : TypeIdx → Lowering Target.Ty) (ctx : Context)

/-- Writes the argument that stands for everything. -/
def voidArgument (v : Variance) : Tabled Target.Ty :=
  if ctx.inSupertypeClause then Target.Ty.object
  else
    match v with
    | .covariant => pure .anyType
    | .contravariant | .invariant => Target.Ty.object

/-- Writes a lowered argument as a use of its parameter. -/
def usedArgument (p : TypeParam) (i : TypeIdx) : Lowering (Option Target.Ty) :=
  (fun u => some (wildcard p.variance ctx u)) <$> lower i

/-- Writes the bottom type, or a union or intersection without a shape, in a clause
that names supertypes: as the first bound of its parameter. -/
def boundArgument (p : TypeParam) (i : TypeIdx) : Lowering (Option Target.Ty) :=
  match p.bounds.head? with
  | some bound => if i ≠ .bottom then some <$> lower bound else some <$> liftM Target.Ty.object
  | none => some <$> liftM Target.Ty.object

/-- Writes an argument as it is seen; no answer inside means that the type has
to be raw. -/
def viewedArgument (p : TypeParam) (i : TypeIdx) : Lowering (Option Target.Ty) :=
  if i = m.builtins.void then some <$> liftM (voidArgument ctx p.variance)
  else do
    if ← either (pure (i = .bottom)) (both (pure ctx.nestsArguments) (isComposite i)) then
      if ctx.creating then pure none
      else if ctx.inSupertypeClause then boundArgument lower p i
      else if i = .bottom then pure (some .anyType)
      else usedArgument lower ctx p i
    else if ctx.inSupertypeClause then some <$> lower i
    else usedArgument lower ctx p i

/-- Writes the argument of one parameter.  A missing one is reported and leaves
the placeholder. -/
def argument (owner : TypeIdx) (p : ParamId) : Option TypeIdx → Lowering (Option Target.Ty)
  | none => do
    Lowering.problem (.missingTypeArgument owner (m.param p).name)
    pure (some .erroneous)
  | some arg => do
    match ← m.viewArgument ctx arg with
    | .forcesRaw => pure none
    | .as i => viewedArgument m lower ctx (m.param p) i

/-- Writes the arguments one after the other, until one forces the type raw. -/
def arguments (owner : TypeIdx) :
    List (ParamId × Option TypeIdx) → Lowering (Option (List Target.Ty))
  | [] => pure (some [])
  | (p, arg) :: rest => do
    match ← argument m lower ctx owner p arg with
    | none => pure none
    | some t =>
      match ← arguments owner rest with
      | none => pure none
      | some ts => pure (some (t :: ts))

/-- The written arguments of a type; no answer inside means that it is raw.  Of a
function value's type the target knows the result only. -/
def typeArguments (callable : Bool) (owner : TypeIdx) (pairs : List (ParamId × Option TypeIdx)) :
    Lowering (Option (List Target.Ty)) :=
  arguments m lower ctx owner (if callable then pairs.take 1 else pairs)

end Arguments

/-! ## Segments -/

/-- What the segments of a type have in common. -/
structure Chain where
  /-- The whole type is a function value's own type. -/
  isCallable : Bool
  /-- Number of segments. -/
  length : Nat
  /-- Position, from the outside, of the first segment with arguments. -/
  firstWithArgs : Nat
  deriving DecidableEq, Repr, Inhabited

namespace Model

variable (m : Model)

/-- The segment's declaration is static. -/
def isStaticSegment (n : TypeNode) : Bool := n.decl?.any fun d => (m.decl d).flags.isStatic

/-- The type is a member interface. -/
def isLifted (segments : List TypeIdx) (n : TypeNode) : Bool :=
  1 < segments.length && n.decl?.any fun d => (m.decl d).isInterface

/-- The chain of the segments of a type, innermost first. -/
def chainOf (isCallable : Bool) (segments : List TypeIdx) : Tabled Chain :=
  reading fun t =>
    let inner := segments.takeWhile fun s => !m.isStaticSegment (t.pool.node s)
    ⟨isCallable, segments.length, segments.length - 1 - inner.length⟩

/-- The parameters and arguments of all segments. -/
def flatArguments (segments : List TypeIdx) : Tabled (List (ParamId × Option TypeIdx)) :=
  reading fun t =>
    segments.flatMap fun s =>
      match t.pool.node s with
      | .nominal d as _ _ => pairArguments (m.decl d).typeParams as
      | _ => []

end Model

/-- Some segment has arguments. -/
def anyArguments (segments : List TypeIdx) : Tabled Bool :=
  reading fun t => segments.any fun s => !(t.pool.node s).args.isEmpty

section Segments

variable (m : Model) (lower : TypeIdx → Lowering Target.Ty) (ctx : Context)

/-- A class by the name of a declaration. -/
def declClass (d : DeclId) (s : Spelling) : Lowering Target.Ty :=
  Target.Ty.cls <$> Lowering.declName m d s

/-- Writes the name of a segment's declaration after what is around it. -/
def segmentBase (c : Chain) (around : Target.Ty) (position : Nat) (d : DeclId) :
    Lowering Target.Ty :=
  if c.isCallable && ctx.creating then liftM (Target.Ty.named Support.abstractCallable)
  else if position = 0 then
    if (m.decl d).isInterface && 1 < c.length && c.firstWithArgs = 0 then
      declClass m d ⟨true, true⟩
    else declClass m d (TypeLowering.spellingIn ctx)
  else
    Target.Ty.member around <$>
      Lowering.declName m d ⟨false, ctx.companion || (m.decl d).isInterface⟩

/-- The arguments of a segment, if it carries any. -/
def carriedArguments (c : Chain) (position : Nat) (segment : TypeIdx) (d : DeclId)
    (as : List TypeIdx) : Lowering (Option (List Target.Ty)) :=
  if c.firstWithArgs ≤ position then do
    let callable ← isCallable segment
    typeArguments m lower ctx callable segment (pairArguments (m.decl d).typeParams as)
  else pure none

/-- Writes a segment, with its arguments if it carries any. -/
def segmentType (c : Chain) (around : Target.Ty) (position : Nat) (segment : TypeIdx) :
    Lowering Target.Ty := do
  match ← nodeAt segment with
  | .nominal d as _ _ => do
    let args ← carriedArguments m lower ctx c position segment d as
    let base ← segmentBase m ctx c around position d
    pure (.applied base (args.getD []))
  | _ => pure .erroneous

/-- Writes segments from a position on, outermost first. -/
def chainType (c : Chain) : Nat → Target.Ty → List TypeIdx → Lowering Target.Ty
  | _, around, [] => pure around
  | position, around, segment :: rest => do
    let t ← segmentType m lower ctx c around position segment
    chainType c (position + 1) t rest

/-- Writes the name of a member interface lifted to the top level. -/
def liftedBase (callable : Bool) : TypeNode → Lowering Target.Ty
  | .nominal d _ _ _ =>
    if callable && ctx.creating then liftM (Target.Ty.named Support.abstractCallable)
    else declClass m d .full
  | _ => pure .erroneous

/-- Writes a member interface lifted to the top level. -/
def liftedType (i : TypeIdx) (segments : List TypeIdx) : Lowering Target.Ty := do
  let callable ← isCallable i
  let pairs ← m.flatArguments segments.reverse
  let args ← typeArguments m lower ctx callable i pairs
  let n ← nodeAt i
  let base ← liftedBase m ctx callable n
  pure (.applied base (args.getD []))

/-- Writes a type without arguments. -/
def bareType : TypeNode → Lowering Target.Ty
  | .param p => pure (.var (m.param p).name)
  | .nominal d _ _ h =>
    if !(ctx.satisfies || ctx.noPrimitives) && h = some .platformString then
      liftM (Target.Ty.named Support.platformString)
    else declClass m d (TypeLowering.spellingIn ctx)
  | .union _ | .inter _ | .bottom | .error => pure .erroneous

/-- Writes a type with arguments. -/
def appliedType (i : TypeIdx) (segments : List TypeIdx) : Lowering Target.Ty := do
  let n ← nodeAt i
  if m.isLifted segments n then liftedType m lower ctx i segments
  else do
    let callable ← isCallable i
    if ctx.simpleName then segmentType m lower ctx ⟨callable, 1, 0⟩ .erroneous 0 i
    else do
      let c ← m.chainOf callable segments
      chainType m lower ctx c 0 .erroneous segments.reverse

/-- Writes a class, an interface or a type parameter. -/
def classType (i : TypeIdx) : Lowering Target.Ty := do
  let simple ← m.simplify i
  let segments ← Tabled.segments simple
  if ← both (pure (!ctx.raw)) (anyArguments segments) then appliedType m lower ctx simple segments
  else do
    let n ← nodeAt simple
    bareType m ctx n

end Segments

/-! ## Types -/

namespace Model

variable (m : Model)

/-- The raw form of a type, if it has one. -/
def rawForm? (small : Bool) (i : TypeIdx) : Tabled (Option Target.Ty) := do
  let hint ← hint? i
  if ← either (m.isString i) (m.isPlatformString i) then
    some <$> Target.Ty.named Support.platformString
  else if ← m.isBoolean i then pure (some (.primitive .boolean))
  else if ← m.isInteger i then
    pure (some (.primitive (TypeLowering.integerPrimitive small hint)))
  else if ← m.isFloat i then pure (some (.primitive (TypeLowering.floatPrimitive small hint)))
  else if ← m.isCharacter i then
    pure (some (.primitive (TypeLowering.characterPrimitive hint)))
  else pure none

/-- Where type parameters stand for their first bound, that bound. -/
def resolveBound (ctx : Context) (i : TypeIdx) : Tabled TypeIdx :=
  if ctx.firstBound then do
    match ← nodeAt i with
    | .param p => pure ((m.firstBound? p).getD m.builtins.object)
    | _ => pure i
  else pure i

/-- The type may be written in its raw form. -/
def allowsRaw (ctx : Context) (i : TypeIdx) : Tabled Bool :=
  both (pure ctx.allowsPrimitives) (either (no (isOptional i)) (m.isPlatformString i))

end Model

section Step

variable (m : Model) (lower : TypeIdx → Lowering Target.Ty) (ctx : Context)

/-- Lowers a type that does not erase. -/
def keptType (i : TypeIdx) : Lowering Target.Ty := do
  let simple ← m.simplify i
  if ← isComposite simple then do
    let shape ← m.iterableShape? i
    classType m lower ctx (shape.getD i)
  else if ← m.erasesToException i then Target.Ty.named (TypeLowering.exceptionClass ctx)
  else if ← m.allowsRaw ctx i then do
    match ← m.rawForm? ctx.small i with
    | some raw => pure raw
    | none => classType m lower ctx i
  else if ← both (m.isBoolean i) (no (m.isTypeParameter i)) then
    classType m lower ctx m.builtins.boolean
  else classType m lower ctx i

/-- One step: lowers a type, given how its arguments are lowered.  No answer
inside means that a satisfied type is left out. -/
def step (given : TypeIdx) : Lowering (Option Target.Ty) := do
  let only ← collapse given
  if only = .error then pure (some .erroneous)
  else do
    let i ← m.resolveBound ctx only
    if ← m.erasesToObject i then
      if ctx.satisfies then pure none else some <$> liftM Target.Ty.object
    else some <$> keptType m lower ctx i

end Step

/-- A type that is left out reads as the root object. -/
def orObject (x : Lowering (Option Target.Ty)) : Lowering Target.Ty := do
  match ← x with
  | some t => pure t
  | none => Target.Ty.object

namespace Env

variable (env : Env)

/-- Lowers a type argument in which arguments nest `depth` deep at most. -/
def argumentType : Nat → TypeIdx → Lowering Target.Ty
  | 0, _ => Lowering.halt .endless
  | depth + 1, i =>
    orObject (step env.model (argumentType depth) (TypeLowering.adjust env.config .typeArgument) i)

/-- Lowers a type for a position.  No answer inside, for a type that erases to
the root object in a clause of satisfied types, means that it is left out. -/
def lowerType? (i : TypeIdx) (ctx : Context) : Lowering (Option Target.Ty) :=
  step env.model (env.argumentType env.depth) (TypeLowering.adjust env.config ctx) i

/-- Lowers a type for a position that always needs one. -/
def lowerType (i : TypeIdx) (ctx : Context) : Lowering Target.Ty :=
  orObject (env.lowerType? i ctx)

/-! ## Type parameters -/

end Env

namespace Model

variable (m : Model)

/-- The parameter of the refined method in the same place, when its bounds
differ. -/
def boundsSource? (p : ParamId) : Option ParamId :=
  let owner := m.decl (m.param p).owner
  if !owner.isMethod then none
  else
    match owner.refined, owner.typeParams.idxOf? p with
    | some refined, some position =>
      match (m.decl refined).typeParams[position]? with
      | some q => if q = p || m.haveSameBounds p q then none else some q
      | none => none
    | _, _ => none

/-- The bounds that a type parameter is emitted with. -/
def emittedBounds (p : ParamId) : Tabled (List TypeIdx) :=
  only (fun i => no (m.erasesToObject i)) (m.param ((m.boundsSource? p).getD p)).bounds

end Model

namespace Env

variable (env : Env)

/-- Lowers several types for one position. -/
def lowerTypes (ctx : Context) : List TypeIdx → Lowering (List Target.Ty)
  | [] => pure []
  | i :: is => do
    let u ← env.lowerType i ctx
    let us ← lowerTypes ctx is
    pure (u :: us)

/-- Lowers a declared type parameter. -/
def lowerTypeParam (p : ParamId) : Lowering Target.TypeParam := do
  let kept ← env.model.emittedBounds p
  let bounds ← env.lowerTypes .boxed kept
  pure ⟨(env.model.param p).name, bounds⟩

/-- Lowers several declared type parameters. -/
def lowerTypeParams : List ParamId → Lowering (List Target.TypeParam)
  | [] => pure []
  | p :: ps => do
    let x ← env.lowerTypeParam p
    let xs ← lowerTypeParams ps
    pure (x :: xs)

/-- The form that values of a type are kept in: raw when the type lowers to
something else than its boxed form. -/
def valueForm (i : TypeIdx) : Lowering Form := do
  let natural ← env.lowerType i .plain
  let boxed ← env.lowerType i .boxed
  pure (if natural.same boxed then .boxed else .raw)

end Env

end TreeLowering.Shared
