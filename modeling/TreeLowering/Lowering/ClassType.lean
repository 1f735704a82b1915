import TreeLowering.Lowering.TypeArgument
set_option autoImplicit false

/-!
# Lowering: class types and the types around them

A nominal type is written segment by segment, outermost first.  The segments
outside the innermost static one carry no arguments, and a member interface is
written as one lifted interface with the arguments of all its segments.
-/

namespace TreeLowering

namespace TypeLowering

/-- Asks for the name of a declaration. -/
def declName (m : Model) (d : DeclId) (s : Spelling) : TypeLowering String := do
  note (.named d s)
  pure (m.spelling d s)

/-- Which name of a declaration a position asks for. -/
def spellingIn (ctx : Context) : Spelling := ⟨!ctx.simpleName, ctx.companion⟩

/-- What the segments of a type have in common. -/
structure Chain where
  /-- The whole type. -/
  whole : Ty
  /-- Number of segments. -/
  length : Nat
  /-- Position, from the outside, of the first segment with arguments. -/
  firstWithArgs : Nat
  deriving DecidableEq, Repr, Inhabited

/-- The segment's declaration is static. -/
def isStaticSegment (m : Model) (segment : Ty) : Bool :=
  match segment.decl? with
  | some d => (m.decl d).flags.isStatic
  | none => false

/-- The chain of a type. -/
def Chain.of (m : Model) (t : Ty) : Chain :=
  let segments := t.segments
  { whole := t
    length := segments.length
    firstWithArgs :=
      segments.length - 1 - (segments.takeWhile (fun s => !isStaticSegment m s)).length }

variable (m : Model) (lower : Ty → TypeLowering Target.Ty) (ctx : Context)

/-- The arguments of a segment's own declaration. -/
def segmentArguments (d : DeclId) (args : List Ty) : List (ParamId × Option Ty) :=
  pairArguments (m.decl d).typeParams args

/-- Writes the name of a segment's declaration after what is around it. -/
def segmentBase (c : Chain) (around : Target.Ty) (position : Nat) (d : DeclId) :
    TypeLowering Target.Ty :=
  if c.whole.isCallable && ctx.creating then pure (.cls Support.abstractCallable)
  else if position = 0 then
    if (m.decl d).isInterface && 1 < c.length && c.firstWithArgs = 0 then
      .cls <$> declName m d ⟨true, true⟩
    else .cls <$> declName m d (spellingIn ctx)
  else .member around <$> declName m d ⟨false, ctx.companion || (m.decl d).isInterface⟩

/-- Writes a segment, with its arguments if it carries any. -/
def segmentType (c : Chain) (around : Target.Ty) (position : Nat) (segment : Ty) :
    TypeLowering Target.Ty :=
  match segment with
  | .nominal d as _ _ => do
    let args ←
      if c.firstWithArgs ≤ position then
        typeArguments m lower ctx segment.isCallable segment (segmentArguments m d as)
      else pure none
    let base ← segmentBase m ctx c around position d
    pure (.applied base (args.getD []))
  | _ => pure .erroneous

/-- Writes segments from a position on, outermost first. -/
def chainType (c : Chain) : Nat → Target.Ty → List Ty → TypeLowering Target.Ty
  | _, around, [] => pure around
  | position, around, segment :: rest => do
    let t ← segmentType m lower ctx c around position segment
    chainType c (position + 1) t rest

/-- The parameters and arguments of all segments. -/
def flatArguments (segments : List Ty) : List (ParamId × Option Ty) :=
  segments.flatMap fun segment =>
    match segment with
    | .nominal d as _ _ => segmentArguments m d as
    | _ => []

/-- Writes a member interface lifted to the top level. -/
def liftedType (t : Ty) : TypeLowering Target.Ty := do
  let args ← typeArguments m lower ctx t.isCallable t (flatArguments m t.segments.reverse)
  let base ←
    match t.decl? with
    | none => pure Target.Ty.erroneous
    | some d =>
      if t.isCallable && ctx.creating then pure (.cls Support.abstractCallable)
      else .cls <$> declName m d .full
  pure (.applied base (args.getD []))

/-- Writes a type without arguments. -/
def bareType : Ty → TypeLowering Target.Ty
  | .param p => pure (.var (m.param p).name)
  | .nominal d _ _ h =>
    if !(ctx.satisfies || ctx.noPrimitives) && h = some .platformString then
      pure (.cls Support.platformString)
    else .cls <$> declName m d (spellingIn ctx)
  | .union _ | .inter _ | .bottom | .error => pure .erroneous

/-- The type is a member interface. -/
def isLifted (t : Ty) : Bool :=
  1 < t.segments.length &&
    match t.decl? with
    | some d => (m.decl d).isInterface
    | none => false

/-- Writes a class, an interface or a type parameter. -/
def classType (t : Ty) : TypeLowering Target.Ty :=
  let simple := t.simplify
  if !ctx.raw && simple.segments.any (fun s => !s.args.isEmpty) then
    if isLifted m simple then liftedType m lower ctx simple
    else if ctx.simpleName then segmentType m lower ctx ⟨simple, 1, 0⟩ .erroneous 0 simple
    else chainType m lower ctx (Chain.of m simple) 0 .erroneous simple.segments.reverse
  else bareType m ctx simple

end TypeLowering

end TreeLowering
