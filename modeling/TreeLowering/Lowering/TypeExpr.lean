import TreeLowering.Lowering.ClassType
set_option autoImplicit false

/-!
# Lowering: types

Every type has one of these forms on the target: the root object, the platform
class of an exception, a primitive type or platform string, or a class type with
or without arguments.  The position decides between them.

Only type arguments are lowered in turn, so one step of the lowering takes the
lowering of arguments as a parameter, and the depth of nesting bounds the steps.
-/

namespace TreeLowering

namespace TypeLowering

/-- The platform class of the base exception type. -/
def exceptionClass (ctx : Context) : String :=
  if ctx.creating || ctx.extending then Support.baseException
  else if ctx.catching then Support.platformException
  else Support.throwable

/-- The primitive type of an integer type. -/
def integerPrimitive (small : Bool) : Option Hint → Target.Primitive
  | some .byte => .byte
  | some .short => .short
  | some .int => .int
  | _ => if small then .int else .long

/-- The primitive type of a float type. -/
def floatPrimitive (small : Bool) : Option Hint → Target.Primitive
  | some .float => .float
  | _ => if small then .float else .double

/-- The primitive type of a character type. -/
def characterPrimitive : Option Hint → Target.Primitive
  | some .char => .char
  | _ => .int

/-- The raw form of a type, if it has one. -/
def rawForm? (m : Model) (small : Bool) (t : Ty) : Option Target.Ty :=
  if t.isString || t.isPlatformString then some (.cls Support.platformString)
  else if m.isBoolean t then some (.primitive .boolean)
  else if t.isInteger then some (.primitive (integerPrimitive small t.hint?))
  else if t.isFloat then some (.primitive (floatPrimitive small t.hint?))
  else if t.isCharacter then some (.primitive (characterPrimitive t.hint?))
  else none

/-- Where type parameters stand for their first bound, that bound. -/
def resolveBound (m : Model) (ctx : Context) (t : Ty) : Ty :=
  if ctx.firstBound then
    match t with
    | .param p => (m.firstBound? p).getD Language.objectTy
    | _ => t
  else t

/-- One step: lowers a type, given how its arguments are lowered.  No answer
inside means that a satisfied type is left out. -/
def step (m : Model) (lower : Ty → TypeLowering Target.Ty) (ctx : Context) (given : Ty) :
    TypeLowering (Option Target.Ty) :=
  let only := given.collapse
  if only = .error then pure (some .erroneous)
  else
    let t := resolveBound m ctx only
    if m.erasesToObject t then pure (if ctx.satisfies then none else some .object)
    else if t.simplify.isComposite then
      some <$> classType m lower ctx ((m.iterableShape? t).getD t)
    else if t.erasesToException then pure (some (.cls (exceptionClass ctx)))
    else if ctx.allowsPrimitives && (!t.isOptional || t.isPlatformString) then
      match rawForm? m ctx.small t with
      | some raw => pure (some raw)
      | none => some <$> classType m lower ctx t
    else if m.isBoolean t && !t.isTypeParameter then
      some <$> classType m lower ctx Language.booleanTy
    else some <$> classType m lower ctx t

/-- A type that is left out reads as the root object. -/
def orObject (x : TypeLowering (Option Target.Ty)) : TypeLowering Target.Ty :=
  (fun t => t.getD .object) <$> x

/-- The settings may ask for small numbers everywhere. -/
def adjust (c : Config) (ctx : Context) : Context :=
  if c.smallIntegers then ctx ∪ .smallNumbers else ctx

/-- Lowers a type argument in which arguments nest `depth` deep at most. -/
def argumentType (env : Env) : Nat → Ty → TypeLowering Target.Ty
  | 0, _ => tooDeep
  | depth + 1, t =>
    orObject (step env.model (argumentType env depth) (adjust env.config .typeArgument) t)

theorem argumentType_zero (env : Env) (t : Ty) : argumentType env 0 t = tooDeep := rfl

theorem argumentType_succ (env : Env) (depth : Nat) (t : Ty) :
    argumentType env (depth + 1) t =
      orObject (step env.model (argumentType env depth) (adjust env.config .typeArgument) t) := by
  rw [argumentType]

end TypeLowering

namespace Env

/-- Lowers a type for a position.  No answer inside, for a type that erases to
the root object in a clause of satisfied types, means that it is left out. -/
def lowerType? (env : Env) (t : Ty) (ctx : Context) : TypeLowering (Option Target.Ty) :=
  TypeLowering.step env.model (TypeLowering.argumentType env env.depth)
    (TypeLowering.adjust env.config ctx) t

/-- Lowers a type for a position that always needs one. -/
def lowerType (env : Env) (t : Ty) (ctx : Context) : TypeLowering Target.Ty :=
  TypeLowering.orObject (env.lowerType? t ctx)

end Env

end TreeLowering
