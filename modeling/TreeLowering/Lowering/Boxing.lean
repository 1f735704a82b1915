import TreeLowering.Lowering.State
import TreeLowering.Lowering.TypeExpr
import TreeLowering.Target.Fragment
set_option autoImplicit false

/-!
# Lowering: raw and boxed values

A value of a basic type is either a raw platform value or a boxed runtime
object.  Every position asks for one of the two forms, and a value in the other
form is converted.
-/

namespace TreeLowering

open Target (Expr Stmt)

namespace Target

/-- A call of a static method of a class. -/
def Expr.static (cls : String) (typeArgs : List Ty) (method : String) (args : List Expr) : Expr :=
  .callStatic (.cls cls) typeArgs method args

/-- A call without arguments. -/
def Expr.get (target : Expr) (method : String) : Expr := .callOn target method []

end Target

namespace Env

/-- The form that values of a type are kept in: raw when the type lowers to
something else than its boxed form. -/
def valueForm (env : Env) (t : Ty) : TypeLowering Form := do
  let natural ← env.lowerType t .plain
  let boxed ← env.lowerType t .boxed
  pure (if natural = boxed then .boxed else .raw)

/-- A call of the factory of a boxed class. -/
def boxInto (env : Env) (d : DeclId) (typeArgs : List Target.Ty) (e : Expr) :
    TypeLowering Expr := do
  let name ← TypeLowering.declName env.model d .full
  pure (.callStatic (.cls name) typeArgs Support.box [e])

/-- The class that values of a basic type are boxed into. -/
def boxClass? (env : Env) (t : Ty) : Option DeclId :=
  if t.isInteger then some Language.integer
  else if t.isFloat then some Language.float
  else if t.isString then some Language.string
  else if t.isCharacter then some Language.character
  else if env.model.isBoolean t then some Language.boolean
  else none

/-- Element type of an array type. -/
def arrayElement (env : Env) (t : Ty) : Ty :=
  ((env.model.supertype? t Language.array).bind (·.args.head?)).getD .error

/-- Makes a raw value boxed. -/
def boxValue (env : Env) (e : Expr) (t : Ty) : TypeLowering Expr :=
  match env.boxClass? t with
  | some d => env.boxInto d [] e
  | none =>
    if env.model.isArray t then do
      let element ← env.lowerType (env.arrayElement t) .typeArgument
      env.boxInto Language.array [element] e
    else if t = Language.voidTy then pure (.letIn [.exec e] .null)
    else pure e

/-- Makes a boxed string raw. -/
def unboxString (e : Expr) : Expr :=
  if e.isStringLiteral then e else e.get Support.unboxString

/-- Makes a boxed string raw unless it is absent. -/
def unboxOptionalString (env : Env) (e : Expr) : Lowering Expr := do
  if e.isStringLiteral then pure e
  else do
    let tmp ← Lowering.fresh Support.temporary
    let ty ← env.lowerType Language.stringTy .boxed
    let test : Expr := .binary .ne (.ident tmp) .null
    let value : Expr := .cond test (unboxString (.ident tmp)) .null
    pure (.letIn [.declareFinal tmp ty e] value)

/-- The accessor that makes a boxed value of the type raw, strings apart. -/
def unboxMethod? (env : Env) (t : Ty) : Option String :=
  if t.isInteger then some Support.unboxInteger
  else if t.isFloat then some Support.unboxFloat
  else if t.isCharacter then
    some (if t.hint? = some .char then Support.unboxChar else Support.unboxCodePoint)
  else if env.model.isBoolean t then some Support.unboxBoolean
  else if env.model.isArray t then some Support.unboxArray
  else none

/-- Makes a boxed value raw. -/
def unboxValue (env : Env) (e : Expr) (t : Ty) : Lowering Expr :=
  if t.isString then pure (unboxString e)
  else
    match env.unboxMethod? t with
    | some method => pure (e.get method)
    | none =>
      if t.isOptional && t.definite.isString then env.unboxOptionalString e
      else pure e

/-- Brings a value into the form that a position asks for. -/
def convert (env : Env) (e : Expr) (isBoxed : Bool) (t : Ty) : Form → Lowering Expr
  | .asIs => pure e
  | .boxed => if isBoxed then pure e else env.boxValue e t
  | .raw => if isBoxed then env.unboxValue e t else pure e

end Env

end TreeLowering
