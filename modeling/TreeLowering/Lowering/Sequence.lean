import TreeLowering.Lowering.Boxing
set_option autoImplicit false

/-!
# Lowering: sequences

Sequence literals, the empty sequence, and the conversion of a sequence to a
platform array.
-/

namespace TreeLowering

open Target (Expr Stmt)

namespace Env

/-- Arguments of a sequence literal; a lone absent value is cast, so that it is
not taken for a missing array. -/
def sequenceArguments (elems : List Expr) (elemTypes : List Ty) : List Expr :=
  match elems, elemTypes with
  | [e], [t] => if t.isOf Language.nothing then [.cast .object e] else [e]
  | _, _ => elems

/-- A sequence literal with its type lowered for a position. -/
def makeSequence (env : Env) (elems : List Expr) (elemTypes : List Ty) (element : Ty)
    (ctx : Context) : TypeLowering Expr := do
  let cls ← env.lowerType (.of Language.arraySequence [element]) ctx
  pure (.create cls (sequenceArguments elems elemTypes) none)

/-- The empty sequence. -/
def makeEmpty : Expr := .static Support.emptyHolder [] Support.holderValue []

/-- How a sequence becomes an array of raw elements. -/
inductive ArrayPlan where
  /-- By a runtime method for the element type. -/
  | byMethod (name : String)
  /-- As an array of objects. -/
  | objects
  /-- Not at all. -/
  | unsupported
  deriving DecidableEq, Repr, Inhabited

/-- The method for integers. -/
def integerArray : Option Hint → String
  | some .byte => Support.toByteArray
  | some .short => Support.toShortArray
  | some .int => Support.toIntArray
  | _ => Support.toLongArray

/-- The method for floats. -/
def floatArray : Option Hint → String
  | some .float => Support.toFloatArray
  | _ => Support.toDoubleArray

/-- The plan for raw elements of a type. -/
def rawArrayPlan (env : Env) (element : Ty) : ArrayPlan :=
  if element.isInteger then .byMethod (integerArray element.hint?)
  else if element.isFloat then .byMethod (floatArray element.hint?)
  else if element.isCharacter then
    if element.hint? = some .char then .byMethod Support.toCharArray else .unsupported
  else if env.model.isBoolean element then .byMethod Support.toBooleanArray
  else if element.isPlatformString then .byMethod Support.toPlatformStringArray
  else if element.isString then .objects
  else .unsupported

/-- The position of an array's element class. -/
def elementPosition : Context := .inCreation ∪ .boxed

/-- An array of a sequence whose size is known beforehand. -/
def fixedSizedArray (env : Env) (element : Ty) (e : Expr) : Lowering Expr := do
  let cls ← env.lowerType element elementPosition
  let fixed ← env.lowerType (.of Language.fixedSized [element]) .plain
  let seq ← Lowering.fresh Support.temporary
  let size : Expr := .cast (.primitive .int) (Expr.get (.ident seq) Support.size)
  let array := Expr.static Support.util [cls] Support.toArray [.ident seq, .createArray cls size]
  pure (.letIn [.declareFinal seq fixed (.cast fixed e)] array)

/-- An array of objects; `exprType` is the static type of the expression. -/
def objectArray (env : Env) (element : Ty) (e : Expr) (exprType : Ty) : Lowering Expr := do
  if env.model.isSubtypeOf exprType Language.fixedSized then env.fixedSizedArray element e
  else do
    let cls ← env.lowerType element elementPosition
    pure (.static Support.util [] Support.toArray [e, .classLit cls])

/-- Converts a sequence to a platform array, of raw elements if they are asked
for. -/
def sequenceToArray (env : Env) (e : Expr) (seqType : Ty) (form : Form) (exprType : Ty) :
    Lowering Expr := do
  let element := (env.model.iteratedType? seqType).getD .error
  if form ≠ .raw then env.objectArray element e exprType
  else
    match env.rawArrayPlan element with
    | .byMethod name => pure (.static Support.util [] name [e])
    | .objects => env.objectArray element e exprType
    | .unsupported => do
      Lowering.problem (.unsupportedArrayElement element)
      pure e

end Env

end TreeLowering
