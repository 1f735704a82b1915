import TreeLowering.Lowering.Boxing
set_option autoImplicit false

/-!
# Lowering: type tests

Whether the value of a binding has a type, as an expression over the binding
alone: the cases of a union are alternatives, the bounds of an intersection
hold together.
-/

namespace TreeLowering

open Target (Expr Stmt)

namespace Env

/-- Tests put together by an operator; without tests, an alternative fails and
a conjunction holds. -/
def combineTests (op : Target.BinaryOp) : List Expr → Expr
  | [] => .bool (op == .and)
  | test :: tests => tests.foldl (.binary op) test

/-- The position of the class that a value is tested against. -/
def testPosition : Context := .boxed ∪ .rawBound

/-- Tests against a type that is no union, intersection or bottom type. -/
def leafTest (env : Env) (raw : String) (t : Ty) : Lowering Expr := do
  let subject : Expr := .ident raw
  let plain := t.withoutHint
  if plain = Language.voidTy then do
    let tmp ← Lowering.fresh Support.temporary
    pure (.letIn [.declareFinal tmp .object subject] (.bool true))
  else if plain = Language.nothingTy then pure (.binary .eq subject .null)
  else if plain = Language.objectTy then pure (.binary .ne subject .null)
  else if plain = Language.identifiableTy then
    pure (.static Support.util [] Support.isIdentifiable [subject])
  else if plain = Language.identifiableObjectTy then
    pure (.static Support.util [] Support.isIdentifiableObject [subject])
  else do
    let cls ← env.lowerType t testPosition
    pure (.instanceOf subject cls)

mutual

/-- Tests whether the value of the binding `raw` has a type. -/
def typeTest (env : Env) (raw : String) : Ty → Lowering Expr
  | .union cases => do
    let tests ← typeTests env raw cases
    pure (combineTests .or tests)
  | .inter bounds => do
    let tests ← typeTests env raw bounds
    pure (combineTests .and tests)
  | .bottom => pure (.bool false)
  | .nominal d as o h => env.leafTest raw (.nominal d as o h)
  | .param p => env.leafTest raw (.param p)
  | .error => env.leafTest raw .error

/-- Tests against several types, one after the other. -/
def typeTests (env : Env) (raw : String) : List Ty → Lowering (List Expr)
  | [] => pure []
  | t :: ts => do
    let test ← typeTest env raw t
    let tests ← typeTests env raw ts
    pure (test :: tests)

end

end Env

end TreeLowering
