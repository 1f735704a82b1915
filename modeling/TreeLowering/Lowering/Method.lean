import TreeLowering.Lowering.Statement
import TreeLowering.Lowering.TypeParameter
import TreeLowering.Target.Reach
set_option autoImplicit false

/-!
# Lowering: methods

A function lowers to a method that takes its first parameter list.  With more
lists, the method yields a function value for the second one, and so on, and
the innermost function value runs the body.
-/

namespace TreeLowering

open Target (Expr Stmt)

namespace Env

/-- Lowers the parameters of a method. -/
def methodParams (env : Env) : List Parameter → TypeLowering (List Target.Param)
  | [] => pure []
  | p :: ps => do
    let ty ← env.parameterType p
    let rest ← methodParams env ps
    pure (⟨true, false, p.name, ty⟩ :: rest)

/-- Result type of a method; the type that says nothing is written as no result
at all. -/
def methodResult (env : Env) (result : Ty) : TypeLowering Target.Ty :=
  if result = Language.voidTy then pure (.primitive .void) else env.lowerType result .plain

/-- Body and result type of a function with one parameter list. -/
def plainBody (env : Env) (result : Ty) (body : List Tree.Stmt) :
    Lowering (Target.Ty × List Stmt) := do
  let form ← env.valueForm result
  let lowered ← Lowering.withReturns ⟨form, false⟩ (env.lowerStmts body)
  let ty ← env.methodResult result
  pure (ty, lowered)

/-- A body whose callers expect a value: the absent value, if it yields none. -/
def endWithValue (result : Ty) (body : List Stmt) : List Stmt :=
  if result = Language.voidTy && Stmt.allComplete body then body ++ [.ret (some .null)] else body

/-- Wraps a body into function values for the parameter lists, the last list
innermost. -/
def wrapLayers (env : Env) (result : Ty) (body : List Stmt) :
    List (List Parameter) → Lowering (List Stmt)
  | [] => pure body
  | list :: rest => do
    let inner ← wrapLayers env result body rest
    let layer ←
      env.layerCallable (.callable (result.curried rest) (Parameter.types list)) list inner
    pure [.ret (some layer)]

/-- Body and result type of a function with more parameter lists. -/
def curriedBody (env : Env) (result : Ty) (lists : List (List Parameter))
    (body : List Tree.Stmt) : Lowering (Target.Ty × List Stmt) := do
  let lowered ← Lowering.withReturns ⟨.boxed, true⟩ (env.lowerStmts body)
  let wrapped ← env.wrapLayers result (endWithValue result lowered) lists
  let ty ← env.lowerType (result.curried lists) .plain
  pure (ty, wrapped)

/-- Lowers a function to a method with the given result type. -/
def lowerFunction (env : Env) (f : Tree.Function) (result : Ty) : Lowering Target.Method := do
  let x := env.model.decl f.decl
  match x.paramLists with
  | [] => Lowering.fail (.noParameterLists (env.model.qualifiedName f.decl))
  | first :: rest => do
    Lowering.moveTo f.span
    let typeParams ← env.lowerTypeParams x.typeParams
    let params ← env.methodParams first
    let (ty, body) ←
      if rest.isEmpty then env.plainBody result f.body else env.curriedBody result rest f.body
    pure (.mk { isPublic := x.flags.isShared } typeParams ty x.name params (some body))

end Env

end TreeLowering
