import TreeLowering.Lowering.Boxing
import TreeLowering.Model.Display
set_option autoImplicit false

/-!
# Lowering: function values

A function value is an object of an anonymous class with one method `call`.
Up to three parameters it takes them one by one, beyond that as an array.  They
arrive as root objects, and are cast and converted to their declared forms.

A function with several parameter lists takes the first one and yields a
function value for the next.
-/

namespace TreeLowering

open Target (Expr Stmt)

namespace Parameter

/-- The types of parameters. -/
def types (ps : List Parameter) : List Ty := ps.map (·.ty)

end Parameter

/-- Type of what a function yields that still has to be given the parameter
lists. -/
def Ty.curried (result : Ty) (lists : List (List Parameter)) : Ty :=
  lists.foldr (fun list result => .callable result (Parameter.types list)) result

namespace Env

/-- The parameters of `call`. -/
def callParams (arity : Nat) : List Target.Param :=
  if arity ≤ Support.maxFixedArity then
    (List.range arity).map fun i => ⟨true, false, Support.callArg i, .object⟩
  else [⟨true, true, Support.callArg 0, .array .object⟩]

/-- A function value of a type, whose `call` takes `arity` parameters. -/
def buildCallable (env : Env) (t : Ty) (arity : Nat) (body : List Stmt) :
    TypeLowering Expr := do
  let result ← env.lowerType ((env.model.callableResult? t).getD .error) .inExtends
  let cls ← env.lowerType t (.inExtends ∪ .inCreation)
  let call : Target.Method :=
    .mk { isPublic := true } [] result Support.call (callParams arity) (some body)
  pure (.create cls [.lit (.string (env.model.display t))] (some [call]))

/-- An argument of `call` as it arrives.  An index into the argument array is a
32-bit word. -/
def arrivingArgument (position arity : Nat) : Expr :=
  if arity ≤ Support.maxFixedArity then .ident (Support.callArg position)
  else .index (.ident (Support.callArg 0)) (.lit (.int (Int.bmod position 0x100000000)))

/-- An argument of `call` in its parameter's declared form. -/
def unpickArgument (env : Env) (p : Parameter) (position arity : Nat) : Lowering Expr := do
  let ty ← env.lowerType p.ty .boxed
  env.convert (.cast ty (arrivingArgument position arity)) true p.ty (.ofDeclared p.raw)

/-- The arguments of `call` from a position on. -/
def unpickArguments (env : Env) (arity : Nat) : Nat → List Parameter → Lowering (List Expr)
  | _, [] => pure []
  | position, p :: ps => do
    let e ← env.unpickArgument p position arity
    let es ← unpickArguments env arity (position + 1) ps
    pure (e :: es)

/-- Type of a parameter's local, raw if it is declared so. -/
def parameterType (env : Env) (p : Parameter) : TypeLowering Target.Ty :=
  env.lowerType p.ty (if p.raw = some true then .plain else .boxed)

/-- Locals for the arguments of `call` from a position on. -/
def unpickLocals (env : Env) (arity : Nat) : Nat → List Parameter → Lowering (List Stmt)
  | _, [] => pure []
  | position, p :: ps => do
    let init ← env.unpickArgument p position arity
    let ty ← env.parameterType p
    let rest ← unpickLocals env arity (position + 1) ps
    pure (.declareFinal p.name ty init :: rest)

/-- A function value for one of several parameter lists. -/
def layerCallable (env : Env) (t : Ty) (params : List Parameter) (body : List Stmt) :
    Lowering Expr := do
  let locals ← env.unpickLocals params.length 0 params
  env.buildCallable t params.length (locals ++ body)

/-- What the `call` of a function used as a value does. -/
def forwardBody (env : Env) (result : Ty) (call : Expr) : Lowering (List Stmt) := do
  if result = Language.voidTy then pure [.exec call, .ret (some .null)]
  else do
    let value ← env.convert call (!env.model.canUnbox result) result .boxed
    pure [.ret (some value)]

/-- A function used as a value. -/
def functionRef (env : Env) (d : DeclId) : Lowering Expr := do
  let x := env.model.decl d
  match x.paramLists with
  | [] => Lowering.fail (.noParameterLists (env.model.qualifiedName d))
  | first :: rest => do
    let result := (x.ty.getD .error).curried rest
    let args ← env.unpickArguments first.length 0 first
    let body ← env.forwardBody result (.callLocal x.name args)
    env.buildCallable (.callable result (Parameter.types first)) first.length body

end Env

end TreeLowering
