import TreeLowering.Lowering.TypeExpr
import TreeLowering.Lowering.Widening
import TreeLowering.Target.Fragment
set_option autoImplicit false

/-!
# Lowering: type parameters

A declared type parameter keeps the bounds that do not erase.  A method that
refines another one cannot change the bounds on the target, so that it takes
those of the refined method where they differ.
-/

namespace TreeLowering

namespace Model

/-- The parameter of the refined method in the same place, when its bounds
differ. -/
def boundsSource? (m : Model) (p : ParamId) : Option ParamId :=
  let owner := m.decl (m.param p).owner
  if !owner.isMethod then none
  else
    match owner.refined, owner.typeParams.idxOf? p with
    | some refined, some position =>
      match (m.decl refined).typeParams[position]? with
      | some q => if q = p || m.haveSameBounds p q then none else some q
      | none => none
    | _, _ => none

/-- The bounds that a type parameter is emitted with. -/
def emittedBounds (m : Model) (p : ParamId) : List Ty :=
  (m.param ((m.boundsSource? p).getD p)).bounds.filter (fun t => !m.erasesToObject t)

end Model

namespace Env

/-- Lowers several types for one position. -/
def lowerTypes (env : Env) (ctx : Context) : List Ty → TypeLowering (List Target.Ty)
  | [] => pure []
  | t :: ts => do
    let u ← env.lowerType t ctx
    let us ← lowerTypes env ctx ts
    pure (u :: us)

/-- Lowers a declared type parameter. -/
def lowerTypeParam (env : Env) (p : ParamId) : TypeLowering Target.TypeParam := do
  let bounds ← env.lowerTypes .boxed (env.model.emittedBounds p)
  pure ⟨(env.model.param p).name, bounds⟩

/-- Lowers several declared type parameters. -/
def lowerTypeParams (env : Env) : List ParamId → TypeLowering (List Target.TypeParam)
  | [] => pure []
  | p :: ps => do
    let x ← env.lowerTypeParam p
    let xs ← lowerTypeParams env ps
    pure (x :: xs)

/-- The type that each parameter stands for: its argument, else itself. -/
def explicitArguments : List ParamId → List Ty → List Ty
  | [], _ => []
  | p :: ps, [] => .param p :: explicitArguments ps []
  | _ :: ps, t :: ts => t :: explicitArguments ps ts

/-- Lowers the explicit type arguments of a call. -/
def lowerTypeArguments (env : Env) (params : List ParamId) (args : List Ty) :
    TypeLowering (List Target.Ty) :=
  env.lowerTypes .typeArgument (explicitArguments params args)

end Env

end TreeLowering
