import TreeLowering.Shared.Model
import TreeLowering.Shared.Tree
set_option autoImplicit false

/-!
# Shared tables: storing a program

Types, declarations and trees are put into the tables part by part, a type after the
types that it is made of.
-/

namespace TreeLowering

/-- Every type parameter's number, in order. -/
def Model.paramIds (m : Model) : List ParamId := (List.range m.paramCount).map ParamId.mk

namespace Shared.Tabled

/-! ## Types -/

mutual

/-- Stores a type. -/
def storeTy : Ty → Tabled TypeIdx
  | .nominal d as o h => do
    let args ← storeTys as
    let outer ← storeOuter o
    make (.nominal d args outer h)
  | .union ts => do
    let cases ← storeTys ts
    make (.union cases)
  | .inter ts => do
    let bounds ← storeTys ts
    make (.inter bounds)
  | .param p => make (.param p)
  | .bottom => make .bottom
  | .error => make .error

/-- Stores several types. -/
def storeTys : List Ty → Tabled (List TypeIdx)
  | [] => pure []
  | t :: ts => do
    let i ← storeTy t
    let is ← storeTys ts
    pure (i :: is)

/-- Stores a qualifying type. -/
def storeOuter : Option Ty → Tabled (Option TypeIdx)
  | none => pure none
  | some t => some <$> storeTy t

end

/-! ## Declarations -/

/-- Stores a formal parameter. -/
def storeParameter (p : TreeLowering.Parameter) : Tabled Parameter := do
  let name ← intern p.name
  let ty ← storeTy p.ty
  pure ⟨name, ty, p.raw⟩

/-- Stores a type parameter. -/
def storeTypeParam (p : TreeLowering.TypeParam) : Tabled TypeParam := do
  let name ← intern p.name
  let bounds ← storeTys p.bounds
  pure ⟨name, p.variance, bounds, p.owner, p.sequenced⟩

/-- Stores a declaration with its members. -/
def storeDeclaration (d : TreeLowering.Declaration) (members : List DeclId) :
    Tabled Declaration := do
  let name ← intern d.name
  let package ← intern d.package
  let extended ← storeOuter d.extended
  let satisfied ← storeTys d.satisfied
  let ty ← storeOuter d.ty
  let paramLists ← each (each storeParameter) d.paramLists
  pure
    { name := name
      kind := d.kind
      package := package
      container := d.container
      members := members
      typeParams := d.typeParams
      extended := extended
      satisfied := satisfied
      ty := ty
      paramLists := paramLists
      refined := d.refined
      flags := d.flags }

/-- Stores the language module's types without arguments. -/
def storeBuiltins : Tabled Builtins := do
  let void ← storeTy Language.voidTy
  let object ← storeTy Language.objectTy
  let nothing ← storeTy Language.nothingTy
  let identifiable ← storeTy Language.identifiableTy
  let identifiableObject ← storeTy Language.identifiableObjectTy
  let exception ← storeTy Language.exceptionTy
  let boolean ← storeTy Language.booleanTy
  let string ← storeTy Language.stringTy
  let integer ← storeTy Language.integerTy
  let float ← storeTy Language.floatTy
  let character ← storeTy Language.characterTy
  pure
    { void, object, nothing, identifiable, identifiableObject, exception, boolean, string,
      integer, float, character }

/-- Stores a program. -/
def storeModel (m : TreeLowering.Model) : Tabled Model := do
  let builtins ← storeBuiltins
  let params ← each (fun p => storeTypeParam (m.param p)) m.paramIds
  let decls ← each (fun d => storeDeclaration (m.decl d) (m.members d)) m.declIds
  pure ⟨decls.toArray, params.toArray, builtins⟩

/-! ## Trees -/

/-- Stores what is known of an expression. -/
def storeInfo (i : TreeLowering.Tree.Info) : Tabled Tree.Info := do
  let ty ← storeTy i.ty
  pure ⟨ty, i.raw, i.span⟩

mutual

/-- Stores an expression. -/
def storeExpr : TreeLowering.Tree.Expr → Tabled Tree.Expr
  | .ident info name => do
    let i ← storeInfo info
    let n ← intern name
    pure (.ident i n)
  | .integer info value => do
    let i ← storeInfo info
    pure (.integer i value)
  | .float info bits => do
    let i ← storeInfo info
    pure (.float i bits)
  | .string info value => do
    let i ← storeInfo info
    let n ← intern value
    pure (.string i n)
  | .character info value => do
    let i ← storeInfo info
    pure (.character i value)
  | .boolean info value => do
    let i ← storeInfo info
    pure (.boolean i value)
  | .absent info => do
    let i ← storeInfo info
    pure (.absent i)
  | .member info receiver name => do
    let i ← storeInfo info
    let e ← storeExpr receiver
    let n ← intern name
    pure (.member i e n)
  | .call info receiver function args => do
    let i ← storeInfo info
    let o ← storeMaybe receiver
    let es ← storeExprs args
    pure (.call i o function es)
  | .binary info op lhs rhs => do
    let i ← storeInfo info
    let left ← storeExpr lhs
    let right ← storeExpr rhs
    pure (.binary i op left right)
  | .not info operand => do
    let i ← storeInfo info
    let e ← storeExpr operand
    pure (.not i e)
  | .sequence info elems => do
    let i ← storeInfo info
    let es ← storeExprs elems
    pure (.sequence i es)
  | .functionRef info function => do
    let i ← storeInfo info
    pure (.functionRef i function)

/-- Stores several expressions. -/
def storeExprs : List TreeLowering.Tree.Expr → Tabled (List Tree.Expr)
  | [] => pure []
  | e :: es => do
    let first ← storeExpr e
    let rest ← storeExprs es
    pure (first :: rest)

/-- Stores an expression, if there is one. -/
def storeMaybe : Option TreeLowering.Tree.Expr → Tabled (Option Tree.Expr)
  | none => pure none
  | some e => some <$> storeExpr e

end

/-- Stores a variable. -/
def storeVariable (v : TreeLowering.Tree.Variable) : Tabled Tree.Variable := do
  let name ← intern v.name
  let ty ← storeTy v.ty
  pure ⟨name, ty⟩

/-- Stores a condition. -/
def storeCondition : TreeLowering.Tree.Condition → Tabled Tree.Condition
  | .test e => .test <$> storeExpr e
  | .present e => .present <$> storeExpr e
  | .presentAs var e => do
    let v ← storeVariable var
    let subject ← storeExpr e
    pure (.presentAs v subject)
  | .isOf name ty e => do
    let n ← intern name
    let i ← storeTy ty
    let subject ← storeExpr e
    pure (.isOf n i subject)
  | .nonempty var e => do
    let v ← storeVariable var
    let subject ← storeExpr e
    pure (.nonempty v subject)

/-- Stores what a loop binds. -/
def storeBinding : TreeLowering.Tree.LoopBinding → Tabled Tree.LoopBinding
  | .value var => .value <$> storeVariable var
  | .keyItem key item => do
    let k ← storeVariable key
    let v ← storeVariable item
    pure (.keyItem k v)

mutual

/-- Stores a statement. -/
def storeStmt : TreeLowering.Tree.Stmt → Tabled Tree.Stmt
  | .declare span var init isVariable => do
    let v ← storeVariable var
    let o ← storeMaybe init
    pure (.declare span v o isVariable)
  | .assign span target value => do
    let n ← intern target
    let e ← storeExpr value
    pure (.assign span n e)
  | .eval span e => .eval span <$> storeExpr e
  | .ret span value => .ret span <$> storeMaybe value
  | .leave span => pure (.leave span)
  | .branch span test yes no => do
    let c ← storeCondition test
    let thenBody ← storeStmts yes
    let elseBody ← storeElse no
    pure (.branch span c thenBody elseBody)
  | .loop span test body => do
    let c ← storeCondition test
    let stored ← storeStmts body
    pure (.loop span c stored)
  | .each span binding subject body no => do
    let b ← storeBinding binding
    let e ← storeExpr subject
    let stored ← storeStmts body
    let elseBody ← storeElse no
    pure (.each span b e stored elseBody)
  | .block span body => .block span <$> storeStmts body

/-- Stores several statements. -/
def storeStmts : List TreeLowering.Tree.Stmt → Tabled (List Tree.Stmt)
  | [] => pure []
  | s :: ss => do
    let first ← storeStmt s
    let rest ← storeStmts ss
    pure (first :: rest)

/-- Stores another branch, if there is one. -/
def storeElse : Option (List TreeLowering.Tree.Stmt) → Tabled (Option (List Tree.Stmt))
  | none => pure none
  | some ss => some <$> storeStmts ss

end

/-- Stores a function. -/
def storeFunction (f : TreeLowering.Tree.Function) : Tabled Tree.Function := do
  let body ← storeStmts f.body
  pure ⟨f.decl, body, f.span⟩

end Shared.Tabled

end TreeLowering
