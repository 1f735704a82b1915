import TreeLowering.Lowering.Callable
import TreeLowering.Lowering.Sequence
import TreeLowering.Tree.Basic
set_option autoImplicit false

/-!
# Lowering: expressions

An expression is lowered to its natural form, raw or boxed, and then converted
to the form that its position asks for.
-/

namespace TreeLowering

namespace Tree.Operator

/-- The operator on raw operands that an operator lowers to; equality has none,
because its operands may be boxed. -/
def direct? : Tree.Operator → Option Target.BinaryOp
  | add => some .add
  | sub => some .sub
  | mul => some .mul
  | lt => some .lt
  | gt => some .gt
  | and => some .and
  | or => some .or
  | eq | ne => none

end Tree.Operator

namespace Env

/-- A lowered expression and whether it is raw. -/
structure Natural where
  code : Target.Expr
  raw : Bool

/-- A lowered expression in raw form. -/
def Natural.ofRaw (code : Target.Expr) : Natural := ⟨code, true⟩

/-- A lowered expression in boxed form. -/
def Natural.ofBoxed (code : Target.Expr) : Natural := ⟨code, false⟩

/-- An integer literal: a small one where the type asks for it and the value
fits, else a long one. -/
def integerLiteral (t : Ty) (value : Int) : Target.Literal :=
  if t.hint? = some .int && -0x80000000 ≤ value && value < 0x80000000 then .int value
  else .long value

/-- The form that a callee expects of an argument. -/
def argumentForm (params : List Parameter) : Form :=
  match params with
  | [] => .boxed
  | p :: _ => if p.raw = some true then .raw else .boxed

/-- Equality of values of a type compares them in raw form. -/
def comparesRaw (env : Env) (t : Ty) : Bool := env.model.isBasic t && !t.isString

/-- The form that operands of an operator are lowered in. -/
def operandForm (env : Env) (op : Tree.Operator) (lhs : Ty) : Form :=
  match op.direct? with
  | some _ => .raw
  | none => if env.comparesRaw lhs then .raw else .boxed

/-- Puts lowered operands together. -/
def applyOperator (env : Env) (op : Tree.Operator) (lhsTy : Ty) (lhs rhs : Target.Expr) :
    Target.Expr :=
  match op.direct? with
  | some direct => .binary direct lhs rhs
  | none =>
    let equal :=
      if env.comparesRaw lhsTy then .binary .eq lhs rhs
      else Target.Expr.callOn lhs Support.equals [rhs]
    if op = .ne then .not equal else equal

/-- Parameters of a function's first list. -/
def firstParams (env : Env) (d : DeclId) : List Parameter :=
  (env.model.decl d).paramLists.headD []

/-- A reference to a function, or the absent value for anything else. -/
def referenceTo (env : Env) (d : DeclId) (span : Span) : Lowering Target.Expr := do
  if (env.model.decl d).isMethod then env.functionRef d
  else do
    Lowering.problemAt span .notAFunction
    pure .null

/-- Converts a lowered expression for its position; a position that asks for no
form gets the one that the tree records. -/
def deliver (env : Env) (info : Tree.Info) (form : Form) (x : Lowering Natural) :
    Lowering Target.Expr := do
  let n ← x
  env.convert n.code (!n.raw) info.ty (if form = .asIs then .ofRaw info.raw else form)

/-- A sequence literal from its lowered elements. -/
def sequenceLiteral (env : Env) (t : Ty) (elems : List Target.Expr) (elemTypes : List Ty) :
    Lowering Target.Expr := do
  if elems.isEmpty then pure makeEmpty
  else
    env.makeSequence elems elemTypes ((env.model.iteratedType? t).getD .error) .inCreation

mutual

/-- Lowers an expression to its natural form. -/
def lowerNatural (env : Env) : Tree.Expr → Lowering Natural
  | .ident info name => do
    let target ← Lowering.resolve name
    pure ⟨.ident target, info.raw⟩
  | .integer info value => pure (.ofRaw (.lit (integerLiteral info.ty value)))
  | .float _ bits => pure (.ofRaw (.lit (.double bits)))
  | .string _ value => pure (.ofRaw (.lit (.string value)))
  | .character _ value => pure (.ofRaw (.lit (.char value)))
  | .boolean _ value => pure (.ofRaw (.bool value))
  | .absent _ => pure (.ofBoxed .null)
  | .member _ receiver name => do
    let target ← env.deliver receiver.info .boxed (lowerNatural env receiver)
    pure (.ofBoxed (.get target (getterName name)))
  | .call info receiver function args => do
    let lowered ← lowerArgs env (env.firstParams function) args
    let target ← lowerReceiver env receiver
    pure ⟨.call target [] (env.model.decl function).name lowered, env.model.canUnbox info.ty⟩
  | .binary _ op lhs rhs => do
    let form := env.operandForm op lhs.ty
    let left ← env.deliver lhs.info form (lowerNatural env lhs)
    let right ← env.deliver rhs.info form (lowerNatural env rhs)
    pure (.ofRaw (env.applyOperator op lhs.ty left right))
  | .not _ operand => do
    let e ← env.deliver operand.info .raw (lowerNatural env operand)
    pure (.ofRaw (.not e))
  | .sequence info elems => do
    let lowered ← lowerArgs env [] elems
    let e ← env.sequenceLiteral info.ty lowered (elems.map Tree.Expr.ty)
    pure (.ofBoxed e)
  | .functionRef info function => do
    let e ← env.referenceTo function info.span
    pure (.ofBoxed e)

/-- Lowers arguments for parameters; one without a parameter is boxed. -/
def lowerArgs (env : Env) (params : List Parameter) : List Tree.Expr → Lowering (List Target.Expr)
  | [] => pure []
  | e :: es => do
    let lowered ← env.deliver e.info (argumentForm params) (lowerNatural env e)
    let rest ← lowerArgs env params.tail es
    pure (lowered :: rest)

/-- Lowers the receiver of a call, if it has one. -/
def lowerReceiver (env : Env) : Option Tree.Expr → Lowering (Option Target.Expr)
  | none => pure none
  | some e => do
    let target ← env.deliver e.info .boxed (lowerNatural env e)
    pure (some target)

end

/-- Lowers an expression in the form that its position asks for. -/
def lowerExpr (env : Env) (e : Tree.Expr) (form : Form) : Lowering Target.Expr :=
  env.deliver e.info form (env.lowerNatural e)

end Env

end TreeLowering
