import TreeLowering.Lowering.Expression
import TreeLowering.Shared.Tree
import TreeLowering.Shared.TypeExpr
set_option autoImplicit false

/-!
# Shared tables: values and expressions

Conversions between raw and boxed values, function values, and expressions, where
types are positions and every text in the code is a name.
-/

namespace TreeLowering.Shared

open Tabled
open Shared.Target (Expr Stmt)

namespace Target

/-- A call of a static method of a class. -/
def Expr.static (cls : String) (typeArgs : List Ty) (method : String) (args : List Expr) :
    Tabled Expr := do
  let c ← Ty.named cls
  let n ← intern method
  pure (.callStatic c typeArgs n args)

/-- A call without arguments. -/
def Expr.get (target : Expr) (method : String) : Tabled Expr := do
  let n ← intern method
  pure (.callOn target n [])

end Target

/-! ## Raw and boxed values -/

namespace Model

variable (m : Model)

/-- The class that values of a basic type are boxed into. -/
def boxClass? (i : TypeIdx) : Tabled (Option DeclId) := do
  if ← m.isInteger i then pure (some Language.integer)
  else if ← m.isFloat i then pure (some Language.float)
  else if ← m.isString i then pure (some Language.string)
  else if ← m.isCharacter i then pure (some Language.character)
  else if ← m.isBoolean i then pure (some Language.boolean)
  else pure none

/-- Element type of an array type. -/
def arrayElement (i : TypeIdx) : Tabled TypeIdx :=
  (·.getD .error) <$> m.firstArgument? i Language.array

/-- The accessor of a boxed character. -/
def unboxCharacter (i : TypeIdx) : Tabled String :=
  (fun h => if h = some .char then Support.unboxChar else Support.unboxCodePoint) <$> hint? i

/-- The accessor that makes a boxed value of the type raw, strings apart. -/
def unboxMethod? (i : TypeIdx) : Tabled (Option String) := do
  if ← m.isInteger i then pure (some Support.unboxInteger)
  else if ← m.isFloat i then pure (some Support.unboxFloat)
  else if ← m.isCharacter i then some <$> unboxCharacter i
  else if ← m.isBoolean i then pure (some Support.unboxBoolean)
  else if ← m.isArray i then pure (some Support.unboxArray)
  else pure none

/-- The type is the string type with the absent value. -/
def isOptionalString (i : TypeIdx) : Tabled Bool :=
  both (isOptional i) (m.definite i >>= m.isString)

end Model

/-- Makes a boxed string raw. -/
def unboxString (e : Expr) : Tabled Expr :=
  if e.isStringLiteral then pure e else e.get Support.unboxString

namespace Env

variable (env : Env)

/-- A call of the factory of a boxed class. -/
def boxInto (d : DeclId) (typeArgs : List Target.Ty) (e : Expr) : Lowering Expr := do
  let name ← Lowering.declName env.model d .full
  let box ← intern Support.box
  pure (.callStatic (.cls name) typeArgs box [e])

/-- Makes a raw value of a type that is not basic boxed. -/
def boxOther (e : Expr) (i : TypeIdx) : Lowering Expr := do
  if ← env.model.isArray i then do
    let element ← env.model.arrayElement i
    let t ← env.lowerType element .typeArgument
    env.boxInto Language.array [t] e
  else if i = env.model.builtins.void then pure (.letIn [.exec e] .null)
  else pure e

/-- Makes a raw value boxed. -/
def boxValue (e : Expr) (i : TypeIdx) : Lowering Expr := do
  match ← env.model.boxClass? i with
  | some d => env.boxInto d [] e
  | none => env.boxOther e i

/-- Makes a boxed string raw unless it is absent. -/
def unboxOptionalString (e : Expr) : Lowering Expr := do
  if e.isStringLiteral then pure e
  else do
    let tmp ← Lowering.fresh Support.temporary
    let ty ← env.lowerType env.model.builtins.string .boxed
    let value ← unboxString (.ident tmp)
    let test : Expr := .binary .ne (.ident tmp) .null
    pure (.letIn [.declareFinal tmp ty e] (.cond test value .null))

/-- Makes a boxed value raw that is no string. -/
def unboxOther (e : Expr) (i : TypeIdx) : Lowering Expr := do
  match ← env.model.unboxMethod? i with
  | some method => e.get method
  | none => if ← env.model.isOptionalString i then env.unboxOptionalString e else pure e

/-- Makes a boxed value raw. -/
def unboxValue (e : Expr) (i : TypeIdx) : Lowering Expr := do
  if ← env.model.isString i then unboxString e else env.unboxOther e i

/-- Brings a value into the form that a position asks for. -/
def convert (e : Expr) (isBoxed : Bool) (i : TypeIdx) : Form → Lowering Expr
  | .asIs => pure e
  | .boxed => if isBoxed then pure e else env.boxValue e i
  | .raw => if isBoxed then env.unboxValue e i else pure e

end Env

/-! ## Function values -/

/-- Type of what a function yields that still has to be given the parameter
lists. -/
def curried (result : TypeIdx) : List (List Parameter) → Tabled TypeIdx
  | [] => pure result
  | list :: rest => do
    let inner ← curried result rest
    callable inner (Parameter.types list)

/-- The parameters of `call`. -/
def callParams (arity : Nat) : Tabled (List Target.Param) := do
  let object ← Target.Ty.object
  if arity ≤ Support.maxFixedArity then
    each (fun i => (fun n => ⟨true, false, n, object⟩) <$> intern (Support.callArg i))
      (List.range arity)
  else do
    let n ← intern (Support.callArg 0)
    pure [⟨true, true, n, .array object⟩]

/-- An argument of `call` as it arrives.  An index into the argument array is a
32-bit word. -/
def arrivingArgument (position arity : Nat) : Tabled Expr :=
  if arity ≤ Support.maxFixedArity then Expr.ident <$> intern (Support.callArg position)
  else
    (fun n => Expr.index (.ident n) (.lit (.int (Int.bmod position 0x100000000)))) <$>
      intern (Support.callArg 0)

namespace Env

variable (env : Env)

/-- A function value of a type, whose `call` takes `arity` parameters. -/
def buildCallable (i : TypeIdx) (arity : Nat) (body : List Stmt) : Lowering Expr := do
  let yielded ← env.model.callableResult? i
  let result ← env.lowerType (yielded.getD .error) .inExtends
  let cls ← env.lowerType i (.inExtends ∪ .inCreation)
  let call ← intern Support.call
  let params ← callParams arity
  let shown ← env.model.display i
  let text ← intern shown
  pure (.create cls [.lit (.string text)]
    (some [.mk { isPublic := true } [] result call params (some body)]))

/-- An argument of `call` in its parameter's declared form. -/
def unpickArgument (p : Parameter) (position arity : Nat) : Lowering Expr := do
  let ty ← env.lowerType p.ty .boxed
  let arriving ← arrivingArgument position arity
  env.convert (.cast ty arriving) true p.ty (.ofDeclared p.raw)

/-- The arguments of `call` from a position on. -/
def unpickArguments (arity : Nat) : Nat → List Parameter → Lowering (List Expr)
  | _, [] => pure []
  | position, p :: ps => do
    let e ← env.unpickArgument p position arity
    let es ← unpickArguments arity (position + 1) ps
    pure (e :: es)

/-- Type of a parameter's local, raw if it is declared so. -/
def parameterType (p : Parameter) : Lowering Target.Ty :=
  env.lowerType p.ty (if p.raw = some true then .plain else .boxed)

/-- Locals for the arguments of `call` from a position on. -/
def unpickLocals (arity : Nat) : Nat → List Parameter → Lowering (List Stmt)
  | _, [] => pure []
  | position, p :: ps => do
    let init ← env.unpickArgument p position arity
    let ty ← env.parameterType p
    let rest ← unpickLocals arity (position + 1) ps
    pure (.declareFinal p.name ty init :: rest)

/-- A function value for one of several parameter lists. -/
def layerCallable (i : TypeIdx) (params : List Parameter) (body : List Stmt) :
    Lowering Expr := do
  let locals ← env.unpickLocals params.length 0 params
  env.buildCallable i params.length (locals ++ body)

/-- What the `call` of a function used as a value does. -/
def forwardBody (result : TypeIdx) (call : Expr) : Lowering (List Stmt) := do
  if result = env.model.builtins.void then pure [.exec call, .ret (some .null)]
  else do
    let raw ← env.model.canUnbox result
    let value ← env.convert call (!raw) result .boxed
    pure [.ret (some value)]

/-- A function without parameter lists. -/
def failWithoutLists {α : Type} (d : DeclId) : Lowering α := do
  let name ← env.model.qualifiedName d
  Lowering.fail (.noParameterLists name)

/-- A function used as a value. -/
def functionRef (d : DeclId) : Lowering Expr := do
  let x := env.model.decl d
  match x.paramLists with
  | [] => env.failWithoutLists d
  | first :: rest => do
    let result ← curried (x.ty.getD .error) rest
    let args ← env.unpickArguments first.length 0 first
    let body ← env.forwardBody result (.callLocal x.name args)
    let own ← callable result (Parameter.types first)
    env.buildCallable own first.length body

/-! ## Sequences -/

end Env

/-- Arguments of a sequence literal; a lone absent value is cast, so that it is
not taken for a missing array. -/
def sequenceArguments (elems : List Expr) (elemTypes : List TypeIdx) : Tabled (List Expr) := do
  match elems, elemTypes with
  | [e], [i] =>
    if ← isOf i Language.nothing then (fun t => [.cast t e]) <$> Target.Ty.object else pure [e]
  | _, _ => pure elems

/-- The empty sequence. -/
def makeEmpty : Tabled Expr := Expr.static Support.emptyHolder [] Support.holderValue []

namespace Env

variable (env : Env)

/-- A sequence literal with its type lowered for a position. -/
def makeSequence (elems : List Expr) (elemTypes : List TypeIdx) (element : TypeIdx)
    (ctx : Context) : Lowering Expr := do
  let own ← make (.nominal Language.arraySequence [element] none none)
  let cls ← env.lowerType own ctx
  let args ← sequenceArguments elems elemTypes
  pure (.create cls args none)

/-- A sequence literal from its lowered elements. -/
def sequenceLiteral (i : TypeIdx) (elems : List Expr) (elemTypes : List TypeIdx) :
    Lowering Expr := do
  if elems.isEmpty then makeEmpty
  else do
    let element ← env.model.iteratedType? i
    env.makeSequence elems elemTypes (element.getD .error) .inCreation

end Env

/-! ## Expressions -/

/-- A lowered expression and whether it is raw. -/
structure Natural where
  code : Expr
  raw : Bool

/-- A lowered expression in raw form. -/
def Natural.ofRaw (code : Expr) : Natural := ⟨code, true⟩

/-- A lowered expression in boxed form. -/
def Natural.ofBoxed (code : Expr) : Natural := ⟨code, false⟩

/-- An integer literal: a small one where the hint asks for it and the value fits,
else a long one. -/
def integerLiteral (hint : Option Hint) (value : Int) : Target.Literal :=
  if hint = some .int && -0x80000000 ≤ value && value < 0x80000000 then .int value
  else .long value

/-- The form that a callee expects of an argument. -/
def argumentForm (params : List Parameter) : Form :=
  match params with
  | [] => .boxed
  | p :: _ => if p.raw = some true then .raw else .boxed

namespace Env

variable (env : Env)

/-- Equality of values of a type compares them in raw form. -/
def comparesRaw (i : TypeIdx) : Tabled Bool :=
  both (env.model.isBasic i) (no (env.model.isString i))

/-- The form that operands of an operator are lowered in. -/
def operandForm (op : Tree.Operator) (lhs : TypeIdx) : Tabled Form :=
  match op.direct? with
  | some _ => pure .raw
  | none => Form.ofRaw <$> env.comparesRaw lhs

/-- Puts the operands of an equality together. -/
def equality (lhsTy : TypeIdx) (lhs rhs : Expr) : Tabled Expr := do
  if ← env.comparesRaw lhsTy then pure (.binary .eq lhs rhs)
  else do
    let equals ← intern Support.equals
    pure (.callOn lhs equals [rhs])

/-- Puts lowered operands together. -/
def applyOperator (op : Tree.Operator) (lhsTy : TypeIdx) (lhs rhs : Expr) : Tabled Expr :=
  match op.direct? with
  | some direct => pure (.binary direct lhs rhs)
  | none => (fun equal => if op = .ne then .not equal else equal) <$> env.equality lhsTy lhs rhs

/-- Parameters of a function's first list. -/
def firstParams (d : DeclId) : List Parameter := (env.model.decl d).paramLists.headD []

/-- A reference to a function, or the absent value for anything else. -/
def referenceTo (d : DeclId) (span : Span) : Lowering Expr := do
  if (env.model.decl d).isMethod then env.functionRef d
  else do
    Lowering.problemAt span .notAFunction
    pure .null

/-- Converts a lowered expression for its position; a position that asks for no
form gets the one that the tree records. -/
def deliver (info : Tree.Info) (form : Form) (x : Lowering Natural) : Lowering Expr := do
  let n ← x
  env.convert n.code (!n.raw) info.ty (if form = .asIs then .ofRaw info.raw else form)

/-- The name of the getter of an attribute. -/
def getter (name : Name) : Tabled Name := do
  let text ← textOf name
  intern (getterName text)

mutual

/-- Lowers an expression to its natural form. -/
def lowerNatural (env : Env) : Tree.Expr → Lowering Natural
  | .ident info name => do
    let target ← Lowering.resolve name
    pure ⟨.ident target, info.raw⟩
  | .integer info value => do
    let hint ← hint? info.ty
    pure (.ofRaw (.lit (integerLiteral hint value)))
  | .float _ bits => pure (.ofRaw (.lit (.double bits)))
  | .string _ value => pure (.ofRaw (.lit (.string value)))
  | .character _ value => pure (.ofRaw (.lit (.char value)))
  | .boolean _ value => pure (.ofRaw (.bool value))
  | .absent _ => pure (.ofBoxed .null)
  | .member _ receiver name => do
    let target ← env.deliver receiver.info .boxed (lowerNatural env receiver)
    let read ← getter name
    pure (.ofBoxed (.callOn target read []))
  | .call info receiver function args => do
    let lowered ← lowerArgs env (env.firstParams function) args
    let target ← lowerReceiver env receiver
    let raw ← env.model.canUnbox info.ty
    pure ⟨.call target [] (env.model.decl function).name lowered, raw⟩
  | .binary _ op lhs rhs => do
    let form ← env.operandForm op lhs.ty
    let left ← env.deliver lhs.info form (lowerNatural env lhs)
    let right ← env.deliver rhs.info form (lowerNatural env rhs)
    let e ← env.applyOperator op lhs.ty left right
    pure (.ofRaw e)
  | .not _ operand => do
    let e ← env.deliver operand.info .raw (lowerNatural env operand)
    pure (.ofRaw (.not e))
  | .sequence info elems => do
    let lowered ← lowerArgs env [] elems
    let e ← env.sequenceLiteral info.ty lowered (elems.map Tree.Expr.ty)
    pure (.ofBoxed e)
  | .functionRef info function => do
    let e ← env.referenceTo function info.span
    pure (.ofBoxed e)

/-- Lowers arguments for parameters; one without a parameter is boxed. -/
def lowerArgs (env : Env) (params : List Parameter) : List Tree.Expr → Lowering (List Expr)
  | [] => pure []
  | e :: es => do
    let lowered ← env.deliver e.info (argumentForm params) (lowerNatural env e)
    let rest ← lowerArgs env params.tail es
    pure (lowered :: rest)

/-- Lowers the receiver of a call, if it has one. -/
def lowerReceiver (env : Env) : Option Tree.Expr → Lowering (Option Expr)
  | none => pure none
  | some e => do
    let target ← env.deliver e.info .boxed (lowerNatural env e)
    pure (some target)

end

/-- Lowers an expression in the form that its position asks for. -/
def lowerExpr (e : Tree.Expr) (form : Form) : Lowering Expr :=
  env.deliver e.info form (env.lowerNatural e)

end Env

end TreeLowering.Shared
