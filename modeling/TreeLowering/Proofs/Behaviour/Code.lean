import TreeLowering.Proofs.Behaviour.Run
set_option autoImplicit false

/-!
# Behaviour: lowered code

What lowered code does.  Casts and the conversions between raw and boxed values
change nothing.  A receiver is evaluated before the arguments, and blocks and
let-expressions forget their locals at the end.
-/

namespace TreeLowering.Behaviour

open Target (Expr Stmt VarDecl)

/-- The class at the head of a class type. -/
def className? : Target.Ty → Option String
  | .cls name => some name
  | .apply base _ => className? base
  | _ => none

namespace Machine

variable (machine : Machine)

/-- The value of a literal. -/
def literal : Target.Literal → Value
  | .null => .absent
  | .bool b => .bool b
  | .int n => .int n
  | .long n => .int n
  | .double bits => .float bits
  | .char c => .char c
  | .string s => .text s

/-- Whether a value is an instance of a class type. -/
def instanceTest (v : Value) (ty : Target.Ty) : Act Value :=
  match className? ty with
  | some cls => pure (.bool (machine.isA v cls))
  | none => halt .stuck

/-- What an object creation yields: an anonymous class is a function value, and
the other objects that lowered code creates are sequences. -/
def created (cls : Target.Ty) (anonymous : Bool) (args : List Value) : Act Value :=
  if anonymous then
    match args with
    | [.text type] => pure (.function type)
    | _ => halt .stuck
  else if className? cls = some (languageClass Language.arraySequence) then pure (.seq args)
  else halt .stuck

/-- An element of an array. -/
def element (array position : Value) : Act Value :=
  match array, position with
  | .seq vs, .int n =>
    match vs[n.toNat]? with
    | some v => if 0 ≤ n then pure v else halt .stuck
    | none => halt .stuck
  | _, _ => halt .stuck

/-- Calls a method on a receiver, or without one. -/
def invoke (receiver : Option Value) (method : String) (args : List Value) : Act Value :=
  match receiver with
  | none => machine.callLocal method args
  | some v => machine.send v method args

mutual

/-- The value of an expression. -/
def evalCode : Expr → Run Value
  | .ident x => Run.lookup x
  | .lit l => pure (literal l)
  | .typeRef _ => pure .statics
  | .classLit _ => halt .stuck
  | .select _ _ => halt .stuck
  | .call target _ method args => do
    let receiver ← evalTarget target
    let vs ← evalAll args
    machine.invoke receiver method vs
  | .create cls args body => do
    let vs ← evalAll args
    created cls body.isSome vs
  | .createArray _ _ => halt .stuck
  | .cast _ e => evalCode e
  | .instanceOf e ty => do
    let v ← evalCode e
    machine.instanceTest v ty
  | .binary op lhs rhs => operate op (evalCode lhs) (evalCode rhs)
  | .not e => negate (evalCode e)
  | .assign (.ident x) e => do
    let v ← evalCode e
    Run.assign x v
    pure v
  | .assign _ _ => halt .stuck
  | .index array position => do
    let a ← evalCode array
    let i ← evalCode position
    element a i
  | .cond test yes no => do
    if ← truth (← evalCode test) then evalCode yes else evalCode no
  | .letIn stmts e => Run.inScope do
    match ← runAll stmts with
    | .normal => evalCode e
    | .leave | .ret _ => halt .stuck

/-- The values of expressions, one after the other. -/
def evalAll : List Expr → Run (List Value)
  | [] => pure []
  | e :: es => do
    let v ← evalCode e
    let vs ← evalAll es
    pure (v :: vs)

/-- The receiver of a call, if it has one. -/
def evalTarget : Option Expr → Run (Option Value)
  | none => pure none
  | some e => do
    let v ← evalCode e
    pure (some v)

/-- The value of an expression, or the absent value without one. -/
def evalOption : Option Expr → Run Value
  | none => pure .absent
  | some e => evalCode e

/-- Declares a variable. -/
def declareVar : VarDecl → Run Unit
  | .mk _ x _ init => do
    let v ← evalOption init
    Run.declare x v

/-- Declares variables, one after the other. -/
def declareVars : List VarDecl → Run Unit
  | [] => pure ()
  | d :: ds => do
    declareVar d
    declareVars ds

/-- Runs a statement. -/
def runCode : Stmt → Run Flow
  | .declare d => do
    declareVar d
    pure .normal
  | .exec e => do
    let _ ← evalCode e
    pure .normal
  | .branch test yes no => do
    if ← truth (← evalCode test) then Run.inScope (runAll yes) else runElse no
  | .whileLoop test body =>
    loop (do
      if ← truth (← evalCode test) then some <$> Run.inScope (runAll body) else pure none)
      machine.rounds
  | .forLoop init test step body => Run.inScope do
    declareVars init
    loop (do
      if ← truth (← evalCode test) then do
        match ← Run.inScope (runAll body) with
        | .normal => do
          let _ ← evalAll step
          pure (some .normal)
        | flow => pure (some flow)
      else pure none) machine.rounds
  | .leave => pure .leave
  | .ret e => do
    let v ← evalOption e
    pure (.ret v)
  | .block body => Run.inScope (runAll body)

/-- Runs statements until one does not end normally. -/
def runAll : List Stmt → Run Flow
  | [] => pure .normal
  | s :: ss => do
    match ← runCode s with
    | .normal => runAll ss
    | flow => pure flow

/-- Runs another branch, if there is one. -/
def runElse : Option (List Stmt) → Run Flow
  | none => pure .normal
  | some body => Run.inScope (runAll body)

end

/-! ## No expressions and no statements -/

section

attribute [local simp] evalCode evalAll evalTarget evalOption declareVar declareVars runCode runAll
  runElse

theorem evalAll_nil : machine.evalAll [] = pure [] := by
  simp

theorem runAll_nil : machine.runAll [] = pure .normal := by
  simp

theorem runElse_none : machine.runElse none = pure .normal := by
  simp

end

end Machine

end TreeLowering.Behaviour
