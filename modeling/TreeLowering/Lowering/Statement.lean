import TreeLowering.Lowering.Condition
import TreeLowering.Lowering.Loop
set_option autoImplicit false

/-!
# Lowering: statements

Most statements lower to one statement.  Conditions and loops may need
statements ahead of their own, so a statement lowers to a list.
-/

namespace TreeLowering

open Target (Expr Stmt)

namespace Env

/-- Lowers an expression if there is one. -/
def lowerInit (env : Env) (form : Form) : Option Tree.Expr → Lowering (Option Expr)
  | none => pure none
  | some e => some <$> env.lowerExpr e form

/-- Declares a local in the form that values of its type are kept in. -/
def declareLocal (env : Env) (var : Tree.Variable) (init : Option Tree.Expr) (isVariable : Bool) :
    Lowering Stmt := do
  let form ← env.valueForm var.ty
  let ty ← env.lowerType var.ty .plain
  let value ← env.lowerInit form init
  Lowering.keepLocal var.name form
  pure (.declare (.mk (!isVariable) var.name ty value))

/-- The form that a target of an assignment is kept in. -/
def targetForm (env : Env) (target : String) (t : Ty) : Lowering Form := do
  match ← Lowering.localForm? target with
  | some form => pure form
  | none => env.valueForm t

/-- Assigns a value to what a name stands for. -/
def assignTo (env : Env) (name : String) (e : Tree.Expr) : Lowering Stmt := do
  let target ← Lowering.resolve name
  let form ← env.targetForm target e.ty
  let value ← env.lowerExpr e form
  pure (.exec (.assign (.ident target) value))

/-- The value that a return yields. -/
def returnValue (env : Env) : Option ReturnForm → Option Tree.Expr → Lowering (Option Expr)
  | some r, some e => some <$> env.lowerExpr e r.form
  | none, some e => some <$> env.lowerExpr e .asIs
  | some r, none => pure (if r.inCallable then some .null else none)
  | none, none => pure none

mutual

/-- Lowers a statement. -/
def lowerStmt (env : Env) : Tree.Stmt → Lowering (List Stmt)
  | .declare span var init isVariable => do
    Lowering.moveTo span
    let s ← env.declareLocal var init isVariable
    pure [s]
  | .assign span target value => do
    Lowering.moveTo span
    let s ← env.assignTo target value
    pure [s]
  | .eval span e => do
    Lowering.moveTo span
    let value ← env.lowerExpr e .asIs
    pure [.exec value]
  | .ret span value => do
    Lowering.moveTo span
    let returns ← Lowering.reads (·.returns)
    let e ← env.returnValue returns value
    pure [.ret e]
  | .leave span => do
    Lowering.moveTo span
    let guard ← Lowering.reads (·.loopGuard)
    pure (breakClearing guard)
  | .branch span test yes no => do
    Lowering.moveTo span
    let c ← env.lowerCondition test
    let thenBody ← Lowering.guarded c.narrowed (lowerStmts env yes)
    let elseBody ← lowerElse env no
    pure (c.branch thenBody elseBody)
  | .loop span test body => do
    Lowering.moveTo span
    let s ← Lowering.withLoopGuard none do
      let c ← env.lowerCondition test
      let lowered ← Lowering.guarded c.narrowed (lowerStmts env body)
      pure (c.loop lowered)
    pure [s]
  | .each span binding subject body no => do
    Lowering.moveTo span
    let guard ← loopGuard no.isSome
    let s ← Lowering.withLoopGuard guard do
      let head ← env.loopHead binding subject
      let lowered ← lowerStmts env body
      pure (head.loop lowered)
    let other ← lowerElse env no
    pure (declareGuard guard ++ s :: guardedElse guard other)
  | .block span body => do
    Lowering.moveTo span
    let lowered ← lowerStmts env body
    pure [.block lowered]

/-- Lowers statements one after the other. -/
def lowerStmts (env : Env) : List Tree.Stmt → Lowering (List Stmt)
  | [] => pure []
  | s :: ss => do
    let lowered ← lowerStmt env s
    let rest ← lowerStmts env ss
    pure (lowered ++ rest)

/-- Lowers another branch, if there is one. -/
def lowerElse (env : Env) : Option (List Tree.Stmt) → Lowering (Option (List Stmt))
  | none => pure none
  | some body => do
    let lowered ← lowerStmts env body
    pure (some lowered)

end

end Env

end TreeLowering
