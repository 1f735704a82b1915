import TreeLowering.Lowering.Statement
import TreeLowering.Proofs.Behaviour.Code
set_option autoImplicit false

/-!
# Behaviour: trees

What a tree does, form by form.  A condition that holds binds its names in the
block that it guards, and a loop over a sequence binds its names on each round.
Whether a value has a type is what the lowered test says of it.
-/

namespace TreeLowering.Behaviour

open TreeLowering.Tree (Expr Stmt Condition LoopBinding)

/-- The operator on values that an operator stands for. -/
def meaning : Tree.Operator → Target.BinaryOp
  | .add => .add
  | .sub => .sub
  | .mul => .mul
  | .eq => .eq
  | .ne => .ne
  | .lt => .lt
  | .gt => .gt
  | .and => .and
  | .or => .or

/-- A declaration as a value: a function by its type, and nothing for anything
else. -/
def functionValue (m : Model) (d : DeclId) : Act Value :=
  let x := m.decl d
  if x.isMethod then
    match x.paramLists with
    | [] => halt .stuck
    | first :: rest =>
      pure (.function (m.display
        (.callable ((x.ty.getD .error).curried rest) (Parameter.types first))))
  else pure .absent

namespace Run

variable {α : Type}

/-- An action that only reads the locals. -/
def reading (f : Locals → Act α) : Run α := fun ρ => (fun a => (a, ρ)) <$> f ρ

/-- Declares variables, the first one as the latest. -/
def declareAll (new : Locals) : Run Unit := fun ρ => pure ((), new ++ ρ)

end Run

/-- Goes through elements, one round for each, while the rounds end normally. -/
def forEach (body : Value → Run Flow) : Nat → List Value → Run Flow
  | 0, _ => halt .outOfFuel
  | _ + 1, [] => pure .normal
  | fuel + 1, v :: vs => do
    if v.isAbsent then halt .absentElement
    else
      match ← body v with
      | .normal => forEach body fuel vs
      | flow => pure flow

namespace Machine

variable (machine : Machine) (env : Env)

/-! ## Expressions -/

mutual

/-- The value of an expression. -/
def evalTree (ρ : Locals) : Expr → Act Value
  | .ident _ x => ρ.read x
  | .integer _ n => pure (.int n)
  | .float _ bits => pure (.float bits)
  | .string _ s => pure (.text s)
  | .character _ c => pure (.char c)
  | .boolean _ b => pure (.bool b)
  | .absent _ => pure .absent
  | .member _ receiver name => do
    let v ← evalTree ρ receiver
    machine.send v (getterName name) []
  | .call _ receiver function args => do
    let v ← evalReceiver ρ receiver
    let vs ← evalTrees ρ args
    machine.invoke v (env.model.decl function).name vs
  | .binary _ op lhs rhs => operate (meaning op) (evalTree ρ lhs) (evalTree ρ rhs)
  | .not _ e => negate (evalTree ρ e)
  | .sequence _ elems => .seq <$> evalTrees ρ elems
  | .functionRef _ function => functionValue env.model function

/-- The values of expressions, one after the other. -/
def evalTrees (ρ : Locals) : List Expr → Act (List Value)
  | [] => pure []
  | e :: es => do
    let v ← evalTree ρ e
    let vs ← evalTrees ρ es
    pure (v :: vs)

/-- The receiver of a call, if it has one. -/
def evalReceiver (ρ : Locals) : Option Expr → Act (Option Value)
  | none => pure none
  | some e => some <$> evalTree ρ e

end

/-- The value of an expression, or the absent value without one. -/
def evalValue (ρ : Locals) : Option Expr → Act Value
  | none => pure .absent
  | some e => machine.evalTree env ρ e

/-! ## Conditions -/

/-- What the lowered test for a type says of a value. -/
def hasType (v : Value) (t : Ty) : Act Bool :=
  match ((env.typeTest "value" t).runFrom (.start .empty)).1 with
  | .ok test => do
    let r ← machine.evalCode test [("value", v)]
    truth r.1
  | .error _ => halt .stuck

/-- A sequence with an element. -/
def hasElement : Value → Bool
  | .seq (_ :: _) => true
  | _ => false

/-- The names that a condition binds, if it holds. -/
def bindings (ρ : Locals) : Condition → Act (Option Locals)
  | .test e => do
    let b ← truth (← machine.evalTree env ρ e)
    pure (if b then some [] else none)
  | .present e => do
    let v ← machine.evalTree env ρ e
    pure (if v.isAbsent then none else some [])
  | .presentAs var e => do
    let v ← machine.evalTree env ρ e
    pure (if v.isAbsent then none else some [(var.name, v)])
  | .isOf name t e => do
    let v ← machine.evalTree env ρ e
    let b ← machine.hasType env v t
    pure (if b then some [(name, v)] else none)
  | .nonempty var e => do
    let v ← machine.evalTree env ρ e
    pure (if hasElement v then some [(var.name, v)] else none)

/-! ## Statements -/

/-- Binds what a loop binds on each round. -/
def bindRound (v : Value) : LoopBinding → Run Unit
  | .value var => Run.declare var.name v
  | .keyItem key item => do
    let k ← machine.send v Support.entryKey []
    Run.declare key.name k
    let i ← machine.send v Support.entryItem []
    Run.declare item.name i

mutual

/-- Runs a statement. -/
def runTree : Stmt → Run Flow
  | .declare _ var init _ => do
    let v ← Run.reading (machine.evalValue env · init)
    Run.declare var.name v
    pure .normal
  | .assign _ target e => do
    let v ← Run.reading (machine.evalTree env · e)
    Run.assign target v
    pure .normal
  | .eval _ e => do
    let _ ← Run.reading (machine.evalTree env · e)
    pure .normal
  | .ret _ e => do
    let v ← Run.reading (machine.evalValue env · e)
    pure (.ret v)
  | .leave _ => pure .leave
  | .branch _ test yes no => do
    match ← Run.reading (machine.bindings env · test) with
    | some new => Run.inScope do
      Run.declareAll new
      runTrees yes
    | none => runOther no
  | .loop _ test body =>
    loop (do
      match ← Run.reading (machine.bindings env · test) with
      | some new => some <$> Run.inScope do
        Run.declareAll new
        runTrees body
      | none => pure none) machine.rounds
  | .each _ binding subject body no => do
    match ← Run.reading (machine.evalTree env · subject) with
    | .seq vs =>
      match ← forEach (fun v => Run.inScope do
          machine.bindRound v binding
          runTrees body) machine.rounds vs with
      | .normal => runOther no
      | .leave => pure .normal
      | .ret v => pure (.ret v)
    | _ => halt .stuck
  | .block _ body => Run.inScope (runTrees body)

/-- Runs statements until one does not end normally. -/
def runTrees : List Stmt → Run Flow
  | [] => pure .normal
  | s :: ss => do
    match ← runTree s with
    | .normal => runTrees ss
    | flow => pure flow

/-- Runs another branch, if there is one. -/
def runOther : Option (List Stmt) → Run Flow
  | none => pure .normal
  | some body => Run.inScope (runTrees body)

end

/-! ## No statements -/

section

attribute [local simp] runTree runTrees runOther

theorem runTrees_nil : machine.runTrees env [] = pure .normal := by
  simp

theorem runOther_none : machine.runOther env none = pure .normal := by
  simp

end

end Machine

end TreeLowering.Behaviour
