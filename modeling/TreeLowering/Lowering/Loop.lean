import TreeLowering.Lowering.Expression
set_option autoImplicit false

/-!
# Lowering: loops over something iterable

The loop steps an iterator that is a list of what is left: its head is the
current element, absent at the end, and its tail the next iterator.  A loop with
another branch sets a flag beforehand, which a break of the loop clears.
-/

namespace TreeLowering

open Target (Expr Stmt)

/-- A loop without its body. -/
structure LoopHead where
  /-- The iterator's name. -/
  iterator : String
  iteratorType : Target.Ty
  subject : Expr
  /-- Bindings that the body opens with. -/
  bindings : List Stmt

/-- The current element of an iterator. -/
def headOf (iterator : String) : Expr := .get (.ident iterator) Support.head

namespace LoopHead

/-- The loop with a body. -/
def loop (h : LoopHead) (body : List Stmt) : Stmt :=
  .forLoop [.mk false h.iterator h.iteratorType (some (h.subject.get Support.iterator))]
    (.binary .ne (headOf h.iterator) .null)
    [.assign (.ident h.iterator) (.get (.ident h.iterator) Support.tail)]
    (h.bindings ++ body)

end LoopHead

/-- The declaration of a loop guard. -/
def declareGuard : Option String → List Stmt
  | none => []
  | some guard => [.declare (.mk false guard (.primitive .boolean) (some (.bool true)))]

/-- The other branch of a loop, run while the guard is still set. -/
def guardedElse : Option String → Option (List Stmt) → List Stmt
  | some guard, some body => [.branch (.ident guard) body none]
  | _, _ => []

/-- A break that clears the loop's guard. -/
def breakClearing : Option String → List Stmt
  | none => [.leave]
  | some guard => [.exec (.assign (.ident guard) (.bool false)), .leave]

namespace Env

/-- A guard for a loop that needs one. -/
def loopGuard (needed : Bool) : Lowering (Option String) := do
  if needed then do
    let guard ← Lowering.fresh Support.loopGuard
    pure (some guard)
  else pure none

/-- The element type that was found for a loop's subject; that none was found
is a problem. -/
def elementFound (subject : Tree.Expr) : Option Ty → Lowering Ty
  | some element => pure element
  | none => do
    Lowering.problemAt subject.info.span (.notIterable subject.ty)
    pure .error

/-- Element type of a loop's subject. -/
def loopElement (env : Env) (subject : Tree.Expr) : Lowering Ty :=
  elementFound subject (env.model.iteratedType? subject.ty)

/-- Binds a variable to a value that comes boxed at a type. -/
def bindElement (env : Env) (var : Tree.Variable) (value : Expr) (t : Ty) : Lowering Stmt := do
  let seen ←
    if var.ty = t then pure value
    else do
      let cls ← env.lowerType var.ty .boxed
      pure (.cast cls value)
  let form ← env.valueForm var.ty
  let init ← env.convert seen true var.ty form
  let ty ← env.lowerType var.ty .plain
  pure (.declareFinal var.name ty init)

/-- Binds what a loop binds on each round. -/
def bindHead (env : Env) (iterator : String) (element : Ty) :
    Tree.LoopBinding → Lowering (List Stmt)
  | .value var => do
    let binding ← env.bindElement var (headOf iterator) element
    pure [binding]
  | .keyItem key item => do
    let types := env.model.entryArguments element
    let keyBinding ←
      env.bindElement key ((headOf iterator).get Support.entryKey) (types.head?.getD .error)
    let itemBinding ←
      env.bindElement item ((headOf iterator).get Support.entryItem) (types[1]?.getD .error)
    pure [keyBinding, itemBinding]

/-- Lowers a loop up to its body. -/
def loopHead (env : Env) (binding : Tree.LoopBinding) (subject : Tree.Expr) :
    Lowering LoopHead := do
  let element ← env.loopElement subject
  let iterator ← Lowering.fresh (binding.first.name ++ Support.iteratorSuffix)
  let iteratorType ← env.lowerType (.iteratorOf element) .typeArgument
  let subject ← env.lowerExpr subject .boxed
  let bindings ← env.bindHead iterator element binding
  pure ⟨iterator, iteratorType, subject, bindings⟩

end Env

end TreeLowering
