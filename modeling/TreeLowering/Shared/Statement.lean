import TreeLowering.Lowering.Statement
import TreeLowering.Shared.Expression
set_option autoImplicit false

/-!
# Shared tables: conditions, loops and statements

The lowering of statements, where types are positions and every text in the code
is a name.
-/

namespace TreeLowering.Shared

open Tabled
open Shared.Target (Expr Stmt)

/-! ## Type tests -/

/-- Tests put together by an operator; without tests, an alternative fails and
a conjunction holds. -/
def combineTests (op : TreeLowering.Target.BinaryOp) : List Expr → Expr
  | [] => .bool (op == .and)
  | test :: tests => tests.foldl (.binary op) test

namespace Env

variable (env : Env)

/-- Tests against a type that is no union, intersection or bottom type. -/
def leafTest (raw : Name) (i : TypeIdx) : Lowering Expr := do
  let subject : Expr := .ident raw
  let b := env.model.builtins
  let plain ← withoutHint i
  if plain = b.void then do
    let tmp ← Lowering.fresh Support.temporary
    let object ← Target.Ty.object
    pure (.letIn [.declareFinal tmp object subject] (.bool true))
  else if plain = b.nothing then pure (.binary .eq subject .null)
  else if plain = b.object then pure (.binary .ne subject .null)
  else if plain = b.identifiable then
    Expr.static Support.util [] Support.isIdentifiable [subject]
  else if plain = b.identifiableObject then
    Expr.static Support.util [] Support.isIdentifiableObject [subject]
  else do
    let cls ← env.lowerType i TreeLowering.Env.testPosition
    pure (.instanceOf subject cls)

/-- Tests against several types, one after the other. -/
def testsWith (test : TypeIdx → Lowering Expr) : List TypeIdx → Lowering (List Expr)
  | [] => pure []
  | i :: is => do
    let first ← test i
    let rest ← testsWith test is
    pure (first :: rest)

/-- Tests whether the value of the binding `raw` has a type in which types nest
less than `fuel` deep. -/
def typeTestWithin (raw : Name) : Nat → TypeIdx → Lowering Expr
  | 0, _ => Lowering.halt .endless
  | fuel + 1, i => do
    match ← nodeAt i with
    | .union cases => combineTests .or <$> testsWith (typeTestWithin raw fuel) cases
    | .inter bounds => combineTests .and <$> testsWith (typeTestWithin raw fuel) bounds
    | .bottom => pure (.bool false)
    | .nominal .. | .param _ | .error => env.leafTest raw i

/-- Tests whether the value of the binding `raw` has a type. -/
def typeTest (raw : Name) (i : TypeIdx) : Lowering Expr := env.typeTestWithin raw (i.index + 1) i

end Env

/-! ## Conditions -/

/-- The narrowed binding that a guarded block opens with. -/
structure Narrowed where
  /-- The source name. -/
  source : Name
  /-- What it stands for in the block. -/
  synthetic : Name
  binding : Stmt

/-- A lowered condition. -/
structure LoweredCondition where
  /-- Runs before each evaluation of the test. -/
  setup : List Stmt
  test : Expr
  narrowed : Option Narrowed

namespace LoweredCondition

/-- A condition that binds nothing. -/
def plain (test : Expr) : LoweredCondition := ⟨[], test, none⟩

/-- The condition needs nothing but its test. -/
def isPlain (c : LoweredCondition) : Bool := c.setup.isEmpty && c.narrowed.isNone

/-- A branch on the condition. -/
def branch (c : LoweredCondition) (yes : List Stmt) (no : Option (List Stmt)) : List Stmt :=
  c.setup ++ [.branch c.test yes no]

/-- A loop on the condition, whose setup runs on every round. -/
def loop (c : LoweredCondition) (body : List Stmt) : Stmt :=
  if c.isPlain then .whileLoop c.test body
  else .whileLoop (.bool true) (c.setup ++ [.branch (.not c.test) [.leave] none] ++ body)

end LoweredCondition

/-- Lowers a block in which a narrowed binding is in scope. -/
def Lowering.guarded (narrowed : Option Narrowed) (block : Lowering (List Stmt)) :
    Lowering (List Stmt) :=
  match narrowed with
  | none => block
  | some n => do
    let body ← Lowering.withReplacement n.source n.synthetic block
    pure (n.binding :: body)

namespace Env

variable (env : Env)

/-- Binds a subject, boxed, to a synthetic name. -/
def rawSubject (source : Name) (subject : Tree.Expr) : Lowering (Name × Stmt) := do
  let raw ← Lowering.freshFor source
  let ty ← env.lowerType subject.ty .boxed
  let init ← env.lowerExpr subject .boxed
  pure (raw, .declareFinal raw ty init)

/-- Binds a raw subject at its narrowed type, in the form that values of the
type are kept in. -/
def narrow (raw source : Name) (i : TypeIdx) : Lowering Narrowed := do
  let synthetic ← Lowering.freshFor source
  let boxed ← env.lowerType i .boxed
  let value : Expr := .cast boxed (.ident raw)
  match ← env.valueForm i with
  | .raw => do
    let ty ← env.lowerType i .plain
    let init ← env.unboxValue value i
    pure ⟨source, synthetic, .declareFinal synthetic ty init⟩
  | .boxed | .asIs => pure ⟨source, synthetic, .declareFinal synthetic boxed value⟩

/-- Tests whether a binding holds a sequence with an element. -/
def nonemptyTest (raw : Name) : Lowering Expr := do
  let own ← env.model.declaredType Language.fixedSized
  let cls ← env.lowerType own (.boxed ∪ .rawType)
  let empty ← Expr.get (.cast cls (.ident raw)) Support.isEmpty
  pure (.binary .and (.instanceOf (.ident raw) cls) (.not empty))

/-- A narrowing condition has to name its subject. -/
def requireSubject (name : Name) : Lowering Unit :=
  Lowering.ofRun fun s =>
    .ok (if name.isEmpty then .error (.missingSubjectVariable s.span) else .ok (), s)

/-- Lowers a condition. -/
def lowerCondition : Tree.Condition → Lowering LoweredCondition
  | .test e => do
    let test ← env.lowerExpr e .raw
    pure (.plain test)
  | .present e => do
    let subject ← env.lowerExpr e .boxed
    pure (.plain (.binary .ne subject .null))
  | .presentAs var e => do
    let (raw, binding) ← env.rawSubject var.name e
    let narrowed ← env.narrow raw var.name var.ty
    pure ⟨[binding], .binary .ne (.ident raw) .null, some narrowed⟩
  | .isOf name ty e => do
    requireSubject name
    let (raw, binding) ← env.rawSubject name e
    let test ← env.typeTest raw ty
    let narrowed ← env.narrow raw name ty
    pure ⟨[binding], test, some narrowed⟩
  | .nonempty var e => do
    let (raw, binding) ← env.rawSubject var.name e
    let test ← env.nonemptyTest raw
    let narrowed ← env.narrow raw var.name var.ty
    pure ⟨[binding], test, some narrowed⟩

end Env

/-! ## Loops -/

/-- A loop without its body. -/
structure LoopHead where
  /-- The iterator's name. -/
  iterator : Name
  iteratorType : Target.Ty
  /-- What the iterator starts from. -/
  start : Expr
  /-- The current element. -/
  head : Expr
  /-- What is left after it. -/
  tail : Expr
  /-- Bindings that the body opens with. -/
  bindings : List Stmt

/-- The loop with a body. -/
def LoopHead.loop (h : LoopHead) (body : List Stmt) : Stmt :=
  .forLoop [.mk false h.iterator h.iteratorType (some h.start)] (.binary .ne h.head .null)
    [.assign (.ident h.iterator) h.tail] (h.bindings ++ body)

/-- The declaration of a loop guard. -/
def declareGuard : Option Name → List Stmt
  | none => []
  | some guard => [.declare (.mk false guard (.primitive .boolean) (some (.bool true)))]

/-- The other branch of a loop, run while the guard is still set. -/
def guardedElse : Option Name → Option (List Stmt) → List Stmt
  | some guard, some body => [.branch (.ident guard) body none]
  | _, _ => []

/-- A break that clears the loop's guard. -/
def breakClearing : Option Name → List Stmt
  | none => [.leave]
  | some guard => [.exec (.assign (.ident guard) (.bool false)), .leave]

/-- A guard for a loop that needs one. -/
def loopGuard (needed : Bool) : Lowering (Option Name) := do
  if needed then do
    let guard ← Lowering.fresh Support.loopGuard
    pure (some guard)
  else pure none

/-- The element type that was found for a loop's subject; that none was found
is a problem. -/
def elementFound (subject : Tree.Expr) : Option TypeIdx → Lowering TypeIdx
  | some element => pure element
  | none => do
    Lowering.problemAt subject.info.span (.notIterable subject.ty)
    pure .error

namespace Env

variable (env : Env)

/-- Element type of a loop's subject. -/
def loopElement (subject : Tree.Expr) : Lowering TypeIdx := do
  let found ← env.model.iteratedType? subject.ty
  elementFound subject found

/-- A boxed value at the type of the variable that it is bound to. -/
def seenAs (var : Tree.Variable) (value : Expr) (i : TypeIdx) : Lowering Expr :=
  if var.ty = i then pure value
  else do
    let cls ← env.lowerType var.ty .boxed
    pure (.cast cls value)

/-- Binds a variable to a value that comes boxed at a type. -/
def bindElement (var : Tree.Variable) (value : Expr) (i : TypeIdx) : Lowering Stmt := do
  let seen ← env.seenAs var value i
  let form ← env.valueForm var.ty
  let init ← env.convert seen true var.ty form
  let ty ← env.lowerType var.ty .plain
  pure (.declareFinal var.name ty init)

/-- Binds what a loop binds on each round. -/
def bindHead (head : Expr) (element : TypeIdx) : Tree.LoopBinding → Lowering (List Stmt)
  | .value var => do
    let binding ← env.bindElement var head element
    pure [binding]
  | .keyItem key item => do
    let types ← env.model.entryArguments element
    let keyOf ← head.get Support.entryKey
    let keyBinding ← env.bindElement key keyOf (types.head?.getD .error)
    let itemOf ← head.get Support.entryItem
    let itemBinding ← env.bindElement item itemOf (types[1]?.getD .error)
    pure [keyBinding, itemBinding]

/-- Lowers a loop up to its body. -/
def loopHead (binding : Tree.LoopBinding) (subject : Tree.Expr) : Lowering LoopHead := do
  let element ← env.loopElement subject
  let base ← textOf binding.first.name
  let iterator ← Lowering.fresh (base ++ Support.iteratorSuffix)
  let own ← iteratorOf element
  let iteratorType ← env.lowerType own .typeArgument
  let e ← env.lowerExpr subject .boxed
  let start ← e.get Support.iterator
  let head ← Expr.get (.ident iterator) Support.head
  let tail ← Expr.get (.ident iterator) Support.tail
  let bindings ← env.bindHead head element binding
  pure ⟨iterator, iteratorType, start, head, tail, bindings⟩

/-! ## Statements -/

/-- Lowers an expression if there is one. -/
def lowerInit (form : Form) : Option Tree.Expr → Lowering (Option Expr)
  | none => pure none
  | some e => some <$> env.lowerExpr e form

/-- Declares a local in the form that values of its type are kept in. -/
def declareLocal (var : Tree.Variable) (init : Option Tree.Expr) (isVariable : Bool) :
    Lowering Stmt := do
  let form ← env.valueForm var.ty
  let ty ← env.lowerType var.ty .plain
  let value ← env.lowerInit form init
  Lowering.keepLocal var.name form
  pure (.declare (.mk (!isVariable) var.name ty value))

/-- The form that a target of an assignment is kept in. -/
def targetForm (target : Name) (i : TypeIdx) : Lowering Form := do
  match ← Lowering.localForm? target with
  | some form => pure form
  | none => env.valueForm i

/-- Assigns a value to what a name stands for. -/
def assignTo (name : Name) (e : Tree.Expr) : Lowering Stmt := do
  let target ← Lowering.resolve name
  let form ← env.targetForm target e.ty
  let value ← env.lowerExpr e form
  pure (.exec (.assign (.ident target) value))

/-- The value that a return yields. -/
def returnValue : Option ReturnForm → Option Tree.Expr → Lowering (Option Expr)
  | some r, some e => some <$> env.lowerExpr e r.form
  | none, some e => some <$> env.lowerExpr e .asIs
  | some r, none => pure (if r.inCallable then some .null else none)
  | none, none => pure none

mutual

/-- Lowers a statement. -/
def lowerStmt (env : Env) : Tree.Stmt → Lowering (List Stmt)
  | .declare span var init isVariable => do
    Lowering.moveTo span
    let s ← env.declareLocal var init isVariable
    pure [s]
  | .assign span target value => do
    Lowering.moveTo span
    let s ← env.assignTo target value
    pure [s]
  | .eval span e => do
    Lowering.moveTo span
    let value ← env.lowerExpr e .asIs
    pure [.exec value]
  | .ret span value => do
    Lowering.moveTo span
    let returns ← Lowering.reads (·.returns)
    let e ← env.returnValue returns value
    pure [.ret e]
  | .leave span => do
    Lowering.moveTo span
    let guard ← Lowering.reads (·.loopGuard)
    pure (breakClearing guard)
  | .branch span test yes no => do
    Lowering.moveTo span
    let c ← env.lowerCondition test
    let thenBody ← Lowering.guarded c.narrowed (lowerStmts env yes)
    let elseBody ← lowerElse env no
    pure (c.branch thenBody elseBody)
  | .loop span test body => do
    Lowering.moveTo span
    let s ← Lowering.withLoopGuard none do
      let c ← env.lowerCondition test
      let lowered ← Lowering.guarded c.narrowed (lowerStmts env body)
      pure (c.loop lowered)
    pure [s]
  | .each span binding subject body no => do
    Lowering.moveTo span
    let guard ← loopGuard no.isSome
    let s ← Lowering.withLoopGuard guard do
      let head ← env.loopHead binding subject
      let lowered ← lowerStmts env body
      pure (head.loop lowered)
    let other ← lowerElse env no
    pure (declareGuard guard ++ s :: guardedElse guard other)
  | .block span body => do
    Lowering.moveTo span
    let lowered ← lowerStmts env body
    pure [.block lowered]

/-- Lowers statements one after the other. -/
def lowerStmts (env : Env) : List Tree.Stmt → Lowering (List Stmt)
  | [] => pure []
  | s :: ss => do
    let lowered ← lowerStmt env s
    let rest ← lowerStmts env ss
    pure (lowered ++ rest)

/-- Lowers another branch, if there is one. -/
def lowerElse (env : Env) : Option (List Tree.Stmt) → Lowering (Option (List Stmt))
  | none => pure none
  | some body => do
    let lowered ← lowerStmts env body
    pure (some lowered)

end

end Env

end TreeLowering.Shared
