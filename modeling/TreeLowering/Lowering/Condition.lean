import TreeLowering.Lowering.Expression
import TreeLowering.Lowering.TypeTest
set_option autoImplicit false

/-!
# Lowering: conditions

A narrowing condition evaluates its subject once, into a raw binding ahead of
the statement, and tests that binding.  The guarded block opens with a second
binding of the subject at its narrowed type, and inside the block the source
name stands for that one.
-/

namespace TreeLowering

open Target (Expr Stmt)

/-- The narrowed binding that a guarded block opens with. -/
structure Narrowed where
  /-- The source name. -/
  source : String
  /-- What it stands for in the block. -/
  synthetic : String
  binding : Stmt

/-- A lowered condition. -/
structure LoweredCondition where
  /-- Runs before each evaluation of the test. -/
  setup : List Stmt
  test : Expr
  narrowed : Option Narrowed

namespace LoweredCondition

/-- A condition that binds nothing. -/
def plain (test : Expr) : LoweredCondition := ⟨[], test, none⟩

/-- The condition needs nothing but its test. -/
def isPlain (c : LoweredCondition) : Bool := c.setup.isEmpty && c.narrowed.isNone

/-- A branch on the condition. -/
def branch (c : LoweredCondition) (yes : List Stmt) (no : Option (List Stmt)) : List Stmt :=
  c.setup ++ [.branch c.test yes no]

/-- A loop on the condition, whose setup runs on every round. -/
def loop (c : LoweredCondition) (body : List Stmt) : Stmt :=
  if c.isPlain then .whileLoop c.test body
  else .whileLoop (.bool true) (c.setup ++ [.branch (.not c.test) [.leave] none] ++ body)

end LoweredCondition

/-- Lowers a block in which a narrowed binding is in scope. -/
def Lowering.guarded (narrowed : Option Narrowed) (block : Lowering (List Stmt)) :
    Lowering (List Stmt) :=
  match narrowed with
  | none => block
  | some n => do
    let body ← Lowering.withReplacement n.source n.synthetic block
    pure (n.binding :: body)

namespace Env

/-- Binds a subject, boxed, to a synthetic name. -/
def rawSubject (env : Env) (source : String) (subject : Tree.Expr) : Lowering (String × Stmt) := do
  let raw ← Lowering.fresh source
  let ty ← env.lowerType subject.ty .boxed
  let init ← env.lowerExpr subject .boxed
  pure (raw, .declareFinal raw ty init)

/-- Binds a raw subject at its narrowed type, in the form that values of the
type are kept in. -/
def narrow (env : Env) (raw source : String) (t : Ty) : Lowering Narrowed := do
  let synthetic ← Lowering.fresh source
  let boxed ← env.lowerType t .boxed
  let value : Expr := .cast boxed (.ident raw)
  match ← env.valueForm t with
  | .raw => do
    let ty ← env.lowerType t .plain
    let init ← env.unboxValue value t
    pure ⟨source, synthetic, .declareFinal synthetic ty init⟩
  | .boxed | .asIs => pure ⟨source, synthetic, .declareFinal synthetic boxed value⟩

/-- Tests whether a binding holds a sequence with an element. -/
def nonemptyTest (env : Env) (raw : String) : TypeLowering Expr := do
  let cls ← env.lowerType (env.model.declaredType Language.fixedSized) (.boxed ∪ .rawType)
  let empty := Expr.get (.cast cls (.ident raw)) Support.isEmpty
  pure (.binary .and (.instanceOf (.ident raw) cls) (.not empty))

/-- A narrowing condition has to name its subject. -/
def requireSubject (name : String) : Lowering Unit :=
  Lowering.ofRun fun s =>
    (if name.isEmpty then .error (.missingSubjectVariable s.span) else .ok (), s)

/-- Lowers a condition. -/
def lowerCondition (env : Env) : Tree.Condition → Lowering LoweredCondition
  | .test e => do
    let test ← env.lowerExpr e .raw
    pure (.plain test)
  | .present e => do
    let subject ← env.lowerExpr e .boxed
    pure (.plain (.binary .ne subject .null))
  | .presentAs var e => do
    let (raw, binding) ← env.rawSubject var.name e
    let narrowed ← env.narrow raw var.name var.ty
    pure ⟨[binding], .binary .ne (.ident raw) .null, some narrowed⟩
  | .isOf name ty e => do
    requireSubject name
    let (raw, binding) ← env.rawSubject name e
    let test ← env.typeTest raw ty
    let narrowed ← env.narrow raw name ty
    pure ⟨[binding], test, some narrowed⟩
  | .nonempty var e => do
    let (raw, binding) ← env.rawSubject var.name e
    let test ← env.nonemptyTest raw
    let narrowed ← env.narrow raw var.name var.ty
    pure ⟨[binding], test, some narrowed⟩

end Env

end TreeLowering
