import TreeLowering.Backend
import TreeLowering.Shared.Statement
import TreeLowering.Target.Render
set_option autoImplicit false

/-!
# Shared tables: whole functions

A backend lowers the functions of one program one after the other.  The pool, the
interner and the cache of declaration names go from one function to the next, and
grow on the way.
-/

namespace TreeLowering.Shared

open Tabled
open Shared.Target (Expr Stmt)

namespace Env

variable (env : Env)

/-- Lowers the parameters of a method. -/
def methodParams : List Parameter → Lowering (List Target.Param)
  | [] => pure []
  | p :: ps => do
    let ty ← env.parameterType p
    let rest ← methodParams ps
    pure (⟨true, false, p.name, ty⟩ :: rest)

/-- Result type of a method; the type that says nothing is written as no result
at all. -/
def methodResult (result : TypeIdx) : Lowering Target.Ty :=
  if result = env.model.builtins.void then pure (.primitive .void)
  else env.lowerType result .plain

/-- Body and result type of a function with one parameter list. -/
def plainBody (result : TypeIdx) (body : List Tree.Stmt) : Lowering (Target.Ty × List Stmt) := do
  let form ← env.valueForm result
  let lowered ← Lowering.withReturns ⟨form, false⟩ (env.lowerStmts body)
  let ty ← env.methodResult result
  pure (ty, lowered)

/-- A body whose callers expect a value: the absent value, if it yields none. -/
def endWithValue (result : TypeIdx) (body : List Stmt) : List Stmt :=
  if result = env.model.builtins.void && Stmt.allComplete body then body ++ [.ret (some .null)]
  else body

/-- Wraps a body into function values for the parameter lists, the last list
innermost. -/
def wrapLayers (result : TypeIdx) (body : List Stmt) :
    List (List Parameter) → Lowering (List Stmt)
  | [] => pure body
  | list :: rest => do
    let inner ← wrapLayers result body rest
    let yielded ← curried result rest
    let own ← callable yielded (Parameter.types list)
    let layer ← env.layerCallable own list inner
    pure [.ret (some layer)]

/-- Body and result type of a function with more parameter lists. -/
def curriedBody (result : TypeIdx) (lists : List (List Parameter)) (body : List Tree.Stmt) :
    Lowering (Target.Ty × List Stmt) := do
  let lowered ← Lowering.withReturns ⟨.boxed, true⟩ (env.lowerStmts body)
  let wrapped ← env.wrapLayers result (env.endWithValue result lowered) lists
  let own ← curried result lists
  let ty ← env.lowerType own .plain
  pure (ty, wrapped)

/-- Body and result type of a function with the given lists after the first. -/
def functionBody (result : TypeIdx) (rest : List (List Parameter)) (body : List Tree.Stmt) :
    Lowering (Target.Ty × List Stmt) :=
  if rest.isEmpty then env.plainBody result body else env.curriedBody result rest body

/-- Lowers a function to a method with the given result type. -/
def lowerFunction (f : Tree.Function) (result : TypeIdx) : Lowering Target.Method := do
  let x := env.model.decl f.decl
  match x.paramLists with
  | [] => env.failWithoutLists f.decl
  | first :: rest => do
    Lowering.moveTo f.span
    let typeParams ← env.lowerTypeParams x.typeParams
    let params ← env.methodParams first
    let (ty, body) ← env.functionBody result rest f.body
    pure (.mk { isPublic := x.flags.isShared } typeParams ty x.name params (some body))

/-- Lowers a function to a method. -/
def lowerWhole (f : Tree.Function) : Lowering Target.Method := do
  let result ← env.resultType f.decl
  env.lowerFunction f result

end Env

/-! ## Reporting -/

/-- The text of a problem. -/
def ProblemKind.message (m : Model) : ProblemKind → Tabled String
  | missingTypeArgument i param => do
    let shown ← m.display i
    let name ← textOf param
    pure ("type `" ++ shown ++ "` has no argument for type parameter `" ++ name ++ "`")
  | notIterable i => (fun shown => "cannot iterate over `" ++ shown ++ "`") <$> m.display i
  | notAFunction => pure "cannot lower a reference to a declaration that is not a function"

/-- The diagnostic code of a problem. -/
def ProblemKind.code : ProblemKind → DiagnosticCode
  | missingTypeArgument .. => .missingTypeArgument
  | notIterable _ => .notIterable
  | notAFunction => .unsupportedConstruct

/-- What is said at the place of a problem. -/
def ProblemKind.label : ProblemKind → String
  | missingTypeArgument .. => "lowered as an erroneous type"
  | notIterable _ => "not an `Iterable`"
  | notAFunction => "unsupported here"

/-- The diagnostic that reports a problem. -/
def Problem.diagnostic (m : Model) (p : Problem) : Tabled Diagnostic :=
  (fun message => (Diagnostic.error p.kind.code message).pointingAt p.span p.kind.label) <$>
    p.kind.message m

/-! ## Backends -/

/-- A backend between two functions. -/
structure Backend where
  env : Env
  tables : Tables
  cache : NameCache
  queue : DiagnosticQueue

/-- What the lowering of one function yields. -/
structure Lowered where
  /-- The method, or the defect of the tree. -/
  outcome : Except LowerError Target.Method
  /-- The problems met, oldest first, as they are reported. -/
  problems : List Diagnostic

namespace Lowered

/-- The method, unless the tree was malformed. -/
def method? (x : Lowered) : Option Target.Method := x.outcome.toOption

/-- The diagnostics of a function: its problems, then its defect. -/
def diagnostics (f : Tree.Function) (x : Lowered) : List Diagnostic :=
  x.problems ++
    match x.outcome with
    | .ok _ => []
    | .error e => [e.diagnostic f.span]

end Lowered

namespace Backend

/-- A backend for a program whose types and names are in the tables, or the diagnostic
for refused settings. -/
def new (model : Model) (tables : Tables) (order : PoolSubst → PoolSubst) (config : Config) :
    Except Diagnostic Backend :=
  match config.validate with
  | .error e => .error (.error .invalidSettings e.message)
  | .ok () =>
    .ok ⟨⟨model, config, TreeLowering.Env.ample, order⟩, tables, [], .new config.limits⟩

/-- Lowers a function. -/
def lower (b : Backend) (f : Tree.Function) : Except Halt (Lowered × Backend) := do
  let (outcome, s) ← (b.env.lowerWhole f).runFrom (.start b.tables b.cache)
  let (problems, tables) ← each (·.diagnostic b.env.model) s.problems s.tables
  let x : Lowered := ⟨outcome, problems⟩
  pure (x, ⟨b.env, tables, s.cache, b.queue.pushAll (x.diagnostics f)⟩)

/-- Lowers functions one after the other; one answer for each. -/
def lowerEach (b : Backend) : List Tree.Function → Except Halt (List Lowered × Backend)
  | [] => pure ([], b)
  | f :: fs => do
    let (x, next) ← b.lower f
    let (xs, last) ← lowerEach next fs
    pure (x :: xs, last)

end Backend

/-- The written form of a method. -/
def Target.Method.text (t : Interner) (m : Target.Method) : String := (m.read t).text

end TreeLowering.Shared
