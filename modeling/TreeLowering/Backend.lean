import TreeLowering.Lowering.Method
import TreeLowering.Lowering.Refinement
set_option autoImplicit false

/-!
# Backend: whole functions

A backend lowers the functions of one program one after the other.  The result
type of a method comes from the refinement it has to respect.  Problems and
defects of all functions go into one queue of diagnostics.
-/

namespace TreeLowering

/-- A backend between two functions. -/
structure Backend where
  env : Env
  queue : DiagnosticQueue
  /-- Declaration names asked for so far. -/
  table : NameTable

/-- What the lowering of one function yields. -/
structure Lowered where
  /-- The method, or the defect of the tree. -/
  outcome : Except LowerError Target.Method
  /-- Problems met, oldest first. -/
  problems : List Problem
  /-- Declaration names asked for so far. -/
  table : NameTable

/-- The result type that a function's method declares: its own, or an inherited
one when its own would widen what it refines. -/
def Model.resultType (m : Model) (d : DeclId) : Ty := m.refType (m.nonWideningRef (m.ownRef d))

/-- Lowers a function on its own, given the names asked for earlier. -/
def Env.lowerAlone (env : Env) (table : NameTable) (f : Tree.Function) : Lowered :=
  let out := (env.lowerFunction f (env.model.resultType f.decl)).runFrom (.start table)
  ⟨out.1, out.2.problems, out.2.table⟩

namespace Lowered

/-- The diagnostics of a function: its problems, then its defect. -/
def diagnostics (m : Model) (f : Tree.Function) (x : Lowered) : List Diagnostic :=
  x.problems.map (·.diagnostic m) ++
    match x.outcome with
    | .ok _ => []
    | .error e => [e.diagnostic f.span]

/-- The method, unless the tree was malformed. -/
def method? (x : Lowered) : Option Target.Method :=
  match x.outcome with
  | .ok method => some method
  | .error _ => none

end Lowered

namespace Backend

/-- A backend for a program, or the diagnostic for refused settings. -/
def new (model : Model) (config : Config) : Except Diagnostic Backend :=
  match config.validate with
  | .error e => .error (.error .invalidSettings e.message)
  | .ok () => .ok ⟨.of model config, .new config.limits, .empty⟩

/-- Lowers a function; a malformed one yields no method. -/
def lowerFunction (b : Backend) (f : Tree.Function) : Option Target.Method × Backend :=
  let x := b.env.lowerAlone b.table f
  (x.method?, { b with queue := b.queue.pushAll (x.diagnostics b.env.model f), table := x.table })

/-- Lowers functions one after the other; one answer for each. -/
def lowerEach (b : Backend) : List Tree.Function → List (Option Target.Method) × Backend
  | [] => ([], b)
  | f :: fs =>
    let first := b.lowerFunction f
    let rest := first.2.lowerEach fs
    (first.1 :: rest.1, rest.2)

/-- Lowers functions one after the other, and skips the malformed ones. -/
def lowerFunctions (b : Backend) (fs : List Tree.Function) : List Target.Method × Backend :=
  let out := b.lowerEach fs
  (out.1.filterMap id, out.2)

/-- Some diagnostic kept so far is an error. -/
def hasErrors (b : Backend) : Bool := b.queue.hasErrors

/-- The diagnostics kept, in order of position. -/
def finish (b : Backend) : List Diagnostic := b.queue.flush.1

end Backend

end TreeLowering
