import TreeLowering.Diagnostic.Basic
import TreeLowering.Model.Display
set_option autoImplicit false

/-!
# Lowering: problems and defects

A problem is something odd about the program that does not stop its lowering.
A defect is a tree of the wrong shape; it does.
-/

namespace TreeLowering

/-- What is odd about a program. -/
inductive ProblemKind where
  /-- A generic type has fewer arguments than its declaration has parameters. -/
  | missingTypeArgument (ty : Ty) (param : String)
  /-- A loop runs over something that is not iterable. -/
  | notIterable (ty : Ty)
  /-- A sequence has no platform array for its elements. -/
  | unsupportedArrayElement (element : Ty)
  /-- A declaration that is not a function is used as one. -/
  | notAFunction
  deriving DecidableEq, Repr, Inhabited

/-- A problem and where it was met. -/
structure Problem where
  kind : ProblemKind
  span : Span
  deriving DecidableEq, Repr, Inhabited

namespace ProblemKind

/-- The diagnostic code of a problem. -/
def code : ProblemKind → DiagnosticCode
  | missingTypeArgument .. => .missingTypeArgument
  | notIterable _ => .notIterable
  | unsupportedArrayElement _ => .unsupportedArrayElement
  | notAFunction => .unsupportedConstruct

/-- The text of a problem. -/
def message (m : Model) : ProblemKind → String
  | missingTypeArgument ty param =>
    "type `" ++ m.display ty ++ "` has no argument for type parameter `" ++ param ++ "`"
  | notIterable ty => "cannot iterate over `" ++ m.display ty ++ "`"
  | unsupportedArrayElement element =>
    "no platform array conversion for sequences of `" ++ m.display element ++ "`"
  | notAFunction => "cannot lower a reference to a declaration that is not a function"

/-- What is said at the place of a problem. -/
def label : ProblemKind → String
  | missingTypeArgument .. => "lowered as an erroneous type"
  | notIterable _ => "not an `Iterable`"
  | unsupportedArrayElement _ => "left as a sequence"
  | notAFunction => "unsupported here"

end ProblemKind

namespace Problem

/-- The diagnostic that reports a problem. -/
def diagnostic (m : Model) (p : Problem) : Diagnostic :=
  (Diagnostic.error p.kind.code (p.kind.message m)).pointingAt p.span p.kind.label

end Problem

/-- Why a tree cannot be lowered. -/
inductive LowerError where
  /-- A function without parameter lists. -/
  | noParameterLists (name : String)
  /-- A narrowing condition that binds no variable. -/
  | missingSubjectVariable (span : Span)
  /-- A type whose arguments nest without end. -/
  | endlessType
  deriving DecidableEq, Repr, Inhabited

namespace LowerError

/-- The text of a defect. -/
def message : LowerError → String
  | noParameterLists name => "function `" ++ name ++ "` has no parameter lists"
  | missingSubjectVariable span =>
    "narrowing condition at " ++ span.text ++ " binds no variable"
  | endlessType => "type arguments nest without end"

/-- Where a defect of a function is reported, given the span of its body. -/
def reportSpan (body : Span) : LowerError → Span
  | missingSubjectVariable span => span
  | noParameterLists _ | endlessType => body

/-- The diagnostic that reports a defect of a function. -/
def diagnostic (body : Span) (e : LowerError) : Diagnostic :=
  (Diagnostic.error .malformedTree e.message).pointingAt (e.reportSpan body) "cannot be lowered"

end LowerError

end TreeLowering
