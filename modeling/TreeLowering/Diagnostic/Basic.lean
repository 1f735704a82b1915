import TreeLowering.Source.Span
set_option autoImplicit false

/-!
# Diagnostics: codes, labels and their text

A diagnostic is a coded message with labelled spans and notes.  Its written
form has one line for the message, one per label and one per note.
-/

namespace TreeLowering

/-- How serious a diagnostic is. -/
inductive Severity where
  | error
  | warning
  | note
  deriving DecidableEq, Repr, Inhabited

namespace Severity

/-- The word a diagnostic starts with. -/
def word : Severity → String
  | error => "error"
  | warning => "warning"
  | note => "note"

/-- Every severity. -/
def all : List Severity := [error, warning, note]

end Severity

/-- The stable codes: `E4…` for problems in the lowered program, `E9…` for
defects of the input's shape or of the settings. -/
inductive DiagnosticCode where
  /-- A generic type lacks a type argument. -/
  | missingTypeArgument
  /-- A loop subject cannot be iterated. -/
  | notIterable
  /-- A sequence's elements have no platform array. -/
  | unsupportedArrayElement
  /-- A construct has no lowering. -/
  | unsupportedConstruct
  /-- A typed tree is malformed. -/
  | malformedTree
  /-- The settings ask for something that cannot be emitted. -/
  | invalidSettings
  deriving DecidableEq, Repr, Inhabited

namespace DiagnosticCode

/-- The written code. -/
def text : DiagnosticCode → String
  | missingTypeArgument => "E4001"
  | notIterable => "E4002"
  | unsupportedArrayElement => "E4003"
  | unsupportedConstruct => "E4004"
  | malformedTree => "E9001"
  | invalidSettings => "E9002"

/-- Every code, in written order. -/
def all : List DiagnosticCode :=
  [missingTypeArgument, notIterable, unsupportedArrayElement, unsupportedConstruct,
    malformedTree, invalidSettings]

/-- A problem in the lowered program. -/
def isLowering : DiagnosticCode → Bool
  | missingTypeArgument | notIterable | unsupportedArrayElement | unsupportedConstruct => true
  | malformedTree | invalidSettings => false

/-- A defect of the input's shape or of the settings. -/
def isInternal : DiagnosticCode → Bool
  | malformedTree | invalidSettings => true
  | missingTypeArgument | notIterable | unsupportedArrayElement | unsupportedConstruct => false

theorem mem_all (c : DiagnosticCode) : c ∈ all := by cases c <;> simp [all]

/-- The two groups split the codes. -/
theorem isInternal_eq_not_isLowering (c : DiagnosticCode) : c.isInternal = !c.isLowering := by
  cases c <;> rfl

end DiagnosticCode

/-- A message attached to a span. -/
structure Label where
  span : Span
  message : String
  /-- The label carries the diagnostic's own position. -/
  primary : Bool
  deriving DecidableEq, Repr, Inhabited

namespace Label

/-- The secondary label that says nothing about nowhere. -/
def blank : Label := ⟨.dummy, "", false⟩

end Label

/-- A coded message with labels and notes. -/
structure Diagnostic where
  code : DiagnosticCode
  severity : Severity
  message : String
  labels : List Label
  notes : List String
  deriving DecidableEq, Repr, Inhabited

namespace Diagnostic

/-- A bare error. -/
def error (code : DiagnosticCode) (message : String) : Diagnostic :=
  ⟨code, .error, message, [], []⟩

/-- Points the diagnostic at a span, unless that is the dummy span. -/
def pointingAt (d : Diagnostic) (span : Span) (message : String) : Diagnostic :=
  if span.isDummy then d
  else { d with labels := d.labels ++ [⟨span, message, true⟩] }

/-- The diagnostic is an error. -/
def isError (d : Diagnostic) : Bool := d.severity == .error

/-- The span of the first primary label. -/
def primarySpan? (d : Diagnostic) : Option Span :=
  (d.labels.find? (·.primary)).map (·.span)

/-- The written form of a label line. -/
def labelText (l : Label) : String := "\n  --> " ++ l.span.text ++ ": " ++ l.message

/-- The written form of a note line. -/
def noteText (n : String) : String := "\n  = note: " ++ n

/-- The written form of a diagnostic. -/
def text (d : Diagnostic) : String :=
  d.severity.word ++ "[" ++ d.code.text ++ "]: " ++ d.message
    ++ String.join (d.labels.map labelText) ++ String.join (d.notes.map noteText)

end Diagnostic

end TreeLowering
