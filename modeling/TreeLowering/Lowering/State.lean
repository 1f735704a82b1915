import TreeLowering.Lowering.Problem
import TreeLowering.Lowering.Scope
import TreeLowering.Lowering.TypeLowering
set_option autoImplicit false

/-!
# Lowering: the computation that lowers a tree

Lowering a tree threads a state: the names in scope, the position, the problems
met so far.  A defect ends the computation but not the state: what was recorded
until then is kept, and what was set for a part of the tree is put back.
-/

namespace TreeLowering

/-- The form that a position needs a value in. -/
inductive Form where
  /-- The raw platform value. -/
  | raw
  /-- The runtime object. -/
  | boxed
  /-- Whatever the value is. -/
  | asIs
  deriving DecidableEq, Repr, Inhabited

namespace Form

/-- The form of a value that is raw or not. -/
def ofRaw (isRaw : Bool) : Form := if isRaw then .raw else .boxed

/-- The form that a declaration asks for, if it asks for one. -/
def ofDeclared : Option Bool → Form
  | some isRaw => ofRaw isRaw
  | none => .asIs

end Form

/-- How a body yields its result. -/
structure ReturnForm where
  form : Form
  /-- A return without a value yields the absent value. -/
  inCallable : Bool
  deriving DecidableEq, Repr, Inhabited

/-- The state of a lowering. -/
structure LowerState where
  names : NameScope
  /-- The flag of the innermost loop with another branch. -/
  loopGuard : Option String
  /-- Position of what is being lowered. -/
  span : Span
  /-- Problems met, oldest first. -/
  problems : List Problem
  returns : Option ReturnForm
  /-- The form that each local is kept in, the latest first. -/
  locals : List (String × Form)
  /-- Declaration names asked for. -/
  table : NameTable
  deriving Repr

namespace LowerState

/-- The state before anything is lowered, given the names asked for earlier. -/
def start (table : NameTable) : LowerState := ⟨.new, none, .dummy, [], none, [], table⟩

instance : Inhabited LowerState := ⟨start .empty⟩

/-- Forgets all but the names asked for. -/
def reset (s : LowerState) : LowerState := start s.table

/-- Records a problem. -/
def addProblem (s : LowerState) (p : Problem) : LowerState :=
  { s with problems := s.problems ++ [p] }

/-- Records what a type lowering noted. -/
def addNote (s : LowerState) : Note → LowerState
  | .missingArgument owner param => s.addProblem ⟨.missingTypeArgument owner param, s.span⟩
  | .named d spelling => { s with table := s.table.record d spelling }

/-- Records all that a type lowering noted. -/
def addNotes (s : LowerState) (notes : List Note) : LowerState := notes.foldl addNote s

end LowerState

/-- A computation over the state that a defect can end. -/
abbrev Lowering : Type → Type := ExceptT LowerError (StateM LowerState)

namespace Lowering

variable {α : Type}

/-- Runs a computation from a state. -/
def runFrom (x : Lowering α) (s : LowerState) : Except LowerError α × LowerState := x.run.run s

/-- A computation from what it does to a state. -/
def ofRun (f : LowerState → Except LowerError α × LowerState) : Lowering α := ExceptT.mk f

theorem runFrom_ofRun (f : LowerState → Except LowerError α × LowerState) (s : LowerState) :
    (ofRun f).runFrom s = f s := rfl

/-- Lowers a type as part of a tree. -/
def ofType (x : TypeLowering α) : Lowering α :=
  ofRun fun s =>
    match x with
    | none => (.error .endlessType, s)
    | some (a, notes) => (.ok a, s.addNotes notes)

instance : MonadLift TypeLowering Lowering := ⟨ofType⟩

/-- Reads from the state. -/
def reads (f : LowerState → α) : Lowering α := ofRun fun s => (.ok (f s), s)

/-- Changes the state. -/
def change (f : LowerState → LowerState) : Lowering Unit := ofRun fun s => (.ok (), f s)

/-- Ends the computation. -/
def fail (e : LowerError) : Lowering α := ofRun fun s => (.error e, s)

/-- Records a problem at a position. -/
def problemAt (span : Span) (kind : ProblemKind) : Lowering Unit :=
  change (·.addProblem ⟨kind, span⟩)

/-- Records a problem at the current position. -/
def problem (kind : ProblemKind) : Lowering Unit :=
  change fun s => s.addProblem ⟨kind, s.span⟩

/-- Moves to a position. -/
def moveTo (span : Span) : Lowering Unit := change fun s => { s with span := span }

/-- A new synthetic name. -/
def fresh (base : String) : Lowering String :=
  ofRun fun s =>
    let drawn := s.names.fresh base
    (.ok drawn.1, { s with names := drawn.2 })

/-- What a source name stands for. -/
def resolve (name : String) : Lowering String := reads (·.names.resolve name)

/-- Remembers the form that a local is kept in. -/
def keepLocal (name : String) (form : Form) : Lowering Unit :=
  change fun s => { s with locals := (name, form) :: s.locals }

/-- The form that a local is kept in, if it was declared. -/
def localForm? (name : String) : Lowering (Option Form) := reads (·.locals.lookup name)

/-! ## What is set for a part of the tree -/

/-- Runs with a loop guard, or with none, and puts the guard back. -/
def withLoopGuard (guard : Option String) (x : Lowering α) : Lowering α :=
  ofRun fun s =>
    let out := x.runFrom { s with loopGuard := guard }
    (out.1, { out.2 with loopGuard := s.loopGuard })

/-- Runs with a way to return, and puts the way back. -/
def withReturns (returns : ReturnForm) (x : Lowering α) : Lowering α :=
  ofRun fun s =>
    let out := x.runFrom { s with returns := some returns }
    (out.1, { out.2 with returns := s.returns })

/-- Runs while a source name stands for another one, and restores what it stood
for. -/
def withReplacement (name other : String) (x : Lowering α) : Lowering α :=
  ofRun fun s =>
    let replaced := s.names.replace name other
    let out := x.runFrom { s with names := replaced.2 }
    (out.1, { out.2 with names := out.2.names.restore name replaced.1 })

end Lowering

end TreeLowering
