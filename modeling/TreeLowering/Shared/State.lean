import TreeLowering.Lowering.InternedScope
import TreeLowering.Lowering.State
import TreeLowering.Shared.Query
set_option autoImplicit false

/-!
# Shared tables: the computation that lowers

Lowering threads the tables, the cache of declaration names and what belongs to
one declaration: its name scope, the position, the problems met so far.  The
tables and the cache are handed on to the next declaration, and the rest is not.
-/

namespace TreeLowering.Shared

/-- The names of declarations rendered so far, at most one for each spelling. -/
abbrev NameCache : Type := List ((DeclId × Spelling) × Name)

/-- What is odd about a program. -/
inductive ProblemKind where
  /-- A generic type has fewer arguments than its declaration has parameters. -/
  | missingTypeArgument (ty : TypeIdx) (param : Name)
  /-- A loop runs over something that is not iterable. -/
  | notIterable (ty : TypeIdx)
  /-- A declaration that is not a function is used as one. -/
  | notAFunction
  deriving DecidableEq, Repr, Inhabited

/-- A problem and where it was met. -/
structure Problem where
  kind : ProblemKind
  span : Span
  deriving DecidableEq, Repr, Inhabited

/-- The state of a lowering. -/
structure State where
  tables : Tables
  cache : NameCache
  scope : InternedScope
  /-- The flag of the innermost loop with another branch. -/
  loopGuard : Option Name
  /-- Position of what is being lowered. -/
  span : Span
  /-- Problems met, oldest first. -/
  problems : List Problem
  returns : Option ReturnForm
  /-- The form that each local is kept in, the latest first. -/
  locals : List (Name × Form)
  deriving Repr

namespace State

/-- The state before a declaration is lowered. -/
def start (tables : Tables) (cache : NameCache) : State :=
  ⟨tables, cache, .new, none, .dummy, [], none, []⟩

/-- Records a problem. -/
def addProblem (s : State) (p : Problem) : State := { s with problems := s.problems ++ [p] }

end State

/-- A computation over the state that a defect can end, or that comes to no end. -/
abbrev Lowering (α : Type) : Type := ExceptT LowerError (StateT State (Except Halt)) α

namespace Lowering

variable {α : Type}

/-- Runs a computation from a state. -/
def runFrom (x : Lowering α) (s : State) : Except Halt (Except LowerError α × State) :=
  x.run.run s

/-- A computation from what it does to a state. -/
def ofRun (f : State → Except Halt (Except LowerError α × State)) : Lowering α := ExceptT.mk f

/-- Reads the tables and adds to them. -/
def ofTables (x : Tabled α) : Lowering α :=
  ofRun fun s =>
    match x s.tables with
    | .error h => .error h
    | .ok (a, t) => .ok (.ok a, { s with tables := t })

instance : MonadLift Tabled Lowering := ⟨ofTables⟩

/-- Comes to no end. -/
def halt (h : Halt) : Lowering α := ofRun fun _ => .error h

/-- Reads from the state. -/
def reads (f : State → α) : Lowering α := ofRun fun s => .ok (.ok (f s), s)

/-- Changes the state. -/
def change (f : State → State) : Lowering Unit := ofRun fun s => .ok (.ok (), f s)

/-- Ends the computation. -/
def fail (e : LowerError) : Lowering α := ofRun fun s => .ok (.error e, s)

/-- Records a problem at a position. -/
def problemAt (span : Span) (kind : ProblemKind) : Lowering Unit :=
  change (·.addProblem ⟨kind, span⟩)

/-- Records a problem at the current position. -/
def problem (kind : ProblemKind) : Lowering Unit := change fun s => s.addProblem ⟨kind, s.span⟩

/-- Moves to a position. -/
def moveTo (span : Span) : Lowering Unit := change fun s => { s with span := span }

/-- A new synthetic name. -/
def fresh (base : String) : Lowering Name :=
  ofRun fun s =>
    match s.scope.fresh s.tables.names base with
    | (.error _, _, names) => .error (.full { s.tables with names := names })
    | (.ok n, scope, names) =>
      .ok (.ok n, { s with scope := scope, tables := { s.tables with names := names } })

/-- A new synthetic name for a source name. -/
def freshFor (source : Name) : Lowering Name := do
  let base ← Tabled.textOf source
  fresh base

/-- What a source name stands for. -/
def resolve (name : Name) : Lowering Name := reads (·.scope.resolve name)

/-- Remembers the form that a local is kept in. -/
def keepLocal (name : Name) (form : Form) : Lowering Unit :=
  change fun s => { s with locals := (name, form) :: s.locals }

/-- The form that a local is kept in, if it was declared. -/
def localForm? (name : Name) : Lowering (Option Form) := reads (·.locals.lookup name)

/-- The name of a declaration: the one rendered before, else a new one. -/
def declName (m : Model) (d : DeclId) (s : Spelling) : Lowering Name := do
  match ← reads (·.cache.lookup (d, s)) with
  | some known => pure known
  | none => do
    let text ← m.render d s
    let name ← Tabled.intern text
    change fun st => { st with cache := ((d, s), name) :: st.cache }
    pure name

/-! ## What is set for a part of the tree -/

/-- Runs in a changed state, and puts back what was changed. -/
def within (enter : State → State) (leave : State → State → State) (x : Lowering α) : Lowering α :=
  ofRun fun s => do
    let out ← x.runFrom (enter s)
    pure (out.1, leave s out.2)

/-- Runs with a loop guard, or with none, and puts the guard back. -/
def withLoopGuard (guard : Option Name) (x : Lowering α) : Lowering α :=
  within (fun s => { s with loopGuard := guard }) (fun s t => { t with loopGuard := s.loopGuard }) x

/-- Runs with a way to return, and puts the way back. -/
def withReturns (returns : ReturnForm) (x : Lowering α) : Lowering α :=
  within (fun s => { s with returns := some returns })
    (fun s t => { t with returns := s.returns }) x

/-- Runs while a source name stands for another one, and restores what it stood
for. -/
def withReplacement (name other : Name) (x : Lowering α) : Lowering α :=
  within (fun s => { s with scope := (s.scope.replace name other).2 })
    (fun s t => { t with scope := t.scope.restore name (s.scope.replace name other).1 }) x

end Lowering

/-- What does not change while a program is lowered. -/
structure Env where
  model : Model
  config : Config
  /-- Depth to which type arguments may nest. -/
  depth : Nat
  /-- The order in which a hash map goes through arguments. -/
  order : PoolSubst → PoolSubst

end TreeLowering.Shared
