import TreeLowering.Proofs.Composition
import TreeLowering.Proofs.Reporting
import TreeLowering.Proofs.Yield
set_option autoImplicit false

/-!
# Proofs: functions are lowered in isolation

From one function to the next a backend keeps its diagnostics and the
declaration names that it was asked for.  Among types and texts no step of a
lowering looks at either, so a function is lowered after others as it is lowered
alone: with the same method or defect, and with the same problems.
-/

namespace TreeLowering

/-! ## States that differ in what was met before -/

namespace LowerState

/-- The state with other problems before its own, and with other declaration names
asked for. -/
def afterOthers (s : LowerState) (problems : List Problem) (table : NameTable) : LowerState :=
  { s with problems := problems ++ s.problems, table := table }

theorem addProblem_afterOthers (s : LowerState) (problems : List Problem) (table : NameTable)
    (p : Problem) :
    (s.afterOthers problems table).addProblem p = (s.addProblem p).afterOthers problems table := by
  simp only [addProblem, afterOthers, List.append_assoc]

theorem addNote_afterOthers (s : LowerState) (problems : List Problem) (table : NameTable)
    (n : Note) :
    ∃ table', (s.afterOthers problems table).addNote n =
      (s.addNote n).afterOthers problems table' := by
  cases n with
  | missingArgument owner param => exact ⟨table, s.addProblem_afterOthers problems table _⟩
  | named d spelling => exact ⟨table.record d spelling, rfl⟩

theorem addNotes_afterOthers (s : LowerState) (problems : List Problem) (table : NameTable)
    (notes : List Note) :
    ∃ table', (s.afterOthers problems table).addNotes notes =
      (s.addNotes notes).afterOthers problems table' := by
  induction notes generalizing s table with
  | nil => exact ⟨table, rfl⟩
  | cons n ns ih =>
    obtain ⟨table', hfirst⟩ := s.addNote_afterOthers problems table n
    obtain ⟨table'', hrest⟩ := ih (s.addNote n) table'
    refine ⟨table'', ?_⟩
    show ((s.afterOthers problems table).addNote n).addNotes ns = _
    rw [hfirst]
    exact hrest

end LowerState

namespace Lowering

variable {α β : Type}

/-- From a state with other problems before its own, and with other declaration names
asked for, the computation ends alike, and in the same state but for these. -/
def Isolated (x : Lowering α) : Prop :=
  ∀ (s : LowerState) (problems : List Problem) (table : NameTable), ∃ table',
    x.runFrom (s.afterOthers problems table) =
      ((x.runFrom s).1, (x.runFrom s).2.afterOthers problems table')

namespace Isolated

theorem bind {x : Lowering α} {f : α → Lowering β} (hx : Isolated x)
    (hf : ∀ a, Isolated (f a)) : Isolated (x >>= f) := by
  intro s problems table
  obtain ⟨table', hfirst⟩ := hx s problems table
  rw [runFrom_bind, runFrom_bind, hfirst]
  cases hrun : x.runFrom s with
  | mk r t =>
    cases r with
    | error e => exact ⟨table', rfl⟩
    | ok a => exact hf a t problems table'

theorem ofType (x : TypeLowering α) : Isolated (liftM x) := by
  intro s problems table
  cases x with
  | none => exact ⟨table, rfl⟩
  | some p =>
    obtain ⟨table', hnotes⟩ := s.addNotes_afterOthers problems table p.2
    exact ⟨table', congrArg (Prod.mk _) hnotes⟩

theorem withLoopGuard (guard : Option String) {x : Lowering α} (hx : Isolated x) :
    Isolated (Lowering.withLoopGuard guard x) := by
  intro s problems table
  obtain ⟨table', hinside⟩ := hx { s with loopGuard := guard } problems table
  refine ⟨table', ?_⟩
  simp only [LowerState.afterOthers] at hinside ⊢
  simp only [Lowering.withLoopGuard, runFrom_ofRun, hinside]

theorem withReturns (returns : ReturnForm) {x : Lowering α} (hx : Isolated x) :
    Isolated (Lowering.withReturns returns x) := by
  intro s problems table
  obtain ⟨table', hinside⟩ := hx { s with returns := some returns } problems table
  refine ⟨table', ?_⟩
  simp only [LowerState.afterOthers] at hinside ⊢
  simp only [Lowering.withReturns, runFrom_ofRun, hinside]

theorem withReplacement (name other : String) {x : Lowering α} (hx : Isolated x) :
    Isolated (Lowering.withReplacement name other x) := by
  intro s problems table
  obtain ⟨table', hinside⟩ :=
    hx { s with names := (s.names.replace name other).2 } problems table
  refine ⟨table', ?_⟩
  simp only [LowerState.afterOthers] at hinside ⊢
  simp only [Lowering.withReplacement, runFrom_ofRun, hinside]

end Isolated

/-- No step of a lowering looks at the problems met or at the names asked for, so nothing
that is put together from them does. -/
theorem Composed.isolated {moves reports : Prop} {x : Lowering α}
    (h : Composed moves reports x) : Isolated x := by
  induction h with
  | pure _ | fail _ | requireSubject _ => exact fun _ _ table => ⟨table, rfl⟩
  | problemAt _ _ _ =>
    exact fun s problems table =>
      ⟨table, congrArg (Prod.mk _) (s.addProblem_afterOthers problems table _)⟩
  | moveTo _ _ | keepLocal _ _ | fresh _ => exact fun _ _ table => ⟨table, rfl⟩
  | bind _ _ hx hf => exact hx.bind hf
  | ofType x => exact .ofType x
  | reads f hf =>
    intro s problems table
    exact ⟨table, congrArg (fun a => (Except.ok a, s.afterOthers problems table)) (hf s _ table)⟩
  | withLoopGuard guard _ hx => exact hx.withLoopGuard guard
  | withReturns returns _ hx => exact hx.withReturns returns
  | withReplacement name other _ hx => exact hx.withReplacement name other

end Lowering

/-! ## Functions after other functions -/

/-- A function is lowered alike whatever names were asked for before. -/
theorem Env.lowerAlone_isolated (env : Env) (table table' : NameTable) (f : Tree.Function) :
    (env.lowerAlone table f).outcome = (env.lowerAlone table' f).outcome ∧
      (env.lowerAlone table f).problems = (env.lowerAlone table' f).problems := by
  obtain ⟨names, hrun⟩ := (env.lowerFunction_composed f (env.model.resultType f.decl)).isolated
    (.start table') [] table
  have hstart : (LowerState.start table').afterOthers [] table = .start table := rfl
  rw [hstart] at hrun
  unfold lowerAlone
  rw [hrun]
  exact ⟨rfl, rfl⟩

namespace Backend

/-- Functions lowered after each other yield what each of them yields from any
backend for the same program. -/
theorem lowerings_eq_map {β : Type} (b b' : Backend) (henv : b.env = b'.env)
    (view : Except LowerError Target.Method → List Problem → β) (fs : List Tree.Function) :
    (b.lowerings fs).map (fun x => view x.outcome x.problems) =
      fs.map (fun f => view (b'.env.lowerAlone b'.table f).outcome
        (b'.env.lowerAlone b'.table f).problems) := by
  induction fs generalizing b with
  | nil => rfl
  | cons f fs ih =>
    obtain ⟨houtcome, hproblems⟩ := b'.env.lowerAlone_isolated b.table b'.table f
    have hrest := ih (b.lowerFunction f).2 henv
    simp only [lowerings, List.map_cons, hrest, henv, houtcome, hproblems]

theorem env_lowerEach (b : Backend) (fs : List Tree.Function) :
    (b.lowerEach fs).2.env = b.env := by
  induction fs generalizing b with
  | nil => rfl
  | cons f fs ih => exact ih (b.lowerFunction f).2

end Backend

end TreeLowering
