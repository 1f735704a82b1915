import TreeLowering.Proofs.Composition
import TreeLowering.Proofs.Yield
set_option autoImplicit false

/-!
# Proofs: what a lowering leaves behind

Five places of the lowering set something for a part of the tree: a while loop
hides the guard of the loop around it, a for loop sets its own, a narrowed
block replaces a name, and the two kinds of function bodies set how to return.
Whatever the tree, and whether or not a defect ends the lowering halfway, all
of it is put back: afterwards the state differs in the position, in locals and
names asked for, in problems added at the end, and in synthetic numbers drawn.
-/

namespace TreeLowering

namespace LowerState

/-- One state comes after another, as after the lowering of a whole tree: what
was set for its parts is put back, and problems are only added at the end. -/
structure Restores (s s' : LowerState) : Prop extends Follows s s' where
  returns : s'.returns = s.returns
  problems : s.problems <+: s'.problems

namespace Restores

theorem refl (s : LowerState) : s.Restores s := ⟨.refl s, rfl, List.prefix_refl _⟩

theorem trans {s t u : LowerState} (h : s.Restores t) (h' : t.Restores u) : s.Restores u :=
  ⟨h.toFollows.trans h'.toFollows, h'.returns.trans h.returns, h.problems.trans h'.problems⟩

theorem addProblem (s : LowerState) (p : Problem) : s.Restores (s.addProblem p) :=
  ⟨.of_eq rfl rfl, rfl, List.prefix_append _ _⟩

theorem addNote (s : LowerState) : ∀ n : Note, s.Restores (s.addNote n)
  | .missingArgument _ _ => addProblem s _
  | .named _ _ => ⟨.of_eq rfl rfl, rfl, List.prefix_refl _⟩

theorem addNotes (s : LowerState) (notes : List Note) : s.Restores (s.addNotes notes) := by
  induction notes generalizing s with
  | nil => exact .refl s
  | cons n ns ih => exact (addNote s n).trans (ih (s.addNote n))

end Restores

end LowerState

namespace Lowering

variable {α β : Type}

/-! ## Computations that restore the state -/

/-- The computation restores whatever state it starts from, also where a defect
ends it. -/
def Restoring (x : Lowering α) : Prop := ∀ s : LowerState, s.Restores (x.runFrom s).2

namespace Restoring

theorem pure (a : α) : Restoring (Pure.pure a : Lowering α) := fun s => .refl s

theorem bind {x : Lowering α} {f : α → Lowering β} (hx : Restoring x)
    (hf : ∀ a, Restoring (f a)) : Restoring (x >>= f) := by
  intro s
  have hfirst := hx s
  rw [runFrom_bind]
  cases hrun : x.runFrom s with
  | mk r t =>
    rw [hrun] at hfirst
    cases r with
    | error e => exact hfirst
    | ok a => exact hfirst.trans (hf a t)

theorem ofType (x : TypeLowering α) : Restoring (liftM x) := by
  intro s
  cases x with
  | none => exact .refl s
  | some p => exact .addNotes s p.2

/-! ## What is set for a part of the tree -/

theorem withLoopGuard (guard : Option String) {x : Lowering α} (hx : Restoring x) :
    Restoring (Lowering.withLoopGuard guard x) := by
  intro s
  have h := hx { s with loopGuard := guard }
  exact ⟨h.toFollows.withLoopGuard, h.returns, h.problems⟩

theorem withReturns (returns : ReturnForm) {x : Lowering α} (hx : Restoring x) :
    Restoring (Lowering.withReturns returns x) := by
  intro s
  have h := hx { s with returns := some returns }
  exact ⟨⟨h.find, h.next, h.guard⟩, rfl, h.problems⟩

theorem withReplacement (name other : String) {x : Lowering α} (hx : Restoring x) :
    Restoring (Lowering.withReplacement name other x) := by
  intro s
  have h := hx { s with names := (s.names.replace name other).2 }
  exact ⟨h.toFollows.withReplacement, h.returns, h.problems⟩

end Restoring

/-- Every step of a lowering restores the state, so what is put together from
them does. -/
theorem Composed.restoring {x : Lowering α} (h : Composed True True x) : Restoring x := by
  induction h with
  | pure a => exact .pure a
  | bind _ _ hx hf => exact hx.bind hf
  | ofType x => exact .ofType x
  | reads _ _ | fail _ | requireSubject _ => exact fun s => .refl s
  | problemAt _ _ _ => exact fun s => .addProblem s _
  | moveTo _ _ | keepLocal _ _ => exact fun _ => ⟨.of_eq rfl rfl, rfl, List.prefix_refl _⟩
  | fresh _ => exact fun _ => ⟨⟨fun _ => rfl, Nat.le_succ _, rfl⟩, rfl, List.prefix_refl _⟩
  | withLoopGuard guard _ hx => exact hx.withLoopGuard guard
  | withReturns returns _ hx => exact hx.withReturns returns
  | withReplacement name other _ hx => exact hx.withReplacement name other

end Lowering

namespace Env

open Lowering

variable (env : Env)

/-! ## Every tree -/

theorem lowerExpr_restoring (e : Tree.Expr) (form : Form) : Restoring (env.lowerExpr e form) :=
  (env.lowerExpr_composed e form).restoring

theorem lowerStmt_restoring (stmt : Tree.Stmt) : Restoring (env.lowerStmt stmt) :=
  (env.lowerStmt_composed stmt).restoring

theorem lowerStmts_restoring (body : List Tree.Stmt) : Restoring (env.lowerStmts body) :=
  (env.lowerStmts_composed body).restoring

theorem lowerFunction_restoring (f : Tree.Function) (result : Ty) :
    Restoring (env.lowerFunction f result) :=
  (env.lowerFunction_composed f result).restoring

/-- From every state, lowering a statement, a block, an expression or a
function restores the state, whether it ends with a result or with a defect:
every source name stands for what it stood for, the loop guard and the way to
return are the same, the problems are the old ones with others after them, and
the synthetic numbers have not gone back. -/
theorem lowering_restores_state (s : LowerState) :
    (∀ stmt, s.Restores ((env.lowerStmt stmt).runFrom s).2) ∧
      (∀ body, s.Restores ((env.lowerStmts body).runFrom s).2) ∧
        (∀ e form, s.Restores ((env.lowerExpr e form).runFrom s).2) ∧
          ∀ f result, s.Restores ((env.lowerFunction f result).runFrom s).2 :=
  ⟨fun stmt => env.lowerStmt_restoring stmt s, fun body => env.lowerStmts_restoring body s,
    fun e form => env.lowerExpr_restoring e form s,
    fun f result => env.lowerFunction_restoring f result s⟩

end Env

end TreeLowering
