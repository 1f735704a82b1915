import TreeLowering.Lowering.Method
set_option autoImplicit false

/-!
# Proofs: the steps of a lowering

Whatever the tree, its lowering is put together from a few steps: it lowers
types, reads and changes parts of the state, draws names, records problems,
sets something for a part of the tree, or ends with a defect.  A property that
every step has, and that is kept when one computation follows another, is a
property of the lowering of every tree.
-/

namespace TreeLowering

namespace Lowering

/-- The computation is put together from the steps of a lowering.  Whether it may
move to another position, and whether it may report a problem at a position of its
own, is said by `moves` and `reports`. -/
inductive Composed (moves reports : Prop) : {α : Type} → Lowering α → Prop where
  | pure {α : Type} (a : α) : Composed moves reports (Pure.pure a : Lowering α)
  | bind {α β : Type} {x : Lowering α} {f : α → Lowering β} (hx : Composed moves reports x)
    (hf : ∀ a, Composed moves reports (f a)) : Composed moves reports (x >>= f)
  | ofType {α : Type} (x : TypeLowering α) : Composed moves reports (liftM x : Lowering α)
  /-- What is read depends neither on the problems met nor on the declaration names asked
  for. -/
  | reads {α : Type} (f : LowerState → α)
    (hf : ∀ s problems table, f { s with problems := problems, table := table } = f s) :
    Composed moves reports (Lowering.reads f)
  | fail {α : Type} (e : LowerError) : Composed moves reports (Lowering.fail e : Lowering α)
  | requireSubject (name : String) : Composed moves reports (Env.requireSubject name)
  | problemAt (h : reports) (span : Span) (kind : ProblemKind) :
    Composed moves reports (Lowering.problemAt span kind)
  | moveTo (h : moves) (span : Span) : Composed moves reports (Lowering.moveTo span)
  | keepLocal (name : String) (form : Form) :
    Composed moves reports (Lowering.keepLocal name form)
  | fresh (base : String) : Composed moves reports (Lowering.fresh base)
  | withLoopGuard {α : Type} (guard : Option String) {x : Lowering α}
    (hx : Composed moves reports x) : Composed moves reports (Lowering.withLoopGuard guard x)
  | withReturns {α : Type} (returns : ReturnForm) {x : Lowering α}
    (hx : Composed moves reports x) : Composed moves reports (Lowering.withReturns returns x)
  | withReplacement {α : Type} (name other : String) {x : Lowering α}
    (hx : Composed moves reports x) :
    Composed moves reports (Lowering.withReplacement name other x)

namespace Composed

variable {α β : Type} {moves reports : Prop}

theorem map (f : α → β) {x : Lowering α} (hx : Composed moves reports x) :
    Composed moves reports (f <$> x) := by
  rw [map_eq_pure_bind]
  exact hx.bind fun a => pure (f a)

end Composed

end Lowering

namespace Env

open Lowering Target

variable {moves reports : Prop} (env : Env)

/-! ## Conversions and type tests -/

theorem unboxOptionalString_composed (e : Expr) :
    Composed moves reports (env.unboxOptionalString e) := by
  unfold unboxOptionalString
  split
  · exact .pure _
  · exact (Composed.fresh _).bind fun _ => (Composed.ofType _).bind fun _ => .pure _

theorem unboxValue_composed (e : Expr) (t : Ty) : Composed moves reports (env.unboxValue e t) := by
  unfold unboxValue
  split
  · exact .pure _
  · split
    · exact .pure _
    · split
      · exact env.unboxOptionalString_composed e
      · exact .pure _

theorem convert_composed (e : Expr) (isBoxed : Bool) (t : Ty) :
    ∀ form : Form, Composed moves reports (env.convert e isBoxed t form)
  | .asIs => .pure e
  | .boxed => by
    simp only [convert]
    split
    · exact .pure e
    · exact .ofType _
  | .raw => by
    simp only [convert]
    split
    · exact env.unboxValue_composed e t
    · exact .pure e

theorem leafTest_composed (raw : String) (t : Ty) :
    Composed moves reports (env.leafTest raw t) := by
  unfold leafTest
  extract_lets subject plain
  split
  · exact (Composed.fresh _).bind fun _ => .pure _
  · -- Each of the other tests is an expression over the binding, or names a class.
    repeat' split
    all_goals first
      | exact .pure _
      | exact (Composed.ofType _).bind fun _ => .pure _

mutual

theorem typeTest_composed (raw : String) :
    ∀ t : Ty, Composed moves reports (env.typeTest raw t)
  | .union cases | .inter cases => by
    simp only [typeTest]
    exact (typeTests_composed raw cases).bind fun _ => .pure _
  | .bottom => by
    simp only [typeTest]
    exact .pure _
  | .nominal _ _ _ _ | .param _ | .error => by
    simp only [typeTest]
    exact env.leafTest_composed raw _

theorem typeTests_composed (raw : String) :
    ∀ ts : List Ty, Composed moves reports (env.typeTests raw ts)
  | [] => by
    simp only [typeTests]
    exact .pure _
  | t :: ts => by
    simp only [typeTests]
    exact (typeTest_composed raw t).bind fun _ =>
      (typeTests_composed raw ts).bind fun _ => .pure _

end

/-! ## Function values -/

theorem unpickArgument_composed (p : Parameter) (position arity : Nat) :
    Composed moves reports (env.unpickArgument p position arity) :=
  (Composed.ofType _).bind fun _ => env.convert_composed _ _ _ _

theorem unpickArguments_composed (arity : Nat) (ps : List Parameter) :
    ∀ position, Composed moves reports (env.unpickArguments arity position ps) := by
  induction ps with
  | nil => exact fun _ => .pure _
  | cons p ps ih =>
    intro position
    exact (env.unpickArgument_composed p position arity).bind fun _ =>
      (ih (position + 1)).bind fun _ => .pure _

theorem unpickLocals_composed (arity : Nat) (ps : List Parameter) :
    ∀ position, Composed moves reports (env.unpickLocals arity position ps) := by
  induction ps with
  | nil => exact fun _ => .pure _
  | cons p ps ih =>
    intro position
    exact (env.unpickArgument_composed p position arity).bind fun _ =>
      (Composed.ofType _).bind fun _ => (ih (position + 1)).bind fun _ => .pure _

theorem layerCallable_composed (t : Ty) (params : List Parameter) (body : List Stmt) :
    Composed moves reports (env.layerCallable t params body) :=
  (env.unpickLocals_composed _ params 0).bind fun _ => .ofType _

theorem forwardBody_composed (result : Ty) (call : Expr) :
    Composed moves reports (env.forwardBody result call) := by
  unfold forwardBody
  split
  · exact .pure _
  · exact (env.convert_composed _ _ _ _).bind fun _ => .pure _

theorem functionRef_composed (d : DeclId) : Composed moves reports (env.functionRef d) := by
  unfold functionRef
  dsimp only
  split
  · exact .fail _
  · exact (env.unpickArguments_composed _ _ 0).bind fun _ =>
      (env.forwardBody_composed _ _).bind fun _ => .ofType _

/-! ## Expressions -/

theorem referenceTo_composed (d : DeclId) (span : Span) :
    Composed moves True (env.referenceTo d span) := by
  unfold referenceTo
  split
  · exact env.functionRef_composed d
  · exact (Composed.problemAt trivial _ _).bind fun _ => .pure _

theorem deliver_composed (info : Tree.Info) (form : Form) {x : Lowering Natural}
    (hx : Composed moves True x) : Composed moves True (env.deliver info form x) :=
  hx.bind fun _ => env.convert_composed _ _ _ _

theorem sequenceLiteral_composed (t : Ty) (elems : List Expr) (elemTypes : List Ty) :
    Composed moves True (env.sequenceLiteral t elems elemTypes) := by
  unfold sequenceLiteral
  split
  · exact .pure _
  · exact .ofType _

mutual

theorem lowerNatural_composed : ∀ e : Tree.Expr, Composed moves True (env.lowerNatural e)
  | .ident _ _ => by
    simp only [lowerNatural]
    exact (Composed.reads _ fun _ _ _ => rfl).bind fun _ => .pure _
  | .integer _ _ | .float _ _ | .string _ _ | .character _ _ | .boolean _ _ | .absent _ => by
    simp only [lowerNatural]
    exact .pure _
  | .member _ receiver _ => by
    simp only [lowerNatural]
    exact (env.deliver_composed _ _ (lowerNatural_composed receiver)).bind fun _ => .pure _
  | .call _ receiver _ args => by
    simp only [lowerNatural]
    exact (lowerArgs_composed args _).bind fun _ =>
      (lowerReceiver_composed receiver).bind fun _ => .pure _
  | .binary _ _ lhs rhs => by
    simp only [lowerNatural]
    exact (env.deliver_composed _ _ (lowerNatural_composed lhs)).bind fun _ =>
      (env.deliver_composed _ _ (lowerNatural_composed rhs)).bind fun _ => .pure _
  | .not _ operand => by
    simp only [lowerNatural]
    exact (env.deliver_composed _ _ (lowerNatural_composed operand)).bind fun _ => .pure _
  | .sequence _ elems => by
    simp only [lowerNatural]
    exact (lowerArgs_composed elems []).bind fun _ =>
      (env.sequenceLiteral_composed _ _ _).bind fun _ => .pure _
  | .functionRef _ function => by
    simp only [lowerNatural]
    exact (env.referenceTo_composed function _).bind fun _ => .pure _

theorem lowerArgs_composed :
    ∀ (es : List Tree.Expr) (params : List Parameter), Composed moves True (env.lowerArgs params es)
  | [], _ => by
    simp only [lowerArgs]
    exact .pure _
  | e :: es, params => by
    simp only [lowerArgs]
    exact (env.deliver_composed _ _ (lowerNatural_composed e)).bind fun _ =>
      (lowerArgs_composed es params.tail).bind fun _ => .pure _

theorem lowerReceiver_composed :
    ∀ receiver : Option Tree.Expr, Composed moves True (env.lowerReceiver receiver)
  | none => by
    simp only [lowerReceiver]
    exact .pure _
  | some e => by
    simp only [lowerReceiver]
    exact (env.deliver_composed _ _ (lowerNatural_composed e)).bind fun _ => .pure _

end

theorem lowerExpr_composed (e : Tree.Expr) (form : Form) :
    Composed moves True (env.lowerExpr e form) :=
  env.deliver_composed _ _ (env.lowerNatural_composed e)

/-! ## Conditions and loops -/

theorem rawSubject_composed (source : String) (subject : Tree.Expr) :
    Composed moves True (env.rawSubject source subject) :=
  (Composed.fresh _).bind fun _ => (Composed.ofType _).bind fun _ =>
    (env.lowerExpr_composed _ _).bind fun _ => .pure _

theorem narrow_composed (raw source : String) (t : Ty) :
    Composed moves True (env.narrow raw source t) := by
  refine (Composed.fresh _).bind fun _ => (Composed.ofType _).bind fun _ =>
    (Composed.ofType _).bind fun form => ?_
  cases form with
  | raw =>
    exact (Composed.ofType _).bind fun _ => (env.unboxValue_composed _ _).bind fun _ => .pure _
  | boxed | asIs => exact .pure _

theorem lowerCondition_composed (c : Tree.Condition) :
    Composed moves True (env.lowerCondition c) := by
  cases c with
  | test e => exact (env.lowerExpr_composed e _).bind fun _ => .pure _
  | present e => exact (env.lowerExpr_composed e _).bind fun _ => .pure _
  | presentAs var e =>
    exact (env.rawSubject_composed _ _).bind fun _ =>
      (env.narrow_composed _ _ _).bind fun _ => .pure _
  | isOf name ty e =>
    exact (Composed.requireSubject name).bind fun _ => (env.rawSubject_composed _ _).bind fun _ =>
      (env.typeTest_composed _ _).bind fun _ => (env.narrow_composed _ _ _).bind fun _ => .pure _
  | nonempty var e =>
    exact (env.rawSubject_composed _ _).bind fun _ => (Composed.ofType _).bind fun _ =>
      (env.narrow_composed _ _ _).bind fun _ => .pure _

theorem guarded_composed (narrowed : Option Narrowed) {block : Lowering (List Stmt)}
    (hblock : Composed moves True block) : Composed moves True (guarded narrowed block) := by
  cases narrowed with
  | none => exact hblock
  | some n => exact (hblock.withReplacement n.source n.synthetic).bind fun _ => .pure _

theorem loopGuard_composed (needed : Bool) : Composed moves True (loopGuard needed) := by
  unfold loopGuard
  split
  · exact (Composed.fresh _).bind fun _ => .pure _
  · exact .pure _

theorem elementFound_composed (subject : Tree.Expr) (element : Option Ty) :
    Composed moves True (elementFound subject element) := by
  cases element with
  | none => exact (Composed.problemAt trivial _ _).bind fun _ => .pure _
  | some element => exact .pure _

theorem bindElement_composed (var : Tree.Variable) (value : Expr) (t : Ty) :
    Composed moves True (env.bindElement var value t) := by
  have hbind : ∀ seen, Composed moves True (do
      let form ← env.valueForm var.ty
      let init ← env.convert seen true var.ty form
      let ty ← env.lowerType var.ty .plain
      pure (Stmt.declareFinal var.name ty init)) := fun _ =>
    (Composed.ofType _).bind fun _ => (env.convert_composed _ _ _ _).bind fun _ =>
      (Composed.ofType _).bind fun _ => .pure _
  unfold bindElement
  split
  · exact (Composed.pure _).bind hbind
  · exact (Composed.ofType _).bind fun _ => (Composed.pure _).bind hbind

theorem bindHead_composed (iterator : String) (element : Ty) (binding : Tree.LoopBinding) :
    Composed moves True (env.bindHead iterator element binding) := by
  cases binding with
  | value var => exact (env.bindElement_composed _ _ _).bind fun _ => .pure _
  | keyItem key item =>
    exact (env.bindElement_composed _ _ _).bind fun _ =>
      (env.bindElement_composed _ _ _).bind fun _ => .pure _

theorem loopHead_composed (binding : Tree.LoopBinding) (subject : Tree.Expr) :
    Composed moves True (env.loopHead binding subject) :=
  (elementFound_composed subject _).bind fun _ => (Composed.fresh _).bind fun _ =>
    (Composed.ofType _).bind fun _ => (env.lowerExpr_composed _ _).bind fun _ =>
      (env.bindHead_composed _ _ _).bind fun _ => .pure _

/-! ## Statements -/

theorem lowerInit_composed (form : Form) (init : Option Tree.Expr) :
    Composed moves True (env.lowerInit form init) := by
  cases init with
  | none => exact .pure _
  | some e => exact (env.lowerExpr_composed e form).map _

theorem declareLocal_composed (var : Tree.Variable) (init : Option Tree.Expr)
    (isVariable : Bool) : Composed moves True (env.declareLocal var init isVariable) :=
  (Composed.ofType _).bind fun _ => (Composed.ofType _).bind fun _ =>
    (env.lowerInit_composed _ init).bind fun _ => (Composed.keepLocal _ _).bind fun _ => .pure _

theorem targetForm_composed (target : String) (t : Ty) :
    Composed moves True (env.targetForm target t) := by
  refine (Composed.reads _ fun _ _ _ => rfl).bind fun kept => ?_
  cases kept with
  | none => exact .ofType _
  | some form => exact .pure form

theorem assignTo_composed (name : String) (e : Tree.Expr) :
    Composed moves True (env.assignTo name e) :=
  (Composed.reads _ fun _ _ _ => rfl).bind fun _ => (env.targetForm_composed _ _).bind fun _ =>
    (env.lowerExpr_composed e _).bind fun _ => .pure _

theorem returnValue_composed (returns : Option ReturnForm) (value : Option Tree.Expr) :
    Composed moves True (env.returnValue returns value) := by
  cases returns <;> cases value
  case none.none => exact .pure _
  case none.some e => exact (env.lowerExpr_composed e _).map _
  case some.none r => exact .pure _
  case some.some r e => exact (env.lowerExpr_composed e _).map _

mutual

theorem lowerStmt_composed : ∀ stmt : Tree.Stmt, Composed True True (env.lowerStmt stmt)
  | .declare span var init isVariable => by
    simp only [lowerStmt]
    exact (Composed.moveTo trivial span).bind fun _ =>
      (env.declareLocal_composed var init isVariable).bind fun _ => .pure _
  | .assign span target value => by
    simp only [lowerStmt]
    exact (Composed.moveTo trivial span).bind fun _ =>
      (env.assignTo_composed target value).bind fun _ => .pure _
  | .eval span e => by
    simp only [lowerStmt]
    exact (Composed.moveTo trivial span).bind fun _ =>
      (env.lowerExpr_composed e _).bind fun _ => .pure _
  | .ret span value => by
    simp only [lowerStmt]
    exact (Composed.moveTo trivial span).bind fun _ =>
      (Composed.reads _ fun _ _ _ => rfl).bind fun _ =>
        (env.returnValue_composed _ value).bind fun _ => .pure _
  | .leave span => by
    simp only [lowerStmt]
    exact (Composed.moveTo trivial span).bind fun _ =>
      (Composed.reads _ fun _ _ _ => rfl).bind fun _ => .pure _
  | .branch span test yes no => by
    simp only [lowerStmt]
    exact (Composed.moveTo trivial span).bind fun _ =>
      (env.lowerCondition_composed test).bind fun _ =>
        (guarded_composed _ (lowerStmts_composed yes)).bind fun _ =>
          (lowerElse_composed no).bind fun _ => .pure _
  | .loop span test body => by
    simp only [lowerStmt]
    -- The condition and the body are both lowered without the guard of a loop around.
    have hinside := (env.lowerCondition_composed test).bind fun c =>
      (guarded_composed c.narrowed (lowerStmts_composed body)).bind fun lowered =>
        Composed.pure (c.loop lowered)
    exact (Composed.moveTo trivial span).bind fun _ =>
      (hinside.withLoopGuard none).bind fun _ => .pure _
  | .each span binding subject body no => by
    simp only [lowerStmt]
    have hinside := (env.loopHead_composed binding subject).bind fun head =>
      (lowerStmts_composed body).bind fun lowered => Composed.pure (head.loop lowered)
    exact (Composed.moveTo trivial span).bind fun _ => (loopGuard_composed _).bind fun guard =>
      (hinside.withLoopGuard guard).bind fun _ => (lowerElse_composed no).bind fun _ => .pure _
  | .block span body => by
    simp only [lowerStmt]
    exact (Composed.moveTo trivial span).bind fun _ =>
      (lowerStmts_composed body).bind fun _ => .pure _

theorem lowerStmts_composed : ∀ body : List Tree.Stmt, Composed True True (env.lowerStmts body)
  | [] => by
    simp only [lowerStmts]
    exact .pure _
  | stmt :: rest => by
    simp only [lowerStmts]
    exact (lowerStmt_composed stmt).bind fun _ => (lowerStmts_composed rest).bind fun _ => .pure _

theorem lowerElse_composed : ∀ no : Option (List Tree.Stmt), Composed True True (env.lowerElse no)
  | none => by
    simp only [lowerElse]
    exact .pure _
  | some body => by
    simp only [lowerElse]
    exact (lowerStmts_composed body).bind fun _ => .pure _

end

/-! ## Functions -/

theorem wrapLayers_composed (result : Ty) (body : List Stmt) (lists : List (List Parameter)) :
    Composed moves reports (env.wrapLayers result body lists) := by
  induction lists with
  | nil => exact .pure _
  | cons list rest ih =>
    exact ih.bind fun _ => (env.layerCallable_composed _ _ _).bind fun _ => .pure _

theorem plainBody_composed (result : Ty) (body : List Tree.Stmt) :
    Composed True True (env.plainBody result body) :=
  (Composed.ofType _).bind fun form =>
    ((env.lowerStmts_composed body).withReturns ⟨form, false⟩).bind fun _ =>
      (Composed.ofType _).bind fun _ => .pure _

theorem curriedBody_composed (result : Ty) (lists : List (List Parameter))
    (body : List Tree.Stmt) : Composed True True (env.curriedBody result lists body) :=
  ((env.lowerStmts_composed body).withReturns ⟨.boxed, true⟩).bind fun _ =>
    (env.wrapLayers_composed _ _ _).bind fun _ => (Composed.ofType _).bind fun _ => .pure _

theorem lowerFunction_composed (f : Tree.Function) (result : Ty) :
    Composed True True (env.lowerFunction f result) := by
  unfold lowerFunction
  dsimp only
  split
  · exact .fail _
  · refine (Composed.moveTo trivial _).bind fun _ => (Composed.ofType _).bind fun _ =>
      (Composed.ofType _).bind fun _ => ?_
    split
    · exact (env.plainBody_composed _ _).bind fun _ => .pure _
    · exact (env.curriedBody_composed _ _ _).bind fun _ => .pure _

end Env

end TreeLowering
