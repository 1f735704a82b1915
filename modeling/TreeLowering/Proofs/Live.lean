import TreeLowering.Proofs.Yield
import TreeLowering.Lowering.Method
set_option autoImplicit false

/-!
# Proofs: live code

The target refuses a statement that control never reaches.  Code is live when in
every list of statements, at whatever depth, control can pass each statement but
the last.  The lists inside of expressions count too: those that a
let-expression runs, and the bodies of anonymous classes.

Whatever the tree, a lowered expression is live.
-/

namespace TreeLowering

/-! ## Live code -/

namespace Target

mutual

/-- Every list of statements in the expression is live. -/
@[simp]
def Expr.live : Expr → Bool
  | .ident _ | .lit _ | .typeRef _ | .classLit _ => true
  | .select e _ | .createArray _ e | .cast _ e | .instanceOf e _ | .not e => e.live
  | .call target _ _ args => valueLive target && exprsLive args
  | .create _ args body => exprsLive args && classLive body
  | .binary _ lhs rhs => lhs.live && rhs.live
  | .assign target value => target.live && value.live
  | .index array position => array.live && position.live
  | .cond test yes no => test.live && yes.live && no.live
  | .letIn stmts value => Stmt.allLive stmts && value.live

/-- Every list of statements in the expression, if there is one, is live. -/
@[simp]
def valueLive : Option Expr → Bool
  | none => true
  | some e => e.live

/-- Every list of statements in the expressions is live. -/
@[simp]
def exprsLive : List Expr → Bool
  | [] => true
  | e :: es => e.live && exprsLive es

/-- The bodies in an anonymous class are live. -/
@[simp]
def classLive : Option (List Method) → Bool
  | none => true
  | some methods => methodsLive methods

/-- The bodies of the methods are live. -/
@[simp]
def methodsLive : List Method → Bool
  | [] => true
  | m :: ms => m.live && methodsLive ms

/-- The body of the method is live. -/
@[simp]
def Method.live : Method → Bool
  | .mk _ _ _ _ _ body => bodyLive body

/-- The list of statements is live, if there is one. -/
@[simp]
def bodyLive : Option (List Stmt) → Bool
  | none => true
  | some body => Stmt.allLive body

/-- Every list of statements in the declaration is live. -/
@[simp]
def VarDecl.live : VarDecl → Bool
  | .mk _ _ _ init => valueLive init

/-- Every list of statements in the declarations is live. -/
@[simp]
def varsLive : List VarDecl → Bool
  | [] => true
  | v :: vs => v.live && varsLive vs

/-- Every list of statements in the statement is live. -/
@[simp]
def Stmt.live : Stmt → Bool
  | .declare var => var.live
  | .exec e => e.live
  | .branch test yes no => test.live && Stmt.allLive yes && bodyLive no
  | .whileLoop test body => test.live && Stmt.allLive body
  | .forLoop init test step body =>
    varsLive init && test.live && exprsLive step && Stmt.allLive body
  | .leave => true
  | .ret value => valueLive value
  | .block body => Stmt.allLive body

/-- Control can pass each of the statements but the last, and so in every list
inside of them. -/
@[simp]
def Stmt.allLive : List Stmt → Bool
  | [] => true
  | s :: ss => (ss.isEmpty || s.completes) && s.live && Stmt.allLive ss

end

theorem Stmt.allComplete_append (ss ts : List Stmt) :
    allComplete (ss ++ ts) = (allComplete ss && allComplete ts) := by
  simp only [allComplete_eq_all, List.all_append]

theorem Stmt.anyBreaksOut_append (ss ts : List Stmt) :
    anyBreaksOut (ss ++ ts) = (anyBreaksOut ss || anyBreaksOut ts) := by
  simp only [anyBreaksOut_eq_any, List.any_append]

/-- Statements after live ones are reached when control can pass these. -/
theorem Stmt.allLive_append (ss ts : List Stmt) :
    allLive (ss ++ ts) = (allLive ss && allLive ts && (ts.isEmpty || allComplete ss)) := by
  induction ss with
  | nil => simp [allComplete]
  | cons s ss ih =>
    have hempty : (ss ++ ts).isEmpty = (ss.isEmpty && ts.isEmpty) := by cases ss <;> rfl
    simp only [List.cons_append, allLive, allComplete, ih, hempty]
    cases ts.isEmpty <;> cases ss.isEmpty <;> cases s.completes <;> cases s.live <;>
      cases allLive ss <;> simp

end Target

namespace Env

open Lowering
open Target (Expr Stmt exprsLive valueLive)

variable (env : Env)

/-! ## Conversions -/

/-- A boxed value is passed to a factory, or run ahead of the absent value. -/
theorem live_of_boxInto {d : DeclId} {typeArgs : List Target.Ty} {e code : Expr}
    (he : e.live = true) (h : (env.boxInto d typeArgs e).answer? = some code) :
    code.live = true := by
  obtain ⟨name, _, hcode⟩ := TypeLowering.answer?_bind.mp h
  cases hcode
  simp [Expr.callStatic, he]

theorem live_of_boxValue {e code : Expr} {t : Ty} (he : e.live = true)
    (h : (env.boxValue e t).answer? = some code) : code.live = true := by
  unfold boxValue at h
  split at h
  · exact env.live_of_boxInto he h
  · split at h
    · obtain ⟨element, _, hcode⟩ := TypeLowering.answer?_bind.mp h
      exact env.live_of_boxInto he hcode
    · split at h
      · cases h
        simp [Expr.null, he]
      · cases h
        exact he

theorem live_get {e : Expr} (he : e.live = true) (method : String) :
    (e.get method).live = true := by
  simp [Expr.get, Expr.callOn, he]

theorem live_unboxString {e : Expr} (he : e.live = true) : (unboxString e).live = true := by
  unfold unboxString
  split
  · exact he
  · exact live_get he _

theorem unboxOptionalString_live {e : Expr} (he : e.live = true) :
    Gives (Expr.live · = true) (env.unboxOptionalString e) := by
  unfold unboxOptionalString
  split
  · exact .pure he
  · refine .after fun tmp => .after fun ty => .pure ?_
    have hvalue : (unboxString (.ident tmp)).live = true := live_unboxString rfl
    simp [Stmt.declareFinal, Expr.null, he, hvalue]

theorem unboxValue_live {e : Expr} (he : e.live = true) (t : Ty) :
    Gives (Expr.live · = true) (env.unboxValue e t) := by
  unfold unboxValue
  split
  · exact .pure (live_unboxString he)
  · split
    · exact .pure (live_get he _)
    · split
      · exact env.unboxOptionalString_live he
      · exact .pure he

/-- A value converted for a position is as live as it was. -/
theorem convert_live {e : Expr} (he : e.live = true) (isBoxed : Bool) (t : Ty) :
    ∀ form : Form, Gives (Expr.live · = true) (env.convert e isBoxed t form)
  | .asIs => .pure he
  | .boxed => by
    simp only [convert]
    split
    · exact .pure he
    · exact .ofType fun _ h => env.live_of_boxValue he h
  | .raw => by
    simp only [convert]
    split
    · exact env.unboxValue_live he t
    · exact .pure he

/-! ## Type tests -/

theorem live_combineTests (op : Target.BinaryOp) {tests : List Expr}
    (h : exprsLive tests = true) : (combineTests op tests).live = true := by
  have hfold : ∀ (tests : List Expr) (first : Expr), first.live = true → exprsLive tests = true →
      (tests.foldl (.binary op) first).live = true := by
    intro tests
    induction tests with
    | nil => exact fun _ hfirst _ => hfirst
    | cons test tests ih =>
      intro first hfirst h
      simp only [exprsLive, Bool.and_eq_true] at h
      exact ih _ (by simp [hfirst, h.1]) h.2
  cases tests with
  | nil => rfl
  | cons test tests =>
    simp only [exprsLive, Bool.and_eq_true] at h
    exact hfold tests test h.1 h.2

theorem leafTest_live (raw : String) (t : Ty) :
    Gives (Expr.live · = true) (env.leafTest raw t) := by
  unfold leafTest
  extract_lets subject plain
  split
  · exact .after fun _ => .pure rfl
  · repeat' split
    all_goals first
      | exact .pure rfl
      | exact .after fun _ => .pure rfl

mutual

theorem typeTest_live (raw : String) : ∀ t : Ty, Gives (Expr.live · = true) (env.typeTest raw t)
  | .union cases | .inter cases => by
    simp only [typeTest]
    exact (typeTests_live raw cases).bind fun _ h => .pure (live_combineTests _ h)
  | .bottom => by
    simp only [typeTest]
    exact .pure rfl
  | .nominal _ _ _ _ | .param _ | .error => by
    simp only [typeTest]
    exact env.leafTest_live raw _

theorem typeTests_live (raw : String) :
    ∀ ts : List Ty, Gives (exprsLive · = true) (env.typeTests raw ts)
  | [] => by
    simp only [typeTests]
    exact .pure rfl
  | t :: ts => by
    simp only [typeTests]
    exact (typeTest_live raw t).bind fun _ h => (typeTests_live raw ts).bind fun _ h' =>
      .pure (by simp [h, h'])

end

/-! ## Function values -/

theorem live_arrivingArgument (position arity : Nat) :
    (arrivingArgument position arity).live = true := by
  unfold arrivingArgument
  split <;> rfl

theorem unpickArgument_live (p : Parameter) (position arity : Nat) :
    Gives (Expr.live · = true) (env.unpickArgument p position arity) := by
  refine .after fun ty => ?_
  have hcast : (Expr.cast ty (arrivingArgument position arity)).live = true :=
    live_arrivingArgument position arity
  exact env.convert_live hcast _ _ _

theorem unpickArguments_live (arity : Nat) (ps : List Parameter) :
    ∀ position, Gives (exprsLive · = true) (env.unpickArguments arity position ps) := by
  induction ps with
  | nil => exact fun _ => .pure rfl
  | cons p ps ih =>
    intro position
    exact (env.unpickArgument_live p position arity).bind fun _ h =>
      (ih (position + 1)).bind fun _ h' => .pure (by simp [h, h'])

/-- A function value is an anonymous class with a `call` of the given body. -/
theorem exists_call_of_buildCallable {t : Ty} {arity : Nat} {body : List Stmt} {code : Expr}
    (h : (env.buildCallable t arity body).answer? = some code) :
    ∃ cls type result, code = .create cls [.lit type]
      (some [.mk { isPublic := true } [] result Support.call (callParams arity) (some body)]) := by
  obtain ⟨result, _, h⟩ := TypeLowering.answer?_bind.mp h
  obtain ⟨cls, _, h⟩ := TypeLowering.answer?_bind.mp h
  cases h
  exact ⟨_, _, _, rfl⟩

/-- A function value is live when its body is. -/
theorem live_of_buildCallable {t : Ty} {arity : Nat} {body : List Stmt} {code : Expr}
    (hbody : Stmt.allLive body = true) (h : (env.buildCallable t arity body).answer? = some code) :
    code.live = true := by
  obtain ⟨cls, type, result, rfl⟩ := env.exists_call_of_buildCallable h
  simp [hbody]

theorem forwardBody_live (result : Ty) {call : Expr} (hcall : call.live = true) :
    Gives (Stmt.allLive · = true) (env.forwardBody result call) := by
  unfold forwardBody
  split
  · exact .pure (by
      simp [Stmt.completes, Expr.null, hcall])
  · exact (env.convert_live hcall _ _ _).bind fun _ h => .pure (by
      simp [h])

theorem functionRef_live (d : DeclId) : Gives (Expr.live · = true) (env.functionRef d) := by
  unfold functionRef
  dsimp only
  split
  · exact .fail
  · refine (env.unpickArguments_live _ _ 0).bind fun args hargs =>
      (env.forwardBody_live _ ?_).bind fun _ hbody => .ofType fun _ h =>
        env.live_of_buildCallable hbody h
    simp [Expr.callLocal, hargs]

/-! ## Expressions -/

theorem referenceTo_live (d : DeclId) (span : Span) :
    Gives (Expr.live · = true) (env.referenceTo d span) := by
  unfold referenceTo
  split
  · exact env.functionRef_live d
  · exact .after fun _ => .pure rfl

theorem exprsLive_sequenceArguments {elems : List Expr} (h : exprsLive elems = true)
    (elemTypes : List Ty) : exprsLive (sequenceArguments elems elemTypes) = true := by
  unfold sequenceArguments
  split
  · split
    · simpa using h
    · exact h
  · exact h

theorem sequenceLiteral_live (t : Ty) {elems : List Expr} (h : exprsLive elems = true)
    (elemTypes : List Ty) : Gives (Expr.live · = true) (env.sequenceLiteral t elems elemTypes) := by
  unfold sequenceLiteral
  split
  · exact .pure rfl
  · refine .ofType fun code hcode => ?_
    obtain ⟨cls, _, hcode⟩ := TypeLowering.answer?_bind.mp hcode
    cases hcode
    simp [exprsLive_sequenceArguments h elemTypes]

theorem deliver_live (info : Tree.Info) (form : Form) {x : Lowering Natural}
    (hx : Gives (·.code.live = true) x) : Gives (Expr.live · = true) (env.deliver info form x) :=
  hx.bind fun _ h => env.convert_live h _ _ _

theorem live_applyOperator (op : Tree.Operator) (t : Ty) {lhs rhs : Expr}
    (hlhs : lhs.live = true) (hrhs : rhs.live = true) :
    (env.applyOperator op t lhs rhs).live = true := by
  unfold applyOperator
  cases op.direct? with
  | some direct => simp [hlhs, hrhs]
  | none =>
    have hequal : (if env.comparesRaw t then Expr.binary .eq lhs rhs
        else lhs.callOn Support.equals [rhs]).live = true := by
      split <;> simp [Expr.callOn, hlhs, hrhs]
    dsimp only
    split
    · simpa only [Expr.live] using hequal
    · exact hequal

mutual

theorem lowerNatural_live : ∀ e : Tree.Expr, Gives (·.code.live = true) (env.lowerNatural e)
  | .ident _ _ => by
    simp only [lowerNatural]
    exact .after fun _ => .pure rfl
  | .integer _ _ | .float _ _ | .string _ _ | .character _ _ | .boolean _ _ | .absent _ => by
    simp only [lowerNatural]
    exact .pure rfl
  | .member _ receiver _ => by
    simp only [lowerNatural]
    exact (env.deliver_live _ _ (lowerNatural_live receiver)).bind fun _ h =>
      .pure (live_get h _)
  | .call _ receiver _ args => by
    simp only [lowerNatural]
    exact (lowerArgs_live args _).bind fun _ hargs =>
      (lowerReceiver_live receiver).bind fun _ h => .pure (by
        simp [hargs, h])
  | .binary _ op lhs rhs => by
    simp only [lowerNatural]
    exact (env.deliver_live _ _ (lowerNatural_live lhs)).bind fun _ h =>
      (env.deliver_live _ _ (lowerNatural_live rhs)).bind fun _ h' =>
        .pure (env.live_applyOperator op _ h h')
  | .not _ operand => by
    simp only [lowerNatural]
    exact (env.deliver_live _ _ (lowerNatural_live operand)).bind fun _ h => .pure h
  | .sequence _ elems => by
    simp only [lowerNatural]
    exact (lowerArgs_live elems []).bind fun _ h =>
      (env.sequenceLiteral_live _ h _).bind fun _ h' => .pure h'
  | .functionRef _ function => by
    simp only [lowerNatural]
    exact (env.referenceTo_live function _).bind fun _ h => .pure h

theorem lowerArgs_live :
    ∀ (es : List Tree.Expr) (params : List Parameter),
      Gives (exprsLive · = true) (env.lowerArgs params es)
  | [], _ => by
    simp only [lowerArgs]
    exact .pure rfl
  | e :: es, params => by
    simp only [lowerArgs]
    exact (env.deliver_live _ _ (lowerNatural_live e)).bind fun _ h =>
      (lowerArgs_live es params.tail).bind fun _ h' => .pure (by simp [h, h'])

theorem lowerReceiver_live :
    ∀ receiver : Option Tree.Expr, Gives (valueLive · = true) (env.lowerReceiver receiver)
  | none => by
    simp only [lowerReceiver]
    exact .pure rfl
  | some e => by
    simp only [lowerReceiver]
    exact (env.deliver_live _ _ (lowerNatural_live e)).bind fun _ h => .pure h

end

/-- Whatever the tree, a lowered expression is live. -/
theorem lowerExpr_live (e : Tree.Expr) (form : Form) :
    Gives (Expr.live · = true) (env.lowerExpr e form) :=
  env.deliver_live _ _ (env.lowerNatural_live e)

end Env

end TreeLowering
