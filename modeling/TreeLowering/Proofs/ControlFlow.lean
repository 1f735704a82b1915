import TreeLowering.Proofs.Live
set_option autoImplicit false

/-!
# Proofs: control flow

Lowering puts statements ahead of others: bindings of narrowed subjects, resets
of loop guards, an inserted break, the trailing return of a function value.
Control passes the lowered statements exactly where it passes those of the
source, and where none of these stands after one that ends control, none of the
lowered ones does.

A break stands for one of the loop directly around it.  It may stand in the
other branch of an inner loop over something iterable, which runs after that
loop and is no part of it.
-/

namespace TreeLowering

/-! ## Control in the source -/

namespace Tree

namespace Expr

/-- The expression is the literal `true`. -/
def isTrue : Expr → Bool
  | .boolean _ value => value
  | _ => false

end Expr

namespace Condition

/-- The condition is the literal `true`. -/
def isTrue : Condition → Bool
  | .test e => e.isTrue
  | _ => false

end Condition

namespace Stmt

mutual

/-- A break in the statement leaves the loop directly around it. -/
def breaksOut : Stmt → Bool
  | .leave _ => true
  | .branch _ _ yes no => anyBreaksOut yes || elseBreaksOut no
  | .each _ _ _ _ no => elseBreaksOut no
  | .block _ body => anyBreaksOut body
  | .declare .. | .assign .. | .eval .. | .ret .. | .loop .. => false

/-- A break in one of the statements leaves the loop directly around them. -/
def anyBreaksOut : List Stmt → Bool
  | [] => false
  | s :: ss => breaksOut s || anyBreaksOut ss

/-- A break in the other branch leaves the loop directly around it. -/
def elseBreaksOut : Option (List Stmt) → Bool
  | none => false
  | some ss => anyBreaksOut ss

end

mutual

/-- The statement ends control: it leaves a loop or returns, or all that it can
go on with does, or it is a loop without end. -/
def ends : Stmt → Bool
  | .leave _ | .ret .. => true
  | .branch _ _ yes no => anyEnds yes && elseEnds no
  | .loop _ test body => test.isTrue && !anyBreaksOut body
  | .block _ body => anyEnds body
  | .declare .. | .assign .. | .eval .. | .each .. => false

/-- One of the statements ends control. -/
def anyEnds : List Stmt → Bool
  | [] => false
  | s :: ss => ends s || anyEnds ss

/-- The other branch ends control; a missing one does not. -/
def elseEnds : Option (List Stmt) → Bool
  | none => false
  | some ss => anyEnds ss

end

mutual

/-- Every list of statements in the statement is live. -/
def live : Stmt → Bool
  | .branch _ _ yes no => allLive yes && elseLive no
  | .loop _ _ body => allLive body
  | .each _ _ _ body no => allLive body && elseLive no
  | .block _ body => allLive body
  | .declare .. | .assign .. | .eval .. | .ret .. | .leave _ => true

/-- None of the statements but the last ends control, and so in every list inside
of them. -/
def allLive : List Stmt → Bool
  | [] => true
  | s :: ss => (ss.isEmpty || !ends s) && live s && allLive ss

/-- The other branch, if there is one, is live. -/
def elseLive : Option (List Stmt) → Bool
  | none => true
  | some ss => allLive ss

end

end Stmt

end Tree

/-! ## Control in lowered code -/

namespace Target.Stmt

/-- Control goes through the code as it does through statements of which `ends`,
`breaks` and `live` say whether they end control, whether a break in them leaves
the loop around, and whether they are live. -/
structure Flows (ends breaks live : Bool) (code : List Stmt) : Prop where
  completes : allComplete code = !ends
  breaksOut : anyBreaksOut code = breaks
  allLive : live = true → allLive code = true

/-- Control only passes through the code. -/
abbrev Passes (code : List Stmt) : Prop := Flows false false true code

namespace Flows

variable {ends breaks live ends' breaks' live' : Bool} {code code' : List Stmt}

theorem nil : Passes [] := ⟨rfl, rfl, fun _ => rfl⟩

/-- Code goes on with other code.  Only where there is any, control has to pass the
first. -/
theorem append {both : Bool} (h : Flows ends breaks live code)
    (h' : Flows ends' breaks' live' code')
    (hlive : both = true → live = true ∧ live' = true ∧ (code' = [] ∨ ends = false)) :
    Flows (ends || ends') (breaks || breaks') both (code ++ code') where
  completes := by rw [allComplete_append, h.completes, h'.completes, Bool.not_or]
  breaksOut := by rw [anyBreaksOut_append, h.breaksOut, h'.breaksOut]
  allLive hboth := by
    obtain ⟨hlive, hlive', hreached⟩ := hlive hboth
    rw [allLive_append, h.allLive hlive, h'.allLive hlive', h.completes]
    rcases hreached with rfl | rfl <;> simp

/-- Code after code that control passes goes on as it would on its own. -/
theorem after (hpass : Passes code) (h : Flows ends breaks live code') :
    Flows ends breaks live (code ++ code') := by
  simpa using hpass.append h fun hlive => ⟨rfl, hlive, .inr rfl⟩

theorem declare {var : VarDecl} (h : var.live = true) : Passes [.declare var] :=
  ⟨rfl, rfl, fun _ => by simp [h]⟩

theorem declareFinal {name : String} {ty : Ty} {init : Expr} (h : init.live = true) :
    Passes [.declareFinal name ty init] :=
  declare h

theorem exec {e : Expr} (h : e.live = true) : Passes [.exec e] :=
  ⟨rfl, rfl, fun _ => by simp [h]⟩

theorem ret {value : Option Expr} (h : valueLive value = true) :
    Flows true false true [.ret value] :=
  ⟨rfl, rfl, fun _ => by simp [h]⟩

theorem leave : Flows true true true [.leave] := ⟨rfl, rfl, fun _ => rfl⟩

/-- A missing branch is an empty one. -/
theorem branch {test : Expr} {no : Option (List Stmt)} (htest : test.live = true)
    (hyes : Flows ends breaks live code) (hno : Flows ends' breaks' live' (no.getD [])) :
    Flows (ends && ends') (breaks || breaks') (live && live') [.branch test code no] := by
  have hcompletes : elseCompletes no = allComplete (no.getD []) := by cases no <;> rfl
  have hbreaks : elseBreaksOut no = anyBreaksOut (no.getD []) := by cases no <;> rfl
  have hbody : bodyLive no = Stmt.allLive (no.getD []) := by cases no <;> rfl
  refine ⟨?_, ?_, fun hlive => ?_⟩
  · simp [allComplete, Stmt.completes, hcompletes, hyes.completes, hno.completes]
  · simp [anyBreaksOut, Stmt.breaksOut, hbreaks, hyes.breaksOut, hno.breaksOut]
  · obtain ⟨hlive, hlive'⟩ := Bool.and_eq_true_iff.mp hlive
    simp [htest, hbody, hyes.allLive hlive, hno.allLive hlive']

/-- A loop whose test is the literal `true` ends control, unless a break leaves it. -/
theorem whileLoop {test : Expr} (htest : test.live = true) (h : Flows ends breaks live code) :
    Flows (test.isTrue && !breaks) false live [.whileLoop test code] where
  completes := by simp [allComplete, Stmt.completes, h.breaksOut]
  breaksOut := rfl
  allLive hlive := by simp [htest, h.allLive hlive]

theorem block (h : Flows ends breaks live code) : Flows ends breaks live [.block code] where
  completes := by simp [allComplete, Stmt.completes, h.completes]
  breaksOut := by simp [anyBreaksOut, Stmt.breaksOut, h.breaksOut]
  allLive hlive := by simp [h.allLive hlive]

end Flows

end Target.Stmt

/-! ## Conditions -/

namespace Env

open Lowering
open Target (Expr Stmt)
open Target.Stmt (Flows Passes)

variable (env : Env)

/-- Unboxing does not make a literal `true`. -/
theorem unboxValue_notTrue {e : Expr} (he : e.isTrue = false) (t : Ty) :
    Gives (Expr.isTrue · = false) (env.unboxValue e t) := by
  have hstring : (unboxString e).isTrue = false := by
    unfold unboxString
    split
    · exact he
    · rfl
  unfold unboxValue
  split
  · exact .pure hstring
  · split
    · exact .pure rfl
    · split
      · unfold unboxOptionalString
        split
        · exact .pure he
        · exact .after fun _ => .after fun _ => .pure rfl
      · exact .pure he

theorem isTrue_applyOperator (op : Tree.Operator) (t : Ty) (lhs rhs : Expr) :
    (env.applyOperator op t lhs rhs).isTrue = false := by
  unfold applyOperator
  cases op.direct? with
  | some direct => rfl
  | none =>
    dsimp only
    split
    · rfl
    · split <;> rfl

theorem referenceTo_notTrue (d : DeclId) (span : Span) :
    Gives (Expr.isTrue · = false) (env.referenceTo d span) := by
  unfold referenceTo
  split
  · unfold functionRef
    dsimp only
    split
    · exact .fail
    · refine .after fun _ => .after fun _ => .ofType fun code h => ?_
      obtain ⟨cls, type, result, rfl⟩ := env.exists_call_of_buildCallable h
      rfl
  · exact .after fun _ => .pure rfl

theorem sequenceLiteral_notTrue (t : Ty) (elems : List Expr) (elemTypes : List Ty) :
    Gives (Expr.isTrue · = false) (env.sequenceLiteral t elems elemTypes) := by
  unfold sequenceLiteral
  split
  · exact .pure rfl
  · refine .ofType fun code h => ?_
    obtain ⟨cls, _, h⟩ := TypeLowering.answer?_bind.mp h
    cases h
    rfl

/-- Only the literal `true` lowers to the literal `true`, and it is raw. -/
theorem lowerNatural_isTrue (e : Tree.Expr) :
    Gives (fun n => n.code.isTrue = e.isTrue ∧ (e.isTrue = true → n.raw = true))
      (env.lowerNatural e) := by
  cases e <;> simp only [lowerNatural]
  case ident => exact .after fun _ => .pure ⟨rfl, nofun⟩
  case integer info value =>
    refine .pure ⟨?_, nofun⟩
    show (Expr.lit (integerLiteral info.ty value)).isTrue = false
    unfold integerLiteral
    split <;> rfl
  case boolean info value => exact .pure ⟨by cases value <;> rfl, fun _ => rfl⟩
  case member => exact .after fun _ => .pure ⟨rfl, nofun⟩
  case call => exact .after fun _ => .after fun _ => .pure ⟨rfl, nofun⟩
  case binary =>
    exact .after fun _ => .after fun _ =>
      .pure ⟨env.isTrue_applyOperator _ _ _ _, nofun⟩
  case not => exact .after fun _ => .pure ⟨rfl, nofun⟩
  case sequence =>
    exact .after fun _ => (env.sequenceLiteral_notTrue _ _ _).bind fun _ h =>
      .pure ⟨h, nofun⟩
  case functionRef =>
    exact (env.referenceTo_notTrue _ _).bind fun _ h => .pure ⟨h, nofun⟩
  all_goals exact .pure ⟨rfl, nofun⟩

/-- In raw form, only the literal `true` lowers to the literal `true`. -/
theorem lowerExpr_isTrue (e : Tree.Expr) :
    Gives (fun code => code.isTrue = e.isTrue) (env.lowerExpr e .raw) := by
  refine (env.lowerNatural_isTrue e).bind fun n ⟨hcode, hraw⟩ => ?_
  simp only [reduceCtorEq, if_false, convert]
  split
  · rename_i hboxed
    have he : e.isTrue = false := by
      cases h : e.isTrue with
      | false => rfl
      | true => simp [hraw h] at hboxed
    rw [he] at hcode ⊢
    exact env.unboxValue_notTrue hcode _
  · exact .pure hcode

end Env

/-- Control passes what a condition sets up and binds, and a loop on it is a loop on
the literal `true` just when `always` holds. -/
structure LoweredCondition.Flows (always : Bool) (c : LoweredCondition) : Prop where
  setup : Target.Stmt.Passes c.setup
  test : c.test.live = true
  binding : ∀ n ∈ c.narrowed, Target.Stmt.Passes [n.binding]
  isTrue : (c.isPlain && c.test.isTrue) = always

namespace Env

open Lowering
open Target (Expr Stmt valueLive)
open Target.Stmt (Flows Passes)

variable (env : Env)

theorem rawSubject_passes (source : String) (subject : Tree.Expr) :
    Gives (fun p => Passes [p.2]) (env.rawSubject source subject) :=
  .after fun _ => .after fun _ => (env.lowerExpr_live subject .boxed).bind fun _ h =>
    .pure (.declareFinal h)

theorem narrow_passes (raw source : String) (t : Ty) :
    Gives (fun n => Passes [n.binding]) (env.narrow raw source t) := by
  refine .after fun synthetic => .after fun boxed => .after fun form => ?_
  have hvalue : (Expr.cast boxed (.ident raw)).live = true := rfl
  cases form with
  | raw =>
    exact .after fun _ => (env.unboxValue_live hvalue t).bind fun _ h => .pure (.declareFinal h)
  | boxed | asIs => exact .pure (.declareFinal hvalue)

/-- A condition that narrows a subject is never plain. -/
theorem narrowing_flows {binding : Stmt} {test : Expr} {n : Narrowed}
    (hbinding : Passes [binding]) (htest : test.live = true) (hn : Passes [n.binding]) :
    LoweredCondition.Flows false ⟨[binding], test, some n⟩ :=
  ⟨hbinding, htest, by rintro _ ⟨⟩; exact hn, rfl⟩

theorem lowerCondition_flows (c : Tree.Condition) :
    Gives (LoweredCondition.Flows c.isTrue) (env.lowerCondition c) := by
  cases c with
  | test e =>
    intro s lowered s' h
    obtain ⟨test, t, htest, h⟩ := yields_bind.mp h
    obtain ⟨rfl, _⟩ := yields_pure.mp h
    exact ⟨.nil, env.lowerExpr_live e .raw htest, by simp [LoweredCondition.plain],
      env.lowerExpr_isTrue e htest⟩
  | present e =>
    refine (env.lowerExpr_live e .boxed).bind fun subject h => .pure ⟨.nil, ?_, ?_, rfl⟩
    · simp [LoweredCondition.plain, Expr.null, h]
    · simp [LoweredCondition.plain]
  | presentAs var e =>
    exact (env.rawSubject_passes _ e).bind fun _ h => (env.narrow_passes _ _ _).bind fun _ hn =>
      .pure (narrowing_flows h rfl hn)
  | isOf name ty e =>
    exact .after fun _ => (env.rawSubject_passes _ e).bind fun _ h =>
      (env.typeTest_live _ ty).bind fun _ htest => (env.narrow_passes _ _ _).bind fun _ hn =>
        .pure (narrowing_flows h htest hn)
  | nonempty var e =>
    refine (env.rawSubject_passes _ e).bind fun _ h => ?_
    refine (Gives.ofType (P := (Expr.live · = true)) fun test htest => ?_).bind fun _ htest =>
      (env.narrow_passes _ _ _).bind fun _ hn => .pure (narrowing_flows h htest hn)
    obtain ⟨cls, _, htest⟩ := TypeLowering.answer?_bind.mp htest
    cases htest
    rfl

/-! ## Statements -/

theorem guarded_flows {narrowed : Option Narrowed} {block : Lowering (List Stmt)}
    {ends breaks live : Bool} (hbinding : ∀ n ∈ narrowed, Passes [n.binding])
    (hblock : Gives (Flows ends breaks live) block) :
    Gives (Flows ends breaks live) (guarded narrowed block) := by
  cases narrowed with
  | none => exact hblock
  | some n => exact hblock.withReplacement.bind fun _ h => .pure ((hbinding n rfl).after h)

/-- A loop that tests its condition inside has a break for it, which can always leave the
loop. -/
theorem conditionLoop_flows {c : LoweredCondition} {always ends breaks live : Bool}
    {body : List Stmt} (hc : c.Flows always) (h : Flows ends breaks live body) :
    Flows (always && !breaks) false live [c.loop body] := by
  unfold LoweredCondition.loop
  split
  · rename_i hplain
    have hisTrue := hc.isTrue
    rw [hplain, Bool.true_and] at hisTrue
    rw [← hisTrue]
    exact .whileLoop hc.test h
  · rename_i hplain
    have halways := hc.isTrue
    rw [Bool.eq_false_iff.mpr hplain, Bool.false_and] at halways
    subst halways
    -- The break for a failing test is the loop's own, so control gets past the loop.
    have hexit : Flows false true true [.branch (.not c.test) [.leave] none] :=
      Flows.branch (by simpa using hc.test) .leave .nil
    have hround : Flows (false || ends) (true || breaks) live
        (c.setup ++ [.branch (.not c.test) [.leave] none] ++ body) :=
      (hc.setup.after hexit).append h fun hlive => ⟨rfl, hlive, .inr rfl⟩
    simpa using Flows.whileLoop (rfl : (Expr.bool true).live = true) hround

theorem bindElement_passes (var : Tree.Variable) {value : Expr} (h : value.live = true) (t : Ty) :
    Gives (fun stmt => Passes [stmt]) (env.bindElement var value t) := by
  have hbind : ∀ seen : Expr, seen.live = true → Gives (fun stmt => Passes [stmt]) (do
      let form ← env.valueForm var.ty
      let init ← env.convert seen true var.ty form
      let ty ← env.lowerType var.ty .plain
      pure (Stmt.declareFinal var.name ty init)) := fun seen hseen =>
    .after fun _ => (env.convert_live hseen _ _ _).bind fun _ hinit => .after fun _ =>
      .pure (.declareFinal hinit)
  unfold bindElement
  split
  · exact (Gives.pure (P := (Expr.live · = true)) h).bind hbind
  · exact .after fun cls => hbind (.cast cls value) h

theorem bindHead_passes (iterator : String) (element : Ty) (binding : Tree.LoopBinding) :
    Gives Passes (env.bindHead iterator element binding) := by
  have hhead : (headOf iterator).live = true := rfl
  cases binding with
  | value var =>
    exact (env.bindElement_passes var hhead element).bind fun _ h => .pure h
  | keyItem key item =>
    exact (env.bindElement_passes key (live_get hhead _) _).bind fun _ hkey =>
      (env.bindElement_passes item (live_get hhead _) _).bind fun _ hitem =>
        .pure (hkey.after hitem)

/-- Control passes a loop over something iterable, whatever its body does. -/
theorem loopHead_flows (binding : Tree.LoopBinding) (subject : Tree.Expr) :
    Gives (fun head => ∀ {ends breaks live : Bool} {body : List Stmt},
      Flows ends breaks live body → Flows false false live [head.loop body])
      (env.loopHead binding subject) := by
  refine .after fun element => .after fun iterator => .after fun ty =>
    (env.lowerExpr_live subject .boxed).bind fun code hcode =>
      (env.bindHead_passes iterator element binding).bind fun bindings hbindings => .pure ?_
  intro ends breaks live body h
  refine ⟨rfl, rfl, fun hlive => ?_⟩
  have hsubject := live_get hcode Support.iterator
  have hround := (hbindings.after h).allLive hlive
  simpa [LoopHead.loop, Expr.get, Expr.callOn, headOf, Expr.null, hround] using hsubject

theorem loopGuard_isSome (needed : Bool) : Gives (·.isSome = needed) (loopGuard needed) := by
  unfold loopGuard
  cases needed with
  | true => exact .after fun _ => .pure rfl
  | false => exact .pure rfl

theorem declareGuard_passes (guard : Option String) : Passes (declareGuard guard) := by
  cases guard with
  | none => exact .nil
  | some guard => exact .declare rfl

theorem breakClearing_flows (guard : Option String) :
    Flows true true true (breakClearing guard) := by
  cases guard with
  | none => exact .leave
  | some guard => exact Flows.after (.exec rfl) .leave

/-- Control passes the guarded other branch of a loop, since the guard may be cleared. -/
theorem guardedElse_flows {guard : Option String} {other : Option (List Stmt)}
    {ends breaks live : Bool} (hguard : guard.isSome = other.isSome)
    (h : Flows ends breaks live (other.getD [])) :
    Flows false breaks live (guardedElse guard other) := by
  cases guard <;> cases other <;> simp only [Option.isSome] at hguard <;> try contradiction
  case none.none =>
    exact ⟨rfl, h.breaksOut, fun _ => rfl⟩
  case some.some guard body =>
    have hbranch : Flows (ends && false) (breaks || false) (live && true)
        [.branch (.ident guard) body none] := .branch rfl h .nil
    simpa only [guardedElse, Bool.and_false, Bool.or_false, Bool.and_true] using hbranch

theorem declareLocal_passes (var : Tree.Variable) (init : Option Tree.Expr) (isVariable : Bool) :
    Gives (fun stmt => Passes [stmt]) (env.declareLocal var init isVariable) := by
  refine .after fun form => .after fun ty => ?_
  have hinit : Gives (valueLive · = true) (env.lowerInit form init) := by
    cases init with
    | none => exact .pure rfl
    | some e => exact (env.lowerExpr_live e form).map fun _ h => h
  exact hinit.bind fun _ h => .after fun _ => .pure (.declare h)

theorem assignTo_passes (name : String) (e : Tree.Expr) :
    Gives (fun stmt => Passes [stmt]) (env.assignTo name e) :=
  .after fun _ => .after fun form => (env.lowerExpr_live e form).bind fun _ h =>
    .pure (.exec (by simp [h]))

theorem returnValue_live (returns : Option ReturnForm) (value : Option Tree.Expr) :
    Gives (valueLive · = true) (env.returnValue returns value) := by
  cases returns <;> cases value
  case none.none => exact .pure rfl
  case none.some e => exact (env.lowerExpr_live e _).map fun _ h => h
  case some.none r =>
    refine .pure ?_
    split <;> rfl
  case some.some r e => exact (env.lowerExpr_live e _).map fun _ h => h

mutual

/-- Control goes through a lowered statement as it does through the statement. -/
theorem lowerStmt_flows : ∀ stmt : Tree.Stmt,
    Gives (Flows stmt.ends stmt.breaksOut stmt.live) (env.lowerStmt stmt)
  | .declare _ var init isVariable => by
    simp only [lowerStmt, Tree.Stmt.ends, Tree.Stmt.breaksOut, Tree.Stmt.live]
    exact .after fun _ => (env.declareLocal_passes var init isVariable).bind fun _ h => .pure h
  | .assign _ target value => by
    simp only [lowerStmt, Tree.Stmt.ends, Tree.Stmt.breaksOut, Tree.Stmt.live]
    exact .after fun _ => (env.assignTo_passes target value).bind fun _ h => .pure h
  | .eval _ e => by
    simp only [lowerStmt, Tree.Stmt.ends, Tree.Stmt.breaksOut, Tree.Stmt.live]
    exact .after fun _ => (env.lowerExpr_live e .asIs).bind fun _ h => .pure (.exec h)
  | .ret _ value => by
    simp only [lowerStmt, Tree.Stmt.ends, Tree.Stmt.breaksOut, Tree.Stmt.live]
    exact .after fun _ => .after fun returns => (env.returnValue_live returns value).bind
      fun _ h => .pure (.ret h)
  | .leave _ => by
    simp only [lowerStmt, Tree.Stmt.ends, Tree.Stmt.breaksOut, Tree.Stmt.live]
    exact .after fun _ => .after fun guard => .pure (breakClearing_flows guard)
  | .branch _ test yes no => by
    simp only [lowerStmt, Tree.Stmt.ends, Tree.Stmt.breaksOut, Tree.Stmt.live]
    exact .after fun _ => (env.lowerCondition_flows test).bind fun c hc =>
      (guarded_flows hc.binding (lowerStmts_flows yes)).bind fun _ hyes =>
        (lowerElse_flows no).bind fun _ hno => .pure (hc.setup.after (.branch hc.test hyes hno.2))
  | .loop _ test body => by
    simp only [lowerStmt, Tree.Stmt.ends, Tree.Stmt.breaksOut, Tree.Stmt.live]
    have hinside := (env.lowerCondition_flows test).bind fun c hc =>
      (guarded_flows hc.binding (lowerStmts_flows body)).bind (Q := fun s => Flows _ _ _ [s])
        fun lowered h => .pure (conditionLoop_flows hc h)
    exact .after fun _ => hinside.withLoopGuard.bind fun _ h => .pure h
  | .each _ binding subject body no => by
    simp only [lowerStmt, Tree.Stmt.ends, Tree.Stmt.breaksOut, Tree.Stmt.live]
    have hinside := (env.loopHead_flows binding subject).bind fun head hhead =>
      (lowerStmts_flows body).bind (Q := fun s => Flows _ _ _ [s]) fun lowered h =>
        .pure (hhead h)
    refine .after fun _ => (loopGuard_isSome no.isSome).bind fun guard hguard =>
      hinside.withLoopGuard.bind fun s hs => (lowerElse_flows no).bind fun other ho => .pure ?_
    have hother := guardedElse_flows (hguard.trans ho.1.symm) ho.2
    refine (declareGuard_passes guard).after ?_
    simpa using hs.append hother fun hlive =>
      ⟨(Bool.and_eq_true_iff.mp hlive).1, (Bool.and_eq_true_iff.mp hlive).2, .inr rfl⟩
  | .block _ body => by
    simp only [lowerStmt, Tree.Stmt.ends, Tree.Stmt.breaksOut, Tree.Stmt.live]
    exact .after fun _ => (lowerStmts_flows body).bind fun _ h => .pure h.block

theorem lowerStmts_flows : ∀ body : List Tree.Stmt,
    Gives (Flows (Tree.Stmt.anyEnds body) (Tree.Stmt.anyBreaksOut body) (Tree.Stmt.allLive body))
      (env.lowerStmts body)
  | [] => by
    simp only [lowerStmts]
    exact .pure .nil
  | [stmt] => by
    simp only [lowerStmts]
    exact (lowerStmt_flows stmt).bind fun lowered h =>
      (Gives.pure (P := (· = [])) rfl).bind fun rest hrest => .pure (by
        subst hrest
        simpa [Tree.Stmt.anyEnds, Tree.Stmt.anyBreaksOut, Tree.Stmt.allLive] using h)
  | stmt :: next :: rest => by
    rw [lowerStmts]
    exact (lowerStmt_flows stmt).bind fun lowered h =>
      (lowerStmts_flows (next :: rest)).bind fun more hmore => .pure (by
        rw [Tree.Stmt.anyEnds, Tree.Stmt.anyBreaksOut, Tree.Stmt.allLive]
        -- Something follows the statement, so that it must not end control.
        refine h.append hmore fun hlive => ?_
        simp only [List.isEmpty_cons, Bool.false_or, Bool.and_eq_true, Bool.not_eq_true'] at hlive
        exact ⟨hlive.1.2, hlive.2, .inr hlive.1.1⟩)

theorem lowerElse_flows : ∀ no : Option (List Tree.Stmt),
    Gives (fun other => other.isSome = no.isSome ∧
      Flows (Tree.Stmt.elseEnds no) (Tree.Stmt.elseBreaksOut no) (Tree.Stmt.elseLive no)
        (other.getD [])) (env.lowerElse no)
  | none => by
    simp only [lowerElse]
    exact .pure ⟨rfl, .nil⟩
  | some body => by
    simp only [lowerElse]
    exact (lowerStmts_flows body).bind fun _ h => .pure ⟨rfl, h⟩

end

/-! ## Functions -/

theorem unpickLocals_passes (arity : Nat) (ps : List Parameter) :
    ∀ position, Gives Passes (env.unpickLocals arity position ps) := by
  induction ps with
  | nil => exact fun _ => .pure .nil
  | cons p ps ih =>
    intro position
    exact (env.unpickArgument_live p position arity).bind fun _ h => .after fun _ =>
      (ih (position + 1)).bind fun _ hrest => .pure ((Flows.declareFinal h).after hrest)

end Env

namespace Target.Stmt

/-- The body of the function value that a block returns in the end. -/
def returnedBody? (body : List Stmt) : Option (List Stmt) :=
  match body.getLast? with
  | some (.ret (some (.create _ _ (some [call])))) => call.body?
  | _ => none

/-- The body of the last of so many function values, each returned by the one
before. -/
def innermostBody? : Nat → List Stmt → Option (List Stmt)
  | 0, body => some body
  | depth + 1, body => (returnedBody? body).bind (innermostBody? depth)

/-- Control cannot pass the innermost body, which is live. -/
def Sealed (depth : Nat) (body : List Stmt) : Prop :=
  ∃ inner, innermostBody? depth body = some inner ∧ allComplete inner = false ∧
    allLive inner = true

namespace Sealed

variable {depth : Nat} {body : List Stmt}

theorem after {locals : List Stmt} (hpass : Passes locals) (h : Sealed depth body) :
    Sealed depth (locals ++ body) := by
  obtain ⟨inner, hinner, hends, hlive⟩ := h
  cases depth with
  | zero =>
    cases hinner
    refine ⟨locals ++ body, rfl, ?_, ?_⟩
    · rw [allComplete_append, hends, Bool.and_false]
    · rw [allLive_append, hpass.allLive rfl, hlive, hpass.completes]
      simp
  | succ depth =>
    refine ⟨inner, ?_, hends, hlive⟩
    have hlast : (locals ++ body).getLast? = body.getLast? := by
      cases hbody : body.getLast? with
      | none =>
        rw [List.getLast?_eq_none_iff.mp hbody] at hinner
        contradiction
      | some last => rw [List.getLast?_append, hbody, Option.some_or]
    simpa only [innermostBody?, returnedBody?, hlast] using hinner

/-- A function value is returned in the end. -/
theorem layer {cls : Ty} {args : List Expr} {call : Method} (hcall : call.body? = some body)
    (h : Sealed depth body) :
    Sealed (depth + 1) [.ret (some (.create cls args (some [call])))] := by
  obtain ⟨inner, hinner, hends, hlive⟩ := h
  exact ⟨inner, by simp [innermostBody?, returnedBody?, hcall, hinner], hends, hlive⟩

end Sealed

end Target.Stmt

namespace Env

open Lowering
open Target (Stmt)
open Target.Stmt (Flows Passes Sealed)

variable (env : Env)

/-- A body whose callers expect a value never completes: where it would, it returns
the absent value. -/
theorem endWithValue_sealed {ends breaks : Bool} {body : List Stmt}
    (h : Flows ends breaks true body) : Sealed 0 (endWithValue Language.voidTy body) := by
  refine ⟨_, rfl, ?_⟩
  cases ends with
  | true =>
    have hends : Stmt.allComplete body = false := h.completes
    have hbody : endWithValue Language.voidTy body = body := by simp [endWithValue, hends]
    rw [hbody]
    exact ⟨hends, h.allLive rfl⟩
  | false =>
    have hpasses : Stmt.allComplete body = true := h.completes
    have hbody : endWithValue Language.voidTy body = body ++ [.ret (some .null)] := by
      simp [endWithValue, hpasses]
    have hended : Flows (false || true) (breaks || false) true (body ++ [.ret (some .null)]) :=
      h.append (.ret rfl) fun _ => ⟨rfl, rfl, .inr rfl⟩
    rw [hbody]
    exact ⟨hended.completes, hended.allLive rfl⟩

theorem layerCallable_sealed {depth : Nat} {body : List Stmt} (t : Ty) (params : List Parameter)
    (h : Sealed depth body) :
    Gives (fun layer => Sealed (depth + 1) [.ret (some layer)])
      (env.layerCallable t params body) := by
  refine (env.unpickLocals_passes _ params 0).bind fun locals hlocals =>
    .ofType fun layer hlayer => ?_
  obtain ⟨cls, type, result, rfl⟩ := env.exists_call_of_buildCallable hlayer
  exact .layer rfl (h.after hlocals)

/-- One more function value for each parameter list stands around the body. -/
theorem wrapLayers_sealed {body : List Stmt} (result : Ty) (h : Sealed 0 body)
    (lists : List (List Parameter)) :
    Gives (Sealed lists.length) (env.wrapLayers result body lists) := by
  induction lists with
  | nil => exact .pure h
  | cons list rest ih =>
    exact ih.bind fun _ hinner => (env.layerCallable_sealed _ list hinner).bind fun _ hlayer =>
      .pure hlayer

theorem lowerFunction_sealed {f : Tree.Function} {first second : List Parameter}
    {rest : List (List Parameter)}
    (hlists : (env.model.decl f.decl).paramLists = first :: second :: rest)
    (hlive : Tree.Stmt.allLive f.body = true) :
    Gives (fun method => ∃ body, method.body? = some body ∧ Sealed (rest.length + 1) body)
      (env.lowerFunction f Language.voidTy) := by
  unfold lowerFunction
  dsimp only
  rw [hlists]
  simp only [List.isEmpty_cons, Bool.false_eq_true, if_false]
  have hbody := env.lowerStmts_flows f.body
  rw [hlive] at hbody
  refine .after fun _ => .after fun _ => .after fun _ => ?_
  have hcurried : Gives (fun p => Sealed (rest.length + 1) p.2)
      (env.curriedBody Language.voidTy (second :: rest) f.body) :=
    hbody.withReturns.bind fun _ h =>
      (env.wrapLayers_sealed _ (endWithValue_sealed h) (second :: rest)).bind fun _ hwrapped =>
        .after fun _ => .pure hwrapped
  exact hcurried.bind fun p hp => .pure ⟨_, rfl, hp⟩

/-- Live statements lower to live code, which control passes exactly if none of them ends
control.  A void function with more than one parameter list and a live body lowers
to a method whose innermost function value runs live code that control never
passes. -/
theorem lowering_live (s : LowerState) :
    (∀ body code s', Yields (env.lowerStmts body) s code s' → Tree.Stmt.allLive body = true →
      Stmt.allLive code = true ∧
        (Stmt.allComplete code = true ↔ Tree.Stmt.anyEnds body = false)) ∧
      ∀ f first second rest method s',
        (env.model.decl f.decl).paramLists = first :: second :: rest →
        Yields (env.lowerFunction f Language.voidTy) s method s' →
        Tree.Stmt.allLive f.body = true →
        ∃ body inner, method.body? = some body ∧
          Stmt.innermostBody? (rest.length + 1) body = some inner ∧
          Stmt.allComplete inner = false ∧ Stmt.allLive inner = true := by
  refine ⟨fun body code s' h hlive => ?_, fun f first second rest method s' hlists h hlive => ?_⟩
  · have hflows := env.lowerStmts_flows body h
    refine ⟨hflows.allLive hlive, ?_⟩
    rw [hflows.completes]
    simp
  · obtain ⟨body, hbody, inner, hinner, hends, hinnerLive⟩ :=
      env.lowerFunction_sealed hlists hlive h
    exact ⟨body, inner, hbody, hinner, hends, hinnerLive⟩

/-- A program with a function `void pick(Iterable<Integer> xs)(Boolean c)`. -/
def picking : Model where
  decls := #[
    { Declaration.bare "pick" .method "demo" none with
      ty := some Language.voidTy
      paramLists := [[⟨"xs", .of Language.iterable [Language.integerTy], none⟩],
        [⟨"c", Language.booleanTy, none⟩]] }]
  params := #[]

/-- A loop without end that the other branch of an inner loop leaves, and then a branch
that either returns or loops for good. -/
def pick : Tree.Function where
  decl := ⟨22⟩
  body :=
    [.loop .dummy (.test (.boolean ⟨Language.booleanTy, true, .dummy⟩ true))
      [.each .dummy (.value ⟨"x", Language.integerTy⟩)
        (.ident ⟨.of Language.iterable [Language.integerTy], false, .dummy⟩ "xs")
        [.leave .dummy] (some [.leave .dummy])],
     .branch .dummy (.test (.ident ⟨Language.booleanTy, false, .dummy⟩ "c")) [.ret .dummy none]
      (some [.loop .dummy (.test (.boolean ⟨Language.booleanTy, true, .dummy⟩ true)) []])]
  span := .dummy

/-- The outer loop completes, because the break in the other branch is its own, and the
branch after it does not. -/
theorem pick_live :
    Tree.Stmt.allLive pick.body = true ∧ Tree.Stmt.anyEnds pick.body = true ∧
      (∃ code s', Yields ((Env.of picking .standard).lowerStmts pick.body) (.start .empty) code s' ∧
        Stmt.allLive code = true ∧ Stmt.allComplete code = false) ∧
      ∃ method s' body inner,
        Yields ((Env.of picking .standard).lowerFunction pick Language.voidTy) (.start .empty)
          method s' ∧ method.body? = some body ∧ Stmt.innermostBody? 1 body = some inner ∧
          Stmt.allComplete inner = false ∧ Stmt.allLive inner = true := by
  have hlive : Tree.Stmt.allLive pick.body = true := by decide
  have hends : Tree.Stmt.anyEnds pick.body = true := by decide
  obtain ⟨hblocks, hfunctions⟩ := (Env.of picking .standard).lowering_live (.start .empty)
  refine ⟨hlive, hends, ?_, ?_⟩
  · obtain ⟨code, s', h⟩ := exists_yields (x := (Env.of picking .standard).lowerStmts pick.body)
      (s := .start .empty) (by decide)
    obtain ⟨hcode, hcompletes⟩ := hblocks pick.body code s' h hlive
    refine ⟨code, s', h, hcode, ?_⟩
    simpa [hends] using hcompletes
  · obtain ⟨method, s', h⟩ := exists_yields
      (x := (Env.of picking .standard).lowerFunction pick Language.voidTy) (s := .start .empty)
      (by decide)
    obtain ⟨body, inner, hbody, hinner, hsealed⟩ :=
      hfunctions pick _ _ [] method s' rfl h hlive
    exact ⟨method, s', body, inner, h, hbody, hinner, hsealed⟩

end Env

end TreeLowering
