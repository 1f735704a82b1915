import TreeLowering.Proofs.Behaviour.Condition
import TreeLowering.Proofs.Behaviour.Loop
set_option autoImplicit false

/-!
# Behaviour: statements

Every lowered statement ends as the statement does.  A block is lowered while
the names that are narrowed around it stand for others, so nothing may be
declared in it under such a name.
-/

namespace TreeLowering.Behaviour

open TreeLowering.Behaviour.Frame (Same Linked Alone)
open Lowering (Yields)
open TreeLowering.Tree (Expr Stmt Condition LoopBinding)

variable {machine : Machine} {env : Env} {s t s' : LowerState} {K : Frame}
  {narrowed : List String} {span : Span}

/-! ## Narrowed names -/

/-- Only narrowed names stand for others. -/
def Covers (narrowed : List String) (s : LowerState) : Prop :=
  ∀ x, x ∉ narrowed → s.names.find? x = none

theorem Covers.follows (h : Covers narrowed s) (hs : s.Follows s') : Covers narrowed s' :=
  fun x hx => (hs.find x).trans (h x hx)

/-- The guard does not matter. -/
theorem Covers.withGuard (h : Covers narrowed s) (guard : Option String) :
    Covers narrowed { s with loopGuard := guard } := h

theorem Covers.replace (h : Covers narrowed s) (x y : String) :
    Covers (x :: narrowed) { s with names := (s.names.replace x y).2 } := by
  intro z hz
  have hne : z ≠ x := fun heq => hz (heq ▸ List.mem_cons_self)
  show (s.names.set x (some y)).find? z = none
  rw [NameScope.find?_set, if_neg hne]
  exact h z (fun hmem => hz (List.mem_cons_of_mem _ hmem))

/-- Lowered under the narrowed names, the block ends as it does itself. -/
def Preserves (machine : Machine) (env : Env) (narrowed : List String) (body : List Stmt) : Prop :=
  ∀ {s s' code}, Covers narrowed s → Yields (env.lowerStmts body) s code s' →
    Simulates (machine.runTrees env body) (machine.runAll code) s s'

/-- Lowered under the narrowed names, another branch ends as it does itself. -/
def PreservesElse (machine : Machine) (env : Env) (narrowed : List String)
    (no : Option (List Stmt)) : Prop :=
  ∀ {s s' code}, Covers narrowed s → Yields (env.lowerElse no) s code s' →
    Simulates (machine.runOther env no) (machine.runElse code) s s'

theorem follows_moveTo {u : Unit} (h : Yields (Lowering.moveTo span) s u s') : s.Follows s' := by
  obtain rfl := Lowering.yields_change.mp h
  exact .of_eq rfl rfl

/-! ## Declarations, assignments and results -/

/-- The code of a value, or of no value. -/
def RealizesValue (machine : Machine) (env : Env) (e : Option Expr) (code : Option Target.Expr)
    (s s' : LowerState) : Prop :=
  s.Follows s' ∧
    ∀ K, Fits s K → Does K.target (machine.evalOption code) (machine.evalValue env K.source e)

theorem some_realizes {e : Expr} {form : Form} {code : Option Target.Expr}
    (hregular : e.regular = true) (h : Yields (some <$> env.lowerExpr e form) s code s') :
    RealizesValue machine env (some e) code s s' := by
  obtain ⟨code, hcode, rfl⟩ := Lowering.yields_map.mp h
  obtain ⟨hfollows, hdoes⟩ := lowerExpr_realizes machine hregular hcode
  refine ⟨hfollows, fun K hK => ?_⟩
  simp only [Machine.evalOption, Machine.evalValue]
  exact hdoes K hK

theorem none_realizes {code : Option Target.Expr} (h : code = none ∨ code = some .null) :
    RealizesValue machine env none code s s := by
  refine ⟨.refl s, fun K _ => ?_⟩
  rcases h with rfl | rfl
  · simp only [Machine.evalOption, Machine.evalValue]
    exact .pure _
  · simp only [Machine.evalOption, Machine.evalValue]
    exact Machine.does_null

theorem lowerInit_realizes (machine : Machine) {form : Form} {init : Option Expr}
    {code : Option Target.Expr} (hregular : Expr.regularReceiver init = true)
    (h : Yields (env.lowerInit form init) s code s') :
    RealizesValue machine env init code s s' := by
  cases init with
  | none =>
    obtain ⟨rfl, rfl⟩ := Lowering.yields_pure.mp h
    exact none_realizes (.inl rfl)
  | some e =>
    simp only [Expr.regularReceiver] at hregular
    exact some_realizes hregular h

theorem returnValue_realizes (machine : Machine) {returns : Option ReturnForm} {value : Option Expr}
    {code : Option Target.Expr} (hregular : Expr.regularReceiver value = true)
    (h : Yields (env.returnValue returns value) s code s') :
    RealizesValue machine env value code s s' := by
  cases value with
  | none =>
    cases returns with
    | none =>
      obtain ⟨rfl, rfl⟩ := Lowering.yields_pure.mp h
      exact none_realizes (.inl rfl)
    | some r =>
      obtain ⟨rfl, rfl⟩ := Lowering.yields_pure.mp h
      cases r.inCallable
      · exact none_realizes (.inl rfl)
      · exact none_realizes (.inr rfl)
  | some e =>
    simp only [Expr.regularReceiver] at hregular
    cases returns with
    | none => exact some_realizes hregular h
    | some r => exact some_realizes hregular h

theorem declareLocal_simulates {var : Tree.Variable} {init : Option Expr} {isVariable : Bool}
    {stmt : Target.Stmt} (hplain : Plain var.name) (hfree : s.names.find? var.name = none)
    (hregular : Expr.regularReceiver init = true)
    (h : Yields (env.declareLocal var init isVariable) s stmt s') :
    Simulates (machine.runTree env (.declare span var init isVariable)) (machine.runAll [stmt])
      s s' := by
  obtain ⟨form, s₁, hform, h⟩ := Lowering.yields_bind.mp h
  obtain ⟨ty, s₂, hty, h⟩ := Lowering.yields_bind.mp h
  obtain ⟨value, s₃, hvalue, h⟩ := Lowering.yields_bind.mp h
  obtain ⟨_, s₄, hkeep, h⟩ := Lowering.yields_bind.mp h
  obtain ⟨rfl, rfl⟩ := Lowering.yields_pure.mp h
  obtain rfl := Lowering.yields_change.mp hkeep
  have htypes : s.Follows s₂ := (LowerState.Follows.ofType hform).trans (.ofType hty)
  obtain ⟨hfollows, hdoes⟩ := lowerInit_realizes machine hregular hvalue
  have hall := (htypes.trans hfollows).trans
    (.of_eq rfl rfl : s₃.Follows { s₃ with locals := (var.name, form) :: s₃.locals })
  refine ⟨hall, fun K hK => ?_⟩
  rw [Machine.runAll_single]
  simp only [Machine.runTree, Machine.runCode, Machine.declareVar, bind_assoc]
  refine Agree.reading_bind (hdoes K (hK.follows htypes)) (fun v => .pure ?_)
  refine ⟨rfl, [.shared var.name var.name v], K, ?_, rfl, rfl, fun _ => ?_⟩
  · rw [Frame.after_normal]
    exact .refl K
  · exact (hK.follows hall).declare hplain ((hall.find _).trans hfree) v

theorem targetForm_follows {target : String} {t : Ty} {form : Form}
    (h : Yields (env.targetForm target t) s form s') : s.Follows s' := by
  obtain ⟨found, s₁, hfound, h⟩ := Lowering.yields_bind.mp h
  obtain ⟨_, rfl⟩ := Lowering.yields_reads.mp hfound
  cases found with
  | some form =>
    obtain ⟨_, rfl⟩ := Lowering.yields_pure.mp h
    exact .refl _
  | none => exact .ofType h

theorem run_assign (x : String) (e : Target.Expr) :
    machine.runCode (.exec (.assign (.ident x) e)) = (do
      let v ← machine.evalCode e
      Run.assign x v
      pure .normal) := by
  simp only [Machine.runCode, Machine.evalCode, bind_assoc, pure_bind]

/-- Writing the same slot from both sides. -/
theorem agree_assign {x y : String} (hK : Fits s K) (h : Linked x y K) (v : Value) :
    Agree (After s K)
      ((do
        Run.assign x v
        pure Flow.normal : Run Flow).run K.source)
      ((do
        Run.assign y v
        pure Flow.normal : Run Flow).run K.target) := by
  have hrun : ∀ (z : String) (ρ : Locals), (do
      Run.assign z v
      pure Flow.normal : Run Flow).run ρ = (fun ρ' => (Flow.normal, ρ')) <$> ρ.write z v := by
    intro z ρ
    rw [StateT.run_bind]
    show ((fun ρ' => ((), ρ')) <$> ρ.write z v) >>= _ = _
    rw [bind_map_left, map_eq_pure_bind]
    rfl
  rw [hrun, hrun]
  unfold Locals.write
  rcases h.write v with ⟨hsource, htarget⟩ | ⟨L, hsame, hsource, htarget⟩
  · rw [hsource, htarget]
    exact .halt .stuck
  · rw [hsource, htarget]
    refine .pure ⟨rfl, [], L, ?_, rfl, rfl, fun _ => hK.same hsame⟩
    rw [Frame.after_normal]
    exact hsame

theorem assignTo_simulates {target : String} {e : Expr} {stmt : Target.Stmt}
    (hplain : Plain target) (hregular : e.regular = true)
    (h : Yields (env.assignTo target e) s stmt s') :
    Simulates (machine.runTree env (.assign span target e)) (machine.runAll [stmt]) s s' := by
  obtain ⟨name, s₁, hname, h⟩ := Lowering.yields_bind.mp h
  obtain ⟨form, s₂, hform, h⟩ := Lowering.yields_bind.mp h
  obtain ⟨value, s₃, hvalue, h⟩ := Lowering.yields_bind.mp h
  obtain ⟨rfl, rfl⟩ := Lowering.yields_pure.mp h
  obtain ⟨rfl, rfl⟩ := Lowering.yields_reads.mp hname
  have hbefore := targetForm_follows hform
  obtain ⟨hfollows, hdoes⟩ := lowerExpr_realizes machine hregular hvalue
  refine ⟨hbefore.trans hfollows, fun K hK => ?_⟩
  rw [Machine.runAll_single, run_assign]
  simp only [Machine.runTree]
  refine Agree.reading_bind (hdoes K (hK.follows hbefore)) (fun v => ?_)
  exact agree_assign (hK.follows (hbefore.trans hfollows)) (hK.linked target hplain) v

theorem eval_simulates {e : Expr} {form : Form} {code : Target.Expr} (hregular : e.regular = true)
    (h : Yields (env.lowerExpr e form) s code s') :
    Simulates (machine.runTree env (.eval span e)) (machine.runAll [.exec code]) s s' := by
  obtain ⟨hfollows, hdoes⟩ := lowerExpr_realizes machine hregular h
  refine ⟨hfollows, fun K hK => ?_⟩
  rw [Machine.runAll_single]
  simp only [Machine.runTree, Machine.runCode]
  refine Agree.reading_bind (hdoes K hK) (fun v => .pure ?_)
  exact ⟨rfl, [], K, by rw [Frame.after_normal]; exact .refl K, rfl, rfl,
    fun _ => hK.follows hfollows⟩

theorem ret_simulates {returns : Option ReturnForm} {value : Option Expr}
    {code : Option Target.Expr} (hregular : Expr.regularReceiver value = true)
    (h : Yields (env.returnValue returns value) s code s') :
    Simulates (machine.runTree env (.ret span value)) (machine.runAll [.ret code]) s s' := by
  obtain ⟨hfollows, hdoes⟩ := returnValue_realizes machine hregular h
  refine ⟨hfollows, fun K hK => ?_⟩
  rw [Machine.runAll_single]
  simp only [Machine.runTree, Machine.runCode]
  refine Agree.reading_bind (hdoes K hK) (fun v => .pure ?_)
  refine ⟨rfl, [], K, ?_, rfl, rfl, fun hnormal => by contradiction⟩
  cases s'.loopGuard <;> exact .refl K

/-- Leaving a loop clears its guard. -/
theorem leave_simulates :
    Simulates (machine.runTree env (.leave span)) (machine.runAll (breakClearing s.loopGuard))
      s s := by
  refine ⟨.refl s, fun K hK => ?_⟩
  simp only [Machine.runTree]
  cases hguard : s.loopGuard with
  | none =>
    simp only [breakClearing, Machine.runAll_single, Machine.runCode]
    refine .pure ⟨rfl, [], K, ?_, rfl, rfl, fun hnormal => by contradiction⟩
    rw [hguard]
    exact .refl K
  | some g =>
    have hwrite : (Run.assign g (.bool false)).run K.target =
        pure ((), (K.put g (.bool false)).target) := by
      show (fun ρ' => ((), ρ')) <$> K.target.write g (.bool false) = _
      rw [Locals.write, (hK.guard g hguard).2.write, map_pure]
    have hrun : (machine.runAll (breakClearing (some g))).run K.target =
        pure (.leave, (K.put g (.bool false)).target) := by
      simp only [breakClearing, Machine.runAll_cons, Run.andNext, bind_assoc, pure_bind,
        Target.Expr.bool, Machine.evalCode, Machine.literal, Machine.runAll_nil, Machine.runCode]
      rw [StateT.run_bind, hwrite]
      rfl
    rw [hrun]
    refine .pure ⟨rfl, [], K.put g (.bool false), ?_, ?_, rfl, fun hnormal => by contradiction⟩
    · rw [hguard]
      exact .refl _
    · exact (Frame.source_put g (.bool false) K).symm

/-! ## Guarded blocks -/

/-- A guarded block opens with what the condition binds, and ends as the block
does. -/
theorem guarded_ends {test : Condition} {c : LoweredCondition} {yes : List Stmt}
    {code : List Target.Stmt} (hnarrows : c.narrowed.toList.map Narrowed.source = test.narrows)
    (hcovers : Covers narrowed s) (hyes : Preserves machine env (test.narrows ++ narrowed) yes)
    (h : Yields (Lowering.guarded c.narrowed (env.lowerStmts yes)) s code s') :
    s.Follows s' ∧ ∀ K new, Fits s K → Opens machine s c K new →
      Agree (Ends s.loopGuard K)
        ((do
          Run.declareAll new
          machine.runTrees env yes).run K.source)
        ((machine.runAll code).run K.target) := by
  rw [← hnarrows] at hyes
  unfold Opens
  cases hnarrowed : c.narrowed with
  | none =>
    rw [hnarrowed] at h hyes
    obtain ⟨hfollows, hsim⟩ := hyes hcovers h
    refine ⟨hfollows, fun K new hK hnew => ?_⟩
    cases hnew
    exact (hsim K hK).mono (fun _ _ hr => hfollows.guard ▸ hr.ends)
  | some n =>
    rw [hnarrowed] at h hyes
    obtain ⟨body, s₁, hbody, h⟩ := Lowering.yields_bind.mp h
    obtain ⟨rfl, rfl⟩ := Lowering.yields_pure.mp h
    obtain ⟨u, hblock, rfl⟩ := Lowering.yields_withReplacement.mp hbody
    obtain ⟨hfollows, hsim⟩ := hyes (hcovers.replace n.source n.synthetic) hblock
    refine ⟨hfollows.withReplacement, fun K new _ hnew => ?_⟩
    obtain ⟨v, rfl, hbinding, hfits⟩ := hnew
    have hrun : (machine.runAll (n.binding :: body)).run K.target =
        (machine.runAll body).run ((n.synthetic, v) :: K.target) := by
      rw [Machine.runAll_cons, Run.andNext, StateT.run_bind, hbinding, pure_bind]
    rw [hrun]
    refine (hsim _ hfits).mono (fun r r' hr => ?_)
    have hends : Ends s.loopGuard ([.shared n.source n.synthetic v] ++ K) r r' :=
      hfollows.guard ▸ hr.ends
    exact hends.append

/-! ## Branches -/

theorem runAll_branch (c : LoweredCondition) (yes : List Target.Stmt)
    (no : Option (List Target.Stmt)) (hsetup : ∀ stmt ∈ c.setup, ∃ d, stmt = .declare d) :
    machine.runAll (c.branch yes no) = (do
      if ← machine.runTest c then Run.inScope (machine.runAll yes) else machine.runElse no) := by
  unfold LoweredCondition.branch Machine.runTest
  rw [Machine.runAll_declarations hsetup, Machine.runAll_single]
  simp only [Machine.runCode, bind_assoc]

theorem branch_simulates {test : Condition} {yes : List Stmt} {no : Option (List Stmt)}
    {c : LoweredCondition} {thenCode : List Target.Stmt} {elseCode : Option (List Target.Stmt)}
    {s₁ s₂ : LowerState} (hcovers : Covers narrowed s)
    (hyes : Preserves machine env (test.narrows ++ narrowed) yes)
    (hno : PreservesElse machine env narrowed no) (hc : Decides machine env test c s s₁)
    (hthen : Yields (Lowering.guarded c.narrowed (env.lowerStmts yes)) s₁ thenCode s₂)
    (helse : Yields (env.lowerElse no) s₂ elseCode s') :
    Simulates (machine.runTree env (.branch span test yes no))
      (machine.runAll (c.branch thenCode elseCode)) s s' := by
  have hcovers₁ := hcovers.follows hc.follows
  obtain ⟨hfollows, hguarded⟩ := guarded_ends hc.narrows hcovers₁ hyes hthen
  obtain ⟨hfollows', helseSim⟩ := hno (hcovers₁.follows hfollows) helse
  have hafter := hfollows.trans hfollows'
  refine ⟨hc.follows.trans hafter, fun K hK => ?_⟩
  rw [runAll_branch c thenCode elseCode hc.setup]
  simp only [Machine.runTree]
  rw [run_reading_bind, StateT.run_bind]
  refine (hc.agrees K hK).bind ?_
  rintro o ⟨b, τ⟩ ⟨hb, L, hsource, _, hτ, hfits, hopens⟩
  cases hτ
  cases hb
  have hK' : K.source = (L ++ K).source := by rw [Frame.source_append, hsource, List.nil_append]
  rw [hK']
  refine Agree.mono ?_ (fun r r' (hr : After s' (L ++ K) r r') => hr.append)
  cases o with
  | none => exact helseSim (L ++ K) (hfits.follows hfollows)
  | some new =>
    have hends := hguarded (L ++ K) new hfits (hopens new rfl)
    refine hends.inScope.mono (fun r r' hr => ?_)
    exact Scoped.after (hfits.follows hafter) (hafter.guard.symm ▸ hr)

/-! ## Loops on a condition -/

/-- A round of a loop on a condition. -/
def Machine.conditionRound (machine : Machine) (env : Env) (test : Condition)
    (body : List Stmt) : Run (Option Flow) := do
  match ← Run.reading (machine.bindings env · test) with
  | some new => some <$> Run.inScope do
    Run.declareAll new
    machine.runTrees env body
  | none => pure none

theorem run_conditionRound (test : Condition) (body : List Stmt) (ρ : Locals) :
    (machine.conditionRound env test body).run ρ = (do
      match ← machine.bindings env ρ test with
      | some new => (fun r => (some r.1, r.2)) <$> (Run.inScope do
        Run.declareAll new
        machine.runTrees env body).run ρ
      | none => pure (none, ρ)) := by
  unfold Machine.conditionRound
  rw [run_reading_bind]
  refine bind_congr (fun o => ?_)
  cases o with
  | none => rfl
  | some new => exact StateT.run_map _ _ _

/-- A round whose test comes first. -/
theorem run_plainRound (c : LoweredCondition) (body : List Target.Stmt) (hsetup : c.setup = [])
    (ρ : Locals) :
    (do
      if ← truth (← machine.evalCode c.test) then some <$> Run.inScope (machine.runAll body)
      else pure none : Run (Option Flow)).run ρ = (do
      let r ← (machine.runTest c).run ρ
      if r.1 then (fun r => (some r.1, r.2)) <$> (Run.inScope (machine.runAll body)).run r.2
      else pure (none, r.2)) := by
  have htest : machine.runTest c = (do truth (← machine.evalCode c.test)) := by
    simp only [Machine.runTest, hsetup, Machine.runAll, pure_bind]
  rw [htest, ← bind_assoc, StateT.run_bind]
  refine bind_congr (fun r => ?_)
  cases r.1 with
  | false => rfl
  | true => exact StateT.run_map _ _ _

/-- A round that leaves the loop when its test fails. -/
theorem runAll_testing (c : LoweredCondition) (body : List Target.Stmt)
    (hsetup : ∀ stmt ∈ c.setup, ∃ d, stmt = .declare d) :
    machine.runAll (c.setup ++ [.branch (.not c.test) [.leave] none] ++ body) = (do
      if ← machine.runTest c then machine.runAll body else pure .leave) := by
  have hleave : Run.inScope (pure .leave : Run Flow) = pure .leave := by
    funext ρ
    show (pure (Flow.leave, Locals.keep ρ.length ρ) : Act (Flow × Locals)) = pure (Flow.leave, ρ)
    rw [Locals.keep, Nat.sub_self, List.drop_zero]
  have htest : machine.runCode (.branch (.not c.test) [.leave] none) = (do
      if ← truth (← machine.evalCode c.test) then pure .normal else pure .leave) := by
    simp only [Machine.runCode, Machine.evalCode, negate, Machine.runAll_single, Machine.runElse,
      bind_assoc, pure_bind, hleave]
    refine bind_congr (fun v => bind_congr (fun b => ?_))
    cases b <;> rfl
  rw [List.append_assoc, Machine.runAll_declarations hsetup, List.singleton_append,
    Machine.runAll_cons, htest]
  simp only [Machine.runTest, Run.andNext, bind_assoc]
  refine bind_congr (fun _ => bind_congr (fun v => bind_congr (fun b => ?_)))
  cases b <;> rfl

theorem runCode_conditionLoop (c : LoweredCondition) (body : List Target.Stmt)
    (hplain : c.isPlain = false) (hsetup : ∀ stmt ∈ c.setup, ∃ d, stmt = .declare d) :
    machine.runCode (c.loop body) = loop (some <$> Run.inScope (do
      if ← machine.runTest c then machine.runAll body else pure .leave)) machine.rounds := by
  unfold LoweredCondition.loop
  rw [hplain, if_neg Bool.false_ne_true]
  simp only [Machine.runCode, runAll_testing c body hsetup, Target.Expr.bool, Machine.evalCode,
    Machine.literal, pure_bind]
  rfl

/-- A round of the tree, in which no guard is set, and one of the code end
alike. -/
theorem RoundEnds.of_scoped {r r' : Flow × Locals} (h : Scoped none K r r') :
    RoundEnds K (some r.1, r.2) (some r'.1, r'.2) := by
  obtain ⟨hflow, L, hsame, hsource, htarget⟩ := h
  exact ⟨.inl (congrArg some hflow), L, hsame, hsource, htarget⟩

theorem plainRound_agrees {test : Condition} {c : LoweredCondition} {body : List Stmt}
    {code : List Target.Stmt} {s₁ : LowerState} (hsetup : c.setup = [])
    (hc : Decides machine env test c s s₁)
    (hbody : ∀ K new, Fits s₁ K → Opens machine s₁ c K new →
      Agree (Ends none K)
        ((do
          Run.declareAll new
          machine.runTrees env body).run K.source)
        ((machine.runAll code).run K.target))
    (hK : Fits s K) :
    Agree (RoundEnds K) ((machine.conditionRound env test body).run K.source)
      ((do
        if ← truth (← machine.evalCode c.test) then some <$> Run.inScope (machine.runAll code)
        else pure none : Run (Option Flow)).run K.target) := by
  rw [run_conditionRound, run_plainRound c code hsetup]
  refine (hc.agrees K hK).bind ?_
  rintro o ⟨b, τ⟩ ⟨hb, L, _, hempty, hτ, hfits, hopens⟩
  obtain rfl := hempty hsetup
  cases hτ
  cases hb
  cases o with
  | none => exact .pure ⟨.inl rfl, K, .refl K, rfl, rfl⟩
  | some new => exact (hbody K new hfits (hopens new rfl)).inScope.map (fun _ _ hr => .of_scoped hr)

theorem testingRound_agrees {test : Condition} {c : LoweredCondition} {body : List Stmt}
    {code : List Target.Stmt} {s₁ : LowerState} (hc : Decides machine env test c s s₁)
    (hbody : ∀ K new, Fits s₁ K → Opens machine s₁ c K new →
      Agree (Ends none K)
        ((do
          Run.declareAll new
          machine.runTrees env body).run K.source)
        ((machine.runAll code).run K.target))
    (hK : Fits s K) :
    Agree (RoundEnds K) ((machine.conditionRound env test body).run K.source)
      ((some <$> Run.inScope (do
        if ← machine.runTest c then machine.runAll code else pure .leave)).run K.target) := by
  have hscope : ∀ (x : Run Flow) (ρ : Locals), (some <$> Run.inScope x).run ρ =
      (fun r => (some r.1, Locals.keep ρ.length r.2)) <$> x.run ρ := by
    intro x ρ
    rw [StateT.run_map]
    exact Functor.map_map _ _ _
  rw [run_conditionRound, hscope, StateT.run_bind, map_bind]
  refine (hc.agrees K hK).bind ?_
  rintro o ⟨b, τ⟩ ⟨hb, L, hsource, _, hτ, hfits, hopens⟩
  cases hτ
  cases hb
  have hK' : K.source = (L ++ K).source := by rw [Frame.source_append, hsource, List.nil_append]
  cases o with
  | none =>
    refine .pure ⟨.inr ⟨rfl, rfl⟩, K, .refl K, rfl, ?_⟩
    show Locals.keep K.target.length (L ++ K).target = K.target
    rw [Frame.target_append, Locals.keep_append]
  | some new =>
    have hinner : (Run.inScope (do
        Run.declareAll new
        machine.runTrees env body)).run K.source =
        (fun r => (r.1, Locals.keep K.source.length r.2)) <$> (do
          Run.declareAll new
          machine.runTrees env body).run (L ++ K).source := by
      rw [← hK']
      rfl
    show Agree _ ((fun r => (some r.1, r.2)) <$> (Run.inScope (do
      Run.declareAll new
      machine.runTrees env body)).run K.source) _
    rw [hinner, Functor.map_map]
    refine (hbody (L ++ K) new hfits (hopens new rfl)).map (fun r r' hr => ?_)
    exact .of_scoped hr.append.keep

/-- A loop on a condition, lowered without a guard. -/
theorem loop_simulates {test : Condition} {body : List Stmt} {c : LoweredCondition}
    {code : List Target.Stmt} {s₁ : LowerState} (hguard : s.loopGuard = none)
    (hcovers : Covers narrowed s) (hbody : Preserves machine env (test.narrows ++ narrowed) body)
    (hc : Decides machine env test c s s₁)
    (hcode : Yields (Lowering.guarded c.narrowed (env.lowerStmts body)) s₁ code s') :
    s.Follows s' ∧ ∀ K, Fits s K →
      Agree (Outside K) ((machine.runTree env (.loop span test body)).run K.source)
        ((machine.runCode (c.loop code)).run K.target) := by
  have hguard₁ : s₁.loopGuard = none := hc.follows.guard.trans hguard
  obtain ⟨hfollows, hends⟩ := guarded_ends hc.narrows (hcovers.follows hc.follows) hbody hcode
  rw [hguard₁] at hends
  refine ⟨hc.follows.trans hfollows, ?_⟩
  have htree : machine.runTree env (.loop span test body) =
      loop (machine.conditionRound env test body) machine.rounds := by
    simp only [Machine.runTree]
    rfl
  rw [htree]
  cases hnarrowed : c.narrowed with
  | none =>
    have hsetup : c.setup = [] := hc.plain hnarrowed
    have hplain : c.isPlain = true := by simp [LoweredCondition.isPlain, hsetup, hnarrowed]
    rw [LoweredCondition.loop, if_pos hplain]
    simp only [Machine.runCode]
    exact Agree.loop (fun K hK => plainRound_agrees hsetup hc hends hK) machine.rounds
  | some n =>
    have hplain : c.isPlain = false := by simp [LoweredCondition.isPlain, hnarrowed]
    rw [runCode_conditionLoop c code hplain hc.setup]
    exact Agree.loop (fun K hK => testingRound_agrees hc hends hK) machine.rounds

/-- The statement, lowered while the guard of the loop around it is put away. -/
theorem conditionLoop_simulates {test : Condition} {body : List Stmt} {c : LoweredCondition}
    {code : List Target.Stmt} {s₁ u : LowerState} (hcovers : Covers narrowed s)
    (hbody : Preserves machine env (test.narrows ++ narrowed) body)
    (hc : Decides machine env test c { s with loopGuard := none } s₁)
    (hcode : Yields (Lowering.guarded c.narrowed (env.lowerStmts body)) s₁ code u)
    (hs' : s' = { u with loopGuard := s.loopGuard }) :
    Simulates (machine.runTree env (.loop span test body)) (machine.runAll [c.loop code]) s s' := by
  obtain ⟨hloop, hagree⟩ := loop_simulates rfl (hcovers.withGuard none) hbody hc hcode
  have hfollows : s.Follows s' := hs' ▸ hloop.withLoopGuard
  refine ⟨hfollows, fun K hK => ?_⟩
  rw [Machine.runAll_single]
  exact (hagree K hK.unguarded).mono fun r r' (hr : Outside K r r') =>
    hr.after (hK.follows hfollows)

/-! ## Loops over something iterable -/

/-- A round of a loop: it binds the element, and then runs the body. -/
def Machine.elementRound (machine : Machine) (env : Env) (binding : LoopBinding)
    (body : List Stmt) (v : Value) : Run Flow :=
  Run.inScope do
    machine.bindRound v binding
    machine.runTrees env body

theorem runTree_each (binding : LoopBinding) (subject : Expr) (body : List Stmt)
    (no : Option (List Stmt)) :
    machine.runTree env (.each span binding subject body no) = (do
      match ← machine.overElements env subject (machine.elementRound env binding body) with
      | .normal => machine.runOther env no
      | .leave => pure .normal
      | .ret v => pure (.ret v)) := by
  simp only [Machine.runTree, Machine.overElements, bind_assoc]
  refine bind_congr (fun v => ?_)
  cases v <;> rfl

/-- Rounds of the lowered loop end as the rounds of the loop do. -/
theorem elementRound_agrees {binding : LoopBinding} {subject : Expr} {head : LoopHead}
    {body : List Stmt} {code : List Target.Stmt} {s₁ : LowerState}
    (hhead : Heads machine env binding subject head s s₁)
    (hbody : Simulates (machine.runTrees env body) (machine.runAll code) s₁ s') (v : Value)
    (vs : List Value) (K : Frame) (hK : Fits s₁ (.hidden head.iterator (.iter (v :: vs)) :: K)) :
    Agree (Scoped s.loopGuard (.hidden head.iterator (.iter (v :: vs)) :: K))
      ((machine.elementRound env binding body v).run K.source)
      ((Run.inScope (machine.runAll (head.bindings ++ code))).run
        ((head.iterator, .iter (v :: vs)) :: K.target)) := by
  have hguard : s'.loopGuard = s.loopGuard := hbody.1.guard.trans hhead.drawn.follows.guard
  have hread : Locals.read head.iterator ((head.iterator, .iter (v :: vs)) :: K.target) =
      pure (.iter (v :: vs)) := read_cons _ _ _
  refine Agree.inScope ?_
  rw [Machine.runAll_declarations hhead.declares]
  refine (hhead.binds hK hread).run_bind ?_
  rintro _ ρ _ τ ⟨M, hρ, hτ, hfits⟩
  cases hρ
  cases hτ
  refine (hbody.2 (M ++ _) hfits).mono (fun r r' hr => ?_)
  exact hguard ▸ hr.append.ends

/-- A loop without another branch needs no guard. -/
theorem each_simulates_of_none {binding : LoopBinding} {subject : Expr} {head : LoopHead}
    {body : List Stmt} {code : List Target.Stmt} {s₁ u : LowerState}
    (hhead : Heads machine env binding subject head { s with loopGuard := none } s₁)
    (hbody : Simulates (machine.runTrees env body) (machine.runAll code) s₁ u)
    (hs' : s' = { u with loopGuard := s.loopGuard }) :
    Simulates (machine.runTree env (.each span binding subject body none))
      (machine.runAll [head.loop code]) s s' := by
  have hfollows : s.Follows s' := by
    rw [hs']
    exact (hhead.drawn.follows.trans hbody.1).withLoopGuard
  refine ⟨hfollows, fun K hK => ?_⟩
  have hloop := loop_agrees hhead (elementRound_agrees hhead hbody) hK.unguarded
  rw [Machine.runAll_single, runTree_each, StateT.run_bind,
    ← bind_pure ((machine.runCode (head.loop code)).run K.target)]
  refine hloop.bind ?_
  rintro ⟨flow, ρ⟩ ⟨flow', τ⟩ ⟨hflow, L, hsame, hρ, hτ⟩
  cases hρ
  cases hτ
  cases hflow
  have hafter : After s' K (flow.outside, L.source) (flow.outside, L.target) :=
    .outside (M := []) hsame ((hK.follows hfollows).same hsame) flow
  cases flow with
  | normal =>
    rw [Machine.runOther_none]
    exact .pure hafter
  | leave | ret _ => exact .pure hafter

theorem run_guardedElse {g : String} {b : Bool} {τ : Locals} {code : List Target.Stmt}
    (hread : Locals.read g τ = pure (.bool b)) :
    (machine.runCode (.branch (.ident g) code none)).run τ =
      if b then (Run.inScope (machine.runAll code)).run τ else pure (.normal, τ) := by
  have htest : Does τ (do truth (← machine.evalCode (.ident g))) (pure b) := by
    have hguard : Does τ (machine.evalCode (.ident g)) (pure (.bool b)) := Machine.does_read hread
    have htruth := hguard.truth
    rw [pure_bind] at htruth
    exact htruth
  simp only [Machine.runCode]
  rw [← bind_assoc, htest.run_bind, pure_bind]
  cases b with
  | true => rfl
  | false =>
    rw [Machine.runElse_none]
    rfl

/-- The guard of a loop is set before the loop, and read after it. -/
theorem run_guardedLoop (loop : Target.Stmt) (g : String) (elseCode : List Target.Stmt)
    (τ : Locals) :
    (machine.runAll (declareGuard (some g) ++ loop :: guardedElse (some g) (some elseCode))).run τ =
      ((machine.runCode loop).andNext
        (machine.runCode (.branch (.ident g) elseCode none))).run ((g, .bool true) :: τ) := by
  have hdeclare : (machine.runAll (declareGuard (some g))).run τ =
      pure (.normal, (g, .bool true) :: τ) := by
    simp only [declareGuard, Machine.runAll_single, Machine.runCode, Machine.declareVar,
      Machine.evalOption, Target.Expr.bool, Machine.evalCode, Machine.literal, pure_bind]
    rfl
  have hdeclares : ∀ stmt ∈ declareGuard (some g), ∃ d, stmt = .declare d :=
    fun stmt hmem => ⟨_, List.mem_singleton.mp hmem⟩
  rw [Machine.runAll_declarations hdeclares, StateT.run_bind, hdeclare, pure_bind,
    Machine.runAll_cons, guardedElse, Machine.runAll_single]

/-- A loop with another branch sets a guard, which is still set after it unless
the loop was left. -/
theorem each_simulates_of_some {binding : LoopBinding} {subject : Expr} {head : LoopHead}
    {body els : List Stmt} {code elseCode : List Target.Stmt} {g : String}
    {s₀ s₁ u u' : LowerState} (hg : Drawn s g s₀)
    (hhead : Heads machine env binding subject head { s₀ with loopGuard := some g } s₁)
    (hbody : Simulates (machine.runTrees env body) (machine.runAll code) s₁ u)
    (hu' : u' = { u with loopGuard := s₀.loopGuard })
    (helse : Simulates (machine.runOther env (some els)) (machine.runElse (some elseCode)) u' s') :
    Simulates (machine.runTree env (.each span binding subject body (some els)))
      (machine.runAll (declareGuard (some g) ++ head.loop code ::
        guardedElse (some g) (some elseCode))) s s' := by
  have hfollows₀ : s₀.Follows u' := by
    rw [hu']
    exact (hhead.drawn.follows.trans hbody.1).withLoopGuard
  have hdrawn : Drawn s g u' := hg.after hfollows₀
  refine ⟨hdrawn.follows.trans helse.1, fun K hK => ?_⟩
  have hloop := loop_agrees hhead (elementRound_agrees hhead hbody) (hK.guarded hg (.bool true))
  rw [run_guardedLoop, Run.andNext, StateT.run_bind, runTree_each, StateT.run_bind]
  refine hloop.bind ?_
  rintro ⟨flow, ρ⟩ ⟨flow', τ⟩ ⟨hflow, L, hsame, hρ, hτ⟩
  cases hρ
  cases hτ
  cases hflow
  -- The guard is the first slot on the side of the code, set unless the loop was left.
  have hread : ∀ (b : Bool) (L : Frame),
      Locals.read g (Frame.target (.hidden g (.bool b) :: L)) = pure (.bool b) :=
    fun b L => read_cons g (.bool b) L.target
  have hfits : ∀ {b L}, Same K L → Fits u' (.hidden g (.bool b) :: L) :=
    fun hsame => (hK.same hsame).hide hdrawn _
  cases flow with
  | normal =>
    rw [Frame.after_normal] at hsame
    cases hsame with
    | @hidden _ L _ _ hsame =>
      show Agree _ _ ((machine.runCode (.branch (.ident g) elseCode none)).run _)
      rw [run_guardedElse (hread true L)]
      refine (helse.2 _ (hfits hsame)).mono (fun r r' hr => ?_)
      exact .trans hsame (.append (M := [.hidden g (.bool true)]) hr)
  | leave =>
    have hput : Frame.after (some g) .leave (.hidden g (.bool true) :: K) =
        .hidden g (.bool false) :: K := by
      simp only [Frame.after, Frame.put, if_true, Frame.put_of_free _ (hK.free hg.new)]
    rw [hput] at hsame
    cases hsame with
    | @hidden _ L _ _ hsame =>
      show Agree _ _ ((machine.runCode (.branch (.ident g) elseCode none)).run _)
      rw [run_guardedElse (hread false L)]
      exact .pure (.outside (M := [.hidden g (.bool false)]) hsame
        ((hfits hsame).follows helse.1) .leave)
  | ret v =>
    rw [Frame.after_ret] at hsame
    cases hsame with
    | @hidden _ L _ _ hsame =>
      exact .pure (.outside (M := [.hidden g (.bool true)]) hsame
        ((hfits hsame).follows helse.1) (.ret v))

/-- What is lowered from a state without another branch is no branch either. -/
theorem lowerElse_none {code : Option (List Target.Stmt)}
    (h : Yields (env.lowerElse none) s code s') : code = none ∧ s' = s := by
  unfold Env.lowerElse at h
  exact Lowering.yields_pure.mp h

theorem lowerElse_some {els : List Stmt} {code : Option (List Target.Stmt)}
    (h : Yields (env.lowerElse (some els)) s code s') : ∃ elseCode, code = some elseCode := by
  unfold Env.lowerElse at h
  obtain ⟨elseCode, s₁, _, h⟩ := Lowering.yields_bind.mp h
  exact ⟨elseCode, (Lowering.yields_pure.mp h).1⟩

theorem each_simulates {binding : LoopBinding} {subject : Expr} {body : List Stmt}
    {no : Option (List Stmt)} {code : List Target.Stmt} (hcovers : Covers narrowed s)
    (hregular : subject.regular = true) (hplain : ∀ x ∈ binding.names, Plain x)
    (hfree : ∀ x ∈ binding.names, x ∉ narrowed)
    (hbody : Preserves machine env narrowed body) (hno : PreservesElse machine env narrowed no)
    (h : Yields (do
      let guard ← Env.loopGuard no.isSome
      let s ← Lowering.withLoopGuard guard do
        let head ← env.loopHead binding subject
        let lowered ← env.lowerStmts body
        pure (head.loop lowered)
      let other ← env.lowerElse no
      pure (declareGuard guard ++ s :: guardedElse guard other)) s code s') :
    Simulates (machine.runTree env (.each span binding subject body no)) (machine.runAll code)
      s s' := by
  obtain ⟨guard, s₀, hguard, h⟩ := Lowering.yields_bind.mp h
  obtain ⟨stmt, s₁, hstmt, h⟩ := Lowering.yields_bind.mp h
  obtain ⟨other, s₂, hother, h⟩ := Lowering.yields_bind.mp h
  obtain ⟨rfl, rfl⟩ := Lowering.yields_pure.mp h
  obtain ⟨u, hloop, rfl⟩ := Lowering.yields_withLoopGuard.mp hstmt
  obtain ⟨head, s₃, hhead, hloop⟩ := Lowering.yields_bind.mp hloop
  obtain ⟨lowered, s₄, hlowered, hloop⟩ := Lowering.yields_bind.mp hloop
  obtain ⟨rfl, rfl⟩ := Lowering.yields_pure.mp hloop
  have hcovers₀ : Covers narrowed s₀ := by
    cases no with
    | none =>
      obtain ⟨_, rfl⟩ := Lowering.yields_pure.mp hguard
      exact hcovers
    | some els =>
      obtain ⟨g, t, hfresh, hguard⟩ := Lowering.yields_bind.mp hguard
      obtain ⟨_, rfl⟩ := Lowering.yields_pure.mp hguard
      exact hcovers.follows (.fresh hfresh)
  have hheads : Heads machine env binding subject head { s₀ with loopGuard := guard } s₃ :=
    loopHead_heads hregular (fun x hx => ⟨hplain x hx, hcovers₀ x (hfree x hx)⟩) hhead
  have hcovers₃ : Covers narrowed s₃ := fun x hx =>
    (hheads.drawn.follows.find x).trans (hcovers₀ x hx)
  have hsim := hbody hcovers₃ hlowered
  cases no with
  | none =>
    obtain ⟨rfl, rfl⟩ := Lowering.yields_pure.mp hguard
    obtain ⟨rfl, rfl⟩ := lowerElse_none hother
    exact each_simulates_of_none hheads hsim rfl
  | some els =>
    obtain ⟨g, t, hfresh, hguard⟩ := Lowering.yields_bind.mp hguard
    obtain ⟨rfl, rfl⟩ := Lowering.yields_pure.mp hguard
    obtain ⟨elseCode, rfl⟩ := lowerElse_some hother
    have hcoversElse := (hcovers₃.follows hsim.1).withGuard s₀.loopGuard
    exact each_simulates_of_some (.fresh hfresh) hheads hsim rfl (hno hcoversElse hother)

/-! ## All statements -/

theorem runTrees_cons (stmt : Stmt) (stmts : List Stmt) :
    machine.runTrees env (stmt :: stmts) =
      (machine.runTree env stmt).andNext (machine.runTrees env stmts) := by
  simp only [Machine.runTrees]
  rfl

mutual

theorem lowerStmt_simulates : ∀ (stmt : Stmt), stmt.regular = true → ∀ {narrowed},
    stmt.wellScoped narrowed = true → ∀ {s s' code}, Covers narrowed s →
      Yields (env.lowerStmt stmt) s code s' →
        Simulates (machine.runTree env stmt) (machine.runAll code) s s'
  | .declare span var init isVariable, hregular, narrowed, hscoped, s, s', code, hcovers, h => by
    unfold Env.lowerStmt at h
    obtain ⟨_, s₁, hmove, h⟩ := Lowering.yields_bind.mp h
    obtain ⟨stmt, s₂, hstmt, h⟩ := Lowering.yields_bind.mp h
    obtain ⟨rfl, rfl⟩ := Lowering.yields_pure.mp h
    simp only [Stmt.regular, Bool.and_eq_true, decide_eq_true_eq] at hregular
    have hnot : var.name ∉ narrowed := by simpa [Stmt.wellScoped] using hscoped
    have hmoved := follows_moveTo hmove
    have hfree := hcovers.follows hmoved var.name hnot
    exact .before hmoved (declareLocal_simulates hregular.1 hfree hregular.2 hstmt)
  | .assign span target e, hregular, narrowed, hscoped, s, s', code, hcovers, h => by
    unfold Env.lowerStmt at h
    obtain ⟨_, s₁, hmove, h⟩ := Lowering.yields_bind.mp h
    obtain ⟨stmt, s₂, hstmt, h⟩ := Lowering.yields_bind.mp h
    obtain ⟨rfl, rfl⟩ := Lowering.yields_pure.mp h
    simp only [Stmt.regular, Bool.and_eq_true, decide_eq_true_eq] at hregular
    exact .before (follows_moveTo hmove) (assignTo_simulates hregular.1 hregular.2 hstmt)
  | .eval span e, hregular, narrowed, _, s, s', code, _, h => by
    unfold Env.lowerStmt at h
    obtain ⟨_, s₁, hmove, h⟩ := Lowering.yields_bind.mp h
    obtain ⟨value, s₂, hvalue, h⟩ := Lowering.yields_bind.mp h
    obtain ⟨rfl, rfl⟩ := Lowering.yields_pure.mp h
    simp only [Stmt.regular] at hregular
    exact .before (follows_moveTo hmove) (eval_simulates hregular hvalue)
  | .ret span value, hregular, narrowed, _, s, s', code, _, h => by
    unfold Env.lowerStmt at h
    obtain ⟨_, s₁, hmove, h⟩ := Lowering.yields_bind.mp h
    obtain ⟨returns, s₂, hreturns, h⟩ := Lowering.yields_bind.mp h
    obtain ⟨e, s₃, he, h⟩ := Lowering.yields_bind.mp h
    obtain ⟨rfl, rfl⟩ := Lowering.yields_pure.mp h
    obtain ⟨rfl, rfl⟩ := Lowering.yields_reads.mp hreturns
    simp only [Stmt.regular] at hregular
    exact .before (follows_moveTo hmove) (ret_simulates hregular he)
  | .leave span, _, narrowed, _, s, s', code, _, h => by
    unfold Env.lowerStmt at h
    obtain ⟨_, s₁, hmove, h⟩ := Lowering.yields_bind.mp h
    obtain ⟨guard, s₂, hguard, h⟩ := Lowering.yields_bind.mp h
    obtain ⟨rfl, rfl⟩ := Lowering.yields_pure.mp h
    obtain ⟨rfl, rfl⟩ := Lowering.yields_reads.mp hguard
    exact .before (follows_moveTo hmove) leave_simulates
  | .branch span test yes no, hregular, narrowed, hscoped, s, s', code, hcovers, h => by
    unfold Env.lowerStmt at h
    obtain ⟨_, s₁, hmove, h⟩ := Lowering.yields_bind.mp h
    obtain ⟨c, s₂, hc, h⟩ := Lowering.yields_bind.mp h
    obtain ⟨thenCode, s₃, hthen, h⟩ := Lowering.yields_bind.mp h
    obtain ⟨elseCode, s₄, helse, h⟩ := Lowering.yields_bind.mp h
    obtain ⟨rfl, rfl⟩ := Lowering.yields_pure.mp h
    simp only [Stmt.regular, Stmt.wellScoped, Bool.and_eq_true] at hregular hscoped
    obtain ⟨⟨htest, hyes⟩, hno⟩ := hregular
    have hmoved := follows_moveTo hmove
    exact .before hmoved (branch_simulates (hcovers.follows hmoved)
      (lowerStmts_simulates yes hyes hscoped.1) (lowerElse_simulates no hno hscoped.2)
      (lowerCondition_decides htest hc) hthen helse)
  | .loop span test body, hregular, narrowed, hscoped, s, s', code, hcovers, h => by
    unfold Env.lowerStmt at h
    obtain ⟨_, s₁, hmove, h⟩ := Lowering.yields_bind.mp h
    obtain ⟨stmt, s₂, hstmt, h⟩ := Lowering.yields_bind.mp h
    obtain ⟨rfl, rfl⟩ := Lowering.yields_pure.mp h
    simp only [Stmt.regular, Stmt.wellScoped, Bool.and_eq_true] at hregular hscoped
    have hmoved := follows_moveTo hmove
    obtain ⟨u, hloop, rfl⟩ := Lowering.yields_withLoopGuard.mp hstmt
    obtain ⟨c, s₃, hc, hloop⟩ := Lowering.yields_bind.mp hloop
    obtain ⟨lowered, s₄, hlowered, hloop⟩ := Lowering.yields_bind.mp hloop
    obtain ⟨rfl, rfl⟩ := Lowering.yields_pure.mp hloop
    exact .before hmoved (conditionLoop_simulates (hcovers.follows hmoved)
      (lowerStmts_simulates body hregular.2 hscoped) (lowerCondition_decides hregular.1 hc)
      hlowered rfl)
  | .each span binding subject body no, hregular, narrowed, hscoped, s, s', code, hcovers, h => by
    unfold Env.lowerStmt at h
    obtain ⟨_, s₁, hmove, h⟩ := Lowering.yields_bind.mp h
    simp only [Stmt.regular, Stmt.wellScoped, Bool.and_eq_true] at hregular hscoped
    obtain ⟨⟨⟨hnames, hsubject⟩, hbody⟩, hno⟩ := hregular
    obtain ⟨⟨hfree, hbody'⟩, hno'⟩ := hscoped
    have hmoved := follows_moveTo hmove
    refine .before hmoved (each_simulates (hcovers.follows hmoved) hsubject ?_ ?_
      (lowerStmts_simulates body hbody hbody') (lowerElse_simulates no hno hno') h)
    · simpa using hnames
    · simpa using hfree
  | .block span body, hregular, narrowed, hscoped, s, s', code, hcovers, h => by
    unfold Env.lowerStmt at h
    obtain ⟨_, s₁, hmove, h⟩ := Lowering.yields_bind.mp h
    obtain ⟨lowered, s₂, hlowered, h⟩ := Lowering.yields_bind.mp h
    obtain ⟨rfl, rfl⟩ := Lowering.yields_pure.mp h
    simp only [Stmt.regular, Stmt.wellScoped] at hregular hscoped
    have hmoved := follows_moveTo hmove
    have hsim := lowerStmts_simulates body hregular hscoped (hcovers.follows hmoved) hlowered
    rw [Machine.runAll_single]
    simp only [Machine.runTree, Machine.runCode]
    exact .before hmoved hsim.inScope

theorem lowerStmts_simulates : ∀ (stmts : List Stmt), Stmt.regularAll stmts = true →
    ∀ {narrowed}, Stmt.wellScopedAll narrowed stmts = true → ∀ {s s' code}, Covers narrowed s →
      Yields (env.lowerStmts stmts) s code s' →
        Simulates (machine.runTrees env stmts) (machine.runAll code) s s'
  | [], _, narrowed, _, s, s', code, _, h => by
    unfold Env.lowerStmts at h
    obtain ⟨rfl, rfl⟩ := Lowering.yields_pure.mp h
    rw [Machine.runTrees_nil, Machine.runAll_nil]
    exact .nothing s'
  | stmt :: stmts, hregular, narrowed, hscoped, s, s', code, hcovers, h => by
    unfold Env.lowerStmts at h
    obtain ⟨lowered, s₁, hlowered, h⟩ := Lowering.yields_bind.mp h
    obtain ⟨rest, s₂, hrest, h⟩ := Lowering.yields_bind.mp h
    obtain ⟨rfl, rfl⟩ := Lowering.yields_pure.mp h
    simp only [Stmt.regularAll, Stmt.wellScopedAll, Bool.and_eq_true] at hregular hscoped
    have hfirst := lowerStmt_simulates stmt hregular.1 hscoped.1 hcovers hlowered
    have hothers :=
      lowerStmts_simulates stmts hregular.2 hscoped.2 (hcovers.follows hfirst.1) hrest
    rw [Machine.runAll_append, runTrees_cons]
    exact hfirst.andNext hothers

theorem lowerElse_simulates : ∀ (no : Option (List Stmt)), Stmt.regularElse no = true →
    ∀ {narrowed}, Stmt.wellScopedElse narrowed no = true → ∀ {s s' code}, Covers narrowed s →
      Yields (env.lowerElse no) s code s' →
        Simulates (machine.runOther env no) (machine.runElse code) s s'
  | none, _, narrowed, _, s, s', code, _, h => by
    obtain ⟨rfl, rfl⟩ := lowerElse_none h
    rw [Machine.runOther_none, Machine.runElse_none]
    exact .nothing s'
  | some body, hregular, narrowed, hscoped, s, s', code, hcovers, h => by
    unfold Env.lowerElse at h
    obtain ⟨lowered, s₁, hlowered, h⟩ := Lowering.yields_bind.mp h
    obtain ⟨rfl, rfl⟩ := Lowering.yields_pure.mp h
    simp only [Stmt.regularElse, Stmt.wellScopedElse] at hregular hscoped
    have hsim := lowerStmts_simulates body hregular hscoped hcovers hlowered
    simp only [Machine.runOther, Machine.runElse]
    exact hsim.inScope

end

end TreeLowering.Behaviour
