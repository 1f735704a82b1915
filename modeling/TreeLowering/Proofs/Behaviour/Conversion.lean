import TreeLowering.Lowering.Boxing
import TreeLowering.Proofs.Behaviour.Agreement
import TreeLowering.Proofs.Yield
set_option autoImplicit false

/-!
# Behaviour: calls and conversions in lowered code

What the forms that lowered code is built from do over some locals.  The
conversions between raw and boxed values change nothing, apart from the boxing
of a value of the type of everything.
-/

namespace TreeLowering.Behaviour

open Lowering (Yields)

namespace Machine

variable (machine : Machine)

/-! ## Calls in lowered code -/

section

variable {machine} {ρ : Locals} {e target : Target.Expr} {es : List Target.Expr} {a : Act Value}
  {as : Act (List Value)}

theorem does_evalAll_single (h : Does ρ (machine.evalCode e) a) :
    Does ρ (machine.evalAll [e]) (do
      let v ← a
      pure [v]) := by
  unfold evalAll
  refine h.bind (fun v => ?_)
  rw [evalAll_nil]
  exact .bind (.pure []) (fun vs => .pure (v :: vs))

theorem does_callOn (method : String) (h : Does ρ (machine.evalCode target) a)
    (hs : Does ρ (machine.evalAll es) as) :
    Does ρ (machine.evalCode (target.callOn method es)) (do
      let v ← a
      let vs ← as
      machine.send v method vs) := by
  unfold Target.Expr.callOn evalCode evalTarget
  rw [bind_assoc]
  refine h.bind (fun v => ?_)
  rw [pure_bind]
  exact hs.bind (fun vs => .lift (machine.send v method vs))

theorem does_get (method : String) (h : Does ρ (machine.evalCode target) a) :
    Does ρ (machine.evalCode (target.get method)) (do
      let v ← a
      machine.send v method []) := by
  have hnil : Does ρ (machine.evalAll []) (pure []) := by
    rw [evalAll_nil]
    exact .pure []
  have := does_callOn method h hnil
  simp only [pure_bind] at this
  exact this

/-- A static call of a method with one argument. -/
theorem does_static (cls : Target.Ty) (typeArgs : List Target.Ty) (method : String)
    (h : Does ρ (machine.evalCode e) a) :
    Does ρ (machine.evalCode (.callStatic cls typeArgs method [e])) (do
      let v ← a
      machine.send .statics method [v]) := by
  have hall := (does_evalAll_single h).bind
    (fun vs => Does.lift (machine.invoke (some .statics) method vs))
  simp only [bind_assoc, pure_bind] at hall
  simp only [Target.Expr.callStatic, evalCode, evalTarget, pure_bind]
  exact hall

theorem does_cast (ty : Target.Ty) (h : Does ρ (machine.evalCode e) a) :
    Does ρ (machine.evalCode (.cast ty e)) a := by
  unfold evalCode
  exact h

theorem does_ident (x : String) : Does ρ (machine.evalCode (.ident x)) (ρ.read x) := by
  unfold evalCode
  exact .lookup x

theorem does_null : Does ρ (machine.evalCode .null) (pure .absent) := by
  unfold Target.Expr.null evalCode
  exact .pure _

theorem does_bool (b : Bool) : Does ρ (machine.evalCode (.bool b)) (pure (.bool b)) := by
  unfold Target.Expr.bool evalCode
  exact .pure _

/-- Reading a variable whose value is known. -/
theorem does_read {x : String} {v : Value} (h : ρ.read x = pure v) :
    Does ρ (machine.evalCode (.ident x)) (pure v) :=
  h ▸ does_ident x

theorem does_binary {rhs : Target.Expr} {b : Act Value} (op : Target.BinaryOp)
    (h : Does ρ (machine.evalCode e) a) (hr : Does ρ (machine.evalCode rhs) b) :
    Does ρ (machine.evalCode (.binary op e rhs)) (operate op a b) := by
  simp only [evalCode]
  exact .operate op h hr

theorem does_not (h : Does ρ (machine.evalCode e) a) :
    Does ρ (machine.evalCode (.not e)) (negate a) := by
  simp only [evalCode]
  exact h.negate

/-- The test whether a value is absent. -/
theorem does_present (h : Does ρ (machine.evalCode e) a) :
    Does ρ (do truth (← machine.evalCode (.binary .ne e .null)))
      ((fun v => !v.isAbsent) <$> a) := by
  have htest := (does_binary .ne h does_null).truth
  simp only [operate, combine, pure_bind, bind_assoc, Value.same_absent] at htest
  rw [map_eq_pure_bind]
  exact htest

/-! ## Statements in lowered code -/

/-- A final variable is declared. -/
theorem run_declareFinal {x : String} {ty : Target.Ty} (h : Does ρ (machine.evalCode e) a) :
    (machine.runCode (.declareFinal x ty e)).run ρ =
      (fun v => (Flow.normal, (x, v) :: ρ)) <$> a := by
  have hcode : machine.runCode (.declareFinal x ty e) = (do
      let v ← machine.evalCode e
      Run.declare x v
      pure .normal) := by
    simp only [Target.Stmt.declareFinal, runCode, declareVar, evalOption, bind_assoc]
  unfold Does at h
  rw [hcode, StateT.run_bind, h, bind_map_left, map_eq_pure_bind]
  rfl

theorem runAll_cons (stmt : Target.Stmt) (stmts : List Target.Stmt) :
    machine.runAll (stmt :: stmts) = (machine.runCode stmt).andNext (machine.runAll stmts) := by
  simp only [runAll]
  rfl

theorem runAll_append (stmts rest : List Target.Stmt) :
    machine.runAll (stmts ++ rest) = (machine.runAll stmts).andNext (machine.runAll rest) := by
  induction stmts with
  | nil =>
    simp only [List.nil_append, runAll_nil, Run.andNext, pure_bind]
  | cons stmt stmts ih =>
    rw [List.cons_append, runAll_cons, runAll_cons, ih, Run.andNext_assoc]

theorem runAll_single (stmt : Target.Stmt) : machine.runAll [stmt] = machine.runCode stmt := by
  rw [runAll_cons, runAll_nil]
  exact Run.andNext_normal _

/-- Declarations end normally. -/
theorem runAll_declarations {stmts : List Target.Stmt} (h : ∀ stmt ∈ stmts, ∃ d, stmt = .declare d)
    (rest : List Target.Stmt) :
    machine.runAll (stmts ++ rest) = (do
      let _ ← machine.runAll stmts
      machine.runAll rest) := by
  induction stmts with
  | nil => simp only [List.nil_append, runAll, pure_bind]
  | cons stmt stmts ih =>
    obtain ⟨d, rfl⟩ := h stmt List.mem_cons_self
    have hrest := ih (fun stmt hmem => h stmt (List.mem_cons_of_mem _ hmem))
    simp only [List.cons_append, runAll, runCode, bind_assoc, pure_bind, hrest]

/-! ## Conversions -/

theorem send_unboxing {method : String} (h : unboxings.contains method = true) (v : Value) :
    machine.send v method [] = pure v := by
  simp only [send, h, List.isEmpty_nil, Bool.and_self, if_true]

theorem send_box (v : Value) : machine.send .statics Support.box [v] = pure v := by
  rfl

theorem does_unboxing {method : String} (hm : unboxings.contains method = true)
    (h : Does ρ (machine.evalCode e) a) : Does ρ (machine.evalCode (e.get method)) a := by
  have := does_get method h
  simpa only [send_unboxing hm, bind_pure] using this

theorem does_box (cls : Target.Ty) (typeArgs : List Target.Ty)
    (h : Does ρ (machine.evalCode e) a) :
    Does ρ (machine.evalCode (.callStatic cls typeArgs Support.box [e])) a := by
  have := does_static cls typeArgs Support.box h
  simpa only [send_box, bind_pure] using this

/-- A let-expression that binds one name. -/
theorem does_let {x : String} {ty : Target.Ty} {value : Target.Expr} {f : Value → Act Value}
    (h : Does ρ (machine.evalCode e) a)
    (hvalue : ∀ v, Does ((x, v) :: ρ) (machine.evalCode value) (f v)) :
    Does ρ (machine.evalCode (.letIn [.declareFinal x ty e] value)) (a >>= f) := by
  have hcode : machine.evalCode (.letIn [.declareFinal x ty e] value) =
      Run.inScope (do
        let v ← machine.evalCode e
        Run.declare x v
        machine.evalCode value) := by
    simp only [evalCode, runAll, runCode, Target.Stmt.declareFinal, declareVar, evalOption,
      bind_assoc, pure_bind]
  have hscope : ∀ v, (fun r : Value × Locals => (r.1, Locals.keep ρ.length r.2)) <$>
      (do
        Run.declare x v
        machine.evalCode value : Run Value).run ρ = (fun w => (w, ρ)) <$> f v :=
    fun v => does_inScope_declare (hvalue v)
  unfold Does at *
  rw [hcode]
  show (fun r : Value × Locals => (r.1, Locals.keep ρ.length r.2)) <$> StateT.run _ ρ = _
  rw [StateT.run_bind, h, bind_map_left, map_bind, map_bind]
  congr 1
  funext v
  exact hscope v

theorem does_boxValue {env : Env} {t : Ty} {code : Target.Expr}
    (hcode : (env.boxValue e t).answer? = some code) (ht : t ≠ Language.voidTy)
    (h : Does ρ (machine.evalCode e) a) : Does ρ (machine.evalCode code) a := by
  have hinto : ∀ d typeArgs, (env.boxInto d typeArgs e).answer? = some code →
      Does ρ (machine.evalCode code) a := by
    intro d typeArgs hinto
    cases hinto
    exact does_box _ _ h
  unfold Env.boxValue at hcode
  split at hcode
  · exact hinto _ _ hcode
  · split at hcode
    · obtain ⟨element, _, hbox⟩ := TypeLowering.answer?_bind.mp hcode
      exact hinto _ _ hbox
    · cases hcode
      exact h

theorem does_unboxString (h : Does ρ (machine.evalCode e) a) :
    Does ρ (machine.evalCode (Env.unboxString e)) a := by
  unfold Env.unboxString
  split
  · exact h
  · exact does_unboxing rfl h

theorem unboxMethod?_mem {env : Env} {t : Ty} {method : String}
    (h : env.unboxMethod? t = some method) : unboxings.contains method = true := by
  unfold Env.unboxMethod? at h
  repeat' split at h
  all_goals
    first
    | cases h
      rfl
    | contradiction

/-- The value that a possibly absent string is bound to is the string. -/
theorem does_optionalString (x : String) (v : Value) :
    Does ((x, v) :: ρ) (machine.evalCode
      (.cond (.binary .ne (.ident x) .null) (Env.unboxString (.ident x)) .null)) (pure v) := by
  have hread : Locals.read x ((x, v) :: ρ) = pure v := by
    simp [Locals.read]
  have hident : Does ((x, v) :: ρ) (machine.evalCode (.ident x)) (pure v) := does_read hread
  have htest : Does ((x, v) :: ρ) (machine.evalCode (.binary .ne (.ident x) .null))
      (pure (.bool (!v.isAbsent))) := by
    have hne := does_binary .ne hident does_null
    simp only [operate, pure_bind, combine, Value.same_absent] at hne
    exact hne
  have hcond := htest.bind (fun t => (Does.lift (truth t)).bind
    (fun b => Does.ite b (does_unboxString hident) (@does_null machine _)))
  simp only [evalCode]
  simp only [pure_bind, truth] at hcond
  cases v with
  | absent => exact hcond
  | bool _ | int _ | float _ | char _ | text _ | seq _ | iter _ | entry _ _ | function _
  | object _ | statics => exact hcond

theorem does_unboxValue {env : Env} {t : Ty} {code : Target.Expr} {s s' : LowerState}
    (hcode : Yields (env.unboxValue e t) s code s') (h : Does ρ (machine.evalCode e) a) :
    Does ρ (machine.evalCode code) a := by
  unfold Env.unboxValue at hcode
  split at hcode
  · obtain ⟨rfl, _⟩ := Lowering.yields_pure.mp hcode
    exact does_unboxString h
  · split at hcode
    · rename_i method hmethod
      obtain ⟨rfl, _⟩ := Lowering.yields_pure.mp hcode
      exact does_unboxing (unboxMethod?_mem hmethod) h
    · split at hcode
      · unfold Env.unboxOptionalString at hcode
        split at hcode
        · obtain ⟨rfl, _⟩ := Lowering.yields_pure.mp hcode
          exact h
        · obtain ⟨tmp, t₁, _, hcode⟩ := Lowering.yields_bind.mp hcode
          obtain ⟨ty, t₂, _, hcode⟩ := Lowering.yields_bind.mp hcode
          obtain ⟨rfl, _⟩ := Lowering.yields_pure.mp hcode
          have hlet : Does ρ (machine.evalCode (.letIn [.declareFinal tmp ty e] (.cond
              (.binary .ne (.ident tmp) .null) (Env.unboxString (.ident tmp)) .null)))
              (a >>= pure) := does_let h (does_optionalString tmp)
          rwa [bind_pure] at hlet
      · obtain ⟨rfl, _⟩ := Lowering.yields_pure.mp hcode
        exact h

end

end Machine

/-! ## What conversions leave of the state -/

theorem follows_unboxValue {env : Env} {e code : Target.Expr} {t : Ty} {s s' : LowerState}
    (h : Yields (env.unboxValue e t) s code s') : s.Follows s' := by
  have hpure : ∀ {c : Target.Expr}, Yields (pure c) s code s' → s.Follows s' := by
    intro c h
    obtain ⟨_, rfl⟩ := Lowering.yields_pure.mp h
    exact .refl _
  unfold Env.unboxValue at h
  split at h
  · exact hpure h
  · split at h
    · exact hpure h
    · split at h
      · unfold Env.unboxOptionalString at h
        split at h
        · exact hpure h
        · obtain ⟨tmp, t₁, hfresh, h⟩ := Lowering.yields_bind.mp h
          obtain ⟨ty, t₂, hty, h⟩ := Lowering.yields_bind.mp h
          obtain ⟨_, rfl⟩ := Lowering.yields_pure.mp h
          exact (LowerState.Follows.fresh hfresh).trans (LowerState.Follows.ofType hty)
      · exact hpure h

/-- A conversion leaves the value as it is, boxes a raw one, or makes a boxed one
raw. -/
theorem convert_cases {env : Env} {e code : Target.Expr} {isBoxed : Bool} {t : Ty} {form : Form}
    {s s' : LowerState} (h : Yields (env.convert e isBoxed t form) s code s') :
    (code = e ∧ s' = s) ∨ (isBoxed = false ∧ Yields (liftM (env.boxValue e t)) s code s') ∨
      Yields (env.unboxValue e t) s code s' := by
  cases form with
  | asIs => exact .inl (Lowering.yields_pure.mp h)
  | boxed =>
    cases isBoxed with
    | true => exact .inl (Lowering.yields_pure.mp h)
    | false => exact .inr (.inl ⟨rfl, h⟩)
  | raw =>
    cases isBoxed with
    | true => exact .inr (.inr h)
    | false => exact .inl (Lowering.yields_pure.mp h)

theorem follows_convert {env : Env} {e code : Target.Expr} {isBoxed : Bool} {t : Ty} {form : Form}
    {s s' : LowerState} (h : Yields (env.convert e isBoxed t form) s code s') : s.Follows s' := by
  obtain ⟨_, rfl⟩ | ⟨_, hbox⟩ | hunbox := convert_cases h
  · exact .refl _
  · exact .ofType hbox
  · exact follows_unboxValue hunbox

/-- A conversion does what the value does, unless it boxes a value of the type
of everything. -/
theorem does_convert {env : Env} {machine : Machine} {e code : Target.Expr} {isBoxed : Bool}
    {t : Ty} {form : Form} {s s' : LowerState} {ρ : Locals} {a : Act Value}
    (h : Yields (env.convert e isBoxed t form) s code s')
    (ht : isBoxed = false → t ≠ Language.voidTy) (he : Does ρ (machine.evalCode e) a) :
    Does ρ (machine.evalCode code) a := by
  obtain ⟨rfl, _⟩ | ⟨hraw, hbox⟩ | hunbox := convert_cases h
  · exact he
  · exact Machine.does_boxValue hbox.answer (ht hraw) he
  · exact Machine.does_unboxValue hunbox he

end TreeLowering.Behaviour
