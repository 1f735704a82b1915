import TreeLowering.Proofs.Behaviour.Capture
import TreeLowering.Proofs.CurriedLayers
set_option autoImplicit false

/-!
# Behaviour: curried functions

A lowered function with several parameter lists yields function values for all
but the first of them, one inside the other, and the innermost one runs the
body.  The locals that the body runs over are those that the names of the
parameters determine, so it depends on these names alone whether every parameter
means the argument passed for it.
-/

namespace TreeLowering.Behaviour

open Target (Stmt)
open Lowering (Yields)
open Parameter (names)

/-! ## What lowered functions do -/

section

variable {machine : Machine} {env : Env} {s s' : LowerState}

theorem answerOver_unpickLocals {arity : Nat} {ps : List Parameter} (body : List Stmt) :
    ∀ {position : Nat} {s : LowerState} {stmts : List Stmt} {ρ : Locals},
      Yields (env.unpickLocals arity position ps) s stmts s' →
        machine.answerOver (stmts ++ body) ρ = (do
          let inner ← known (unpacked arity position ps ρ)
          machine.answerOver body inner) := by
  induction ps with
  | nil =>
    intro position s stmts ρ h
    unfold Env.unpickLocals at h
    obtain ⟨rfl, _⟩ := Lowering.yields_pure.mp h
    rfl
  | cons p ps ih =>
    intro position s stmts ρ h
    unfold Env.unpickLocals Env.unpickArgument at h
    rw [bind_assoc] at h
    obtain ⟨ty, s₁, _, h⟩ := Lowering.yields_bind.mp h
    obtain ⟨init, s₂, hinit, h⟩ := Lowering.yields_bind.mp h
    obtain ⟨localTy, s₃, _, h⟩ := Lowering.yields_bind.mp h
    obtain ⟨locals, s₄, hrest, h⟩ := Lowering.yields_bind.mp h
    obtain ⟨rfl, rfl⟩ := Lowering.yields_pure.mp h
    have hargument : Does ρ (machine.evalCode init)
        (known (Machine.arrived? arity position ρ)) :=
      does_convert hinit (by simp)
        (Machine.does_cast ty (Machine.does_arrivingArgument position arity ρ))
    rw [List.cons_append, Machine.answerOver_declareFinal _ hargument, unpacked, known_bind,
      bind_assoc]
    exact bind_congr fun v => ih hrest

/-- A function value is created with a `call` of the given body. -/
theorem exists_call {t : Ty} {arity : Nat} {body : List Stmt} {code : Target.Expr}
    (h : Yields (liftM (env.buildCallable t arity body)) s code s') :
    ∃ cls type result, code = .create cls [.lit (.string type)]
      (some [.mk { isPublic := true } [] result Support.call (Env.callParams arity)
        (some body)]) := by
  have hanswer := h.answer
  unfold Env.buildCallable at hanswer
  obtain ⟨result, _, hanswer⟩ := TypeLowering.answer?_bind.mp hanswer
  obtain ⟨cls, _, hanswer⟩ := TypeLowering.answer?_bind.mp hanswer
  cases hanswer
  exact ⟨_, _, _, rfl⟩

/-- The function values around a body, called one after the other. -/
theorem applyAll_wrapLayers {result : Ty} {body : List Stmt} {lists : List (List Parameter)} :
    ∀ {argss : List (List Value)} {s s' : LowerState} {wrapped : List Stmt} {ρ : Locals},
      Supplied lists argss → Yields (env.wrapLayers result body lists) s wrapped s' →
        (do
          let answer ← machine.answerOver wrapped ρ
          machine.applyAll answer argss) = (do
          let inner ← known (layered lists argss ρ)
          machine.answerOver body inner) := by
  induction lists with
  | nil =>
    intro argss s s' wrapped ρ hsupplied h
    obtain rfl := supplied_nil.mp hsupplied
    unfold Env.wrapLayers at h
    obtain ⟨rfl, _⟩ := Lowering.yields_pure.mp h
    simp only [Machine.applyAll, layered, known, bind_pure, pure_bind]
  | cons list rest ih =>
    intro argss s s' wrapped ρ hsupplied h
    obtain ⟨args, more, rfl, hlength, hmore⟩ := supplied_cons.mp hsupplied
    unfold Env.wrapLayers Env.layerCallable at h
    simp only [bind_assoc] at h
    obtain ⟨inner, s₁, hinner, h⟩ := Lowering.yields_bind.mp h
    obtain ⟨locals, s₂, hlocals, h⟩ := Lowering.yields_bind.mp h
    obtain ⟨layer, s₃, hlayer, h⟩ := Lowering.yields_bind.mp h
    obtain ⟨rfl, _⟩ := Lowering.yields_pure.mp h
    obtain ⟨cls, type, resultTy, rfl⟩ := exists_call hlayer
    rw [Machine.answerOver_callable, pure_bind, Machine.applyAll, Machine.callMethod_mk,
      Machine.bindArguments_call hlength, known, pure_bind, answerOver_unpickLocals inner hlocals,
      layered, known_bind, bind_assoc, bind_assoc]
    exact bind_congr fun ρ' => ih hmore hinner

theorem methodParams_names {ps : List Parameter} {params : List Target.Param}
    (h : (env.methodParams ps).answer? = some params) :
    params.map (·.name) = names ps ∧ ∀ p ∈ params, p.varargs = false := by
  induction ps generalizing params with
  | nil =>
    cases h
    exact ⟨rfl, by simp⟩
  | cons p ps ih =>
    unfold Env.methodParams at h
    obtain ⟨ty, _, h⟩ := TypeLowering.answer?_bind.mp h
    obtain ⟨rest, hrest, h⟩ := TypeLowering.answer?_bind.mp h
    cases h
    obtain ⟨hnames, hfixed⟩ := ih hrest
    refine ⟨congrArg (List.cons p.name) hnames, fun q hq => ?_⟩
    rcases List.mem_cons.mp hq with rfl | hq
    · rfl
    · exact hfixed q hq

/-- A curried function, called with all its lists of arguments, runs its lowered
body. -/
theorem callCurried_lowerFunction {f : Tree.Function} {result : Ty} {method : Target.Method}
    {first : List Parameter} {rest : List (List Parameter)}
    (hlists : (env.model.decl f.decl).paramLists = first :: rest) (hrest : rest ≠ [])
    (h : Yields (env.lowerFunction f result) s method s') :
    ∃ t code t', s.Follows t ∧
      Yields (Lowering.withReturns ⟨.boxed, true⟩ (env.lowerStmts f.body)) t code t' ∧
        ∀ (machine : Machine) (around : Locals) (argss : List (List Value)),
          Supplied (first :: rest) argss →
            machine.callCurried method around argss = (do
              let ρ ← known (curriedLocals around (first :: rest) argss)
              machine.answerOver code ρ) := by
  obtain ⟨typeParams, ty, params, wrapped, code, t, t', _, rfl, hparams, _, hfollows, hcode,
    hwrapped⟩ := Env.yields_lowerFunction hlists hrest h
  refine ⟨t, code, t', hfollows, hcode, fun machine around argss hsupplied => ?_⟩
  obtain ⟨args, more, rfl, hlength, hmore⟩ := supplied_cons.mp hsupplied
  obtain ⟨hnames, hfixed⟩ := methodParams_names hparams
  have hcount : args.length = params.length := by
    have hsame := congrArg List.length hnames
    rw [List.length_map, names, List.length_map] at hsame
    rw [hlength, hsame]
  rw [Machine.callCurried, Machine.callMethod_mk, Machine.bindArguments_eq hfixed hcount, hnames,
    known, pure_bind, applyAll_wrapLayers hmore hwrapped, curriedLocals]
  unfold Machine.answerOver
  rw [Machine.runBody_endWithValue]

end

/-! ## Curried functions -/

/-- A function with several parameter lists, called with one list of arguments
after the other, runs its lowered body over locals that are determined by the
names of its parameters and the arguments.  They bind every parameter to its
argument, whatever the arguments are, exactly when no parameter is captured. -/
theorem lowerFunction_binds_parameters (env : Env) (f : Tree.Function) (result : Ty)
    (s s' : LowerState) (method : Target.Method) (first : List Parameter)
    (rest : List (List Parameter))
    (hlists : (env.model.decl f.decl).paramLists = first :: rest) (hrest : rest ≠ [])
    (hdistinct : (names (first :: rest).flatten).Nodup)
    (hmethod : (env.lowerFunction f result).runFrom s = (.ok method, s')) :
    (∃ t code t', s.Follows t ∧
      (Lowering.withReturns ⟨.boxed, true⟩ (env.lowerStmts f.body)).runFrom t = (.ok code, t') ∧
        ∀ (machine : Machine) (around : Locals) (argss : List (List Value)),
          Supplied (first :: rest) argss →
            machine.callCurried method around argss = (do
              let ρ ← known (curriedLocals around (first :: rest) argss)
              machine.answerOver code ρ)) ∧
      ((∀ around argss, Supplied (first :: rest) argss →
          ∃ ρ, curriedLocals around (first :: rest) argss = some ρ ∧
            Binds around (first :: rest) argss ρ) ↔
        CaptureFree (first :: rest)) := by
  refine ⟨callCurried_lowerFunction hlists hrest hmethod, fun h => ?_, fun h => ?_⟩
  · exact CaptureFree.of_binds hdistinct (h [])
  · exact fun around argss hsupplied => h.binds hdistinct around hsupplied

/-! ## A greeting -/

/-- A model with one method that takes a greeting and then a name, both raw
strings, under the given names. -/
def greetingModel (greeting name : String) : Model where
  decls := #[{ Declaration.bare "greet" .method "demo" none with
    ty := some Language.stringTy
    paramLists :=
      [[⟨greeting, Language.stringTy, some true⟩], [⟨name, Language.stringTy, some true⟩]] }]
  params := #[]

/-- The method yields the greeting. -/
def greetingFunction (greeting : String) : Tree.Function :=
  ⟨⟨22⟩, [.ret .dummy (some (.ident ⟨Language.stringTy, true, .dummy⟩ greeting))], .dummy⟩

/-- With names of their own the greeting and the name are both bound. -/
theorem greeting_bound :
    ∃ method s' code ρ,
      ((Env.of (greetingModel "greeting" "name") .standard).lowerFunction
        (greetingFunction "greeting") Language.stringTy).runFrom (.start .empty) =
          (.ok method, s') ∧
      (∀ machine : Machine, machine.callCurried method [] [[.text "Hello"], [.text "Ann"]] =
        machine.answerOver code ρ) ∧
      ρ.lookup "greeting" = some (.text "Hello") ∧ ρ.lookup "name" = some (.text "Ann") := by
  obtain ⟨method, s', hmethod⟩ := Lowering.exists_yields
    (show (((Env.of (greetingModel "greeting" "name") .standard).lowerFunction
      (greetingFunction "greeting") Language.stringTy).runFrom (.start .empty)).1.isOk = true by
        decide +kernel)
  obtain ⟨⟨_, code, _, _, _, hcalls⟩, hbinds⟩ :=
    lowerFunction_binds_parameters _ _ _ _ _ _ _ _ rfl (by decide) (by decide) hmethod
  have hfree : CaptureFree
      ([⟨"greeting", Language.stringTy, some true⟩] :: [[⟨"name", Language.stringTy, some true⟩]]) :=
    ⟨fun list hlist => by
      obtain rfl := List.mem_singleton.mp hlist
      exact ⟨by decide, fun i j hij hj => absurd hj (by simp; omega)⟩, by decide⟩
  obtain ⟨ρ, hcurried, hbound⟩ := hbinds.mpr hfree [] [[.text "Hello"], [.text "Ann"]] rfl
  refine ⟨method, s', code, ρ, hmethod, fun machine => ?_, ?_, ?_⟩
  · rw [hcalls machine [] [[.text "Hello"], [.text "Ann"]] rfl, hcurried]
    rfl
  · exact hbound.parameter ("greeting", .text "Hello") (by simp [names])
  · exact hbound.parameter ("name", .text "Ann") (by simp [names])

/-- A greeting with the name that arguments of `call` have is taken for the
name. -/
theorem greeting_captured :
    (names [⟨"arg0", Language.stringTy, some true⟩, ⟨"name", Language.stringTy, some true⟩]).Nodup ∧
      Plain "arg0" ∧ Plain "name" ∧
      ∃ method s',
        ((Env.of (greetingModel "arg0" "name") .standard).lowerFunction
          (greetingFunction "arg0") Language.stringTy).runFrom (.start .empty) =
            (.ok method, s') ∧
        ∀ machine : Machine, machine.callCurried method [] [[.text "Hello"], [.text "Ann"]] [] =
          .ok (.value (.text "Ann"), []) :=
  ⟨by decide, by decide, by decide, _, _, rfl, fun _ => rfl⟩

end TreeLowering.Behaviour
