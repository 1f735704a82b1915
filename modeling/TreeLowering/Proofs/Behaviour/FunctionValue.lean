import TreeLowering.Lowering.Method
import TreeLowering.Proofs.Behaviour.Conversion
set_option autoImplicit false

/-!
# Behaviour: function values

To the code that handles it a function value is opaque.  Here it can be called
as well: it is the code of its `call` together with the locals of the place
where it was created, and `call` runs over those locals with its arguments as
the latest ones, as the method of an anonymous class sees the locals around the
class.  So a name means its innermost declaration.
-/

namespace TreeLowering.Behaviour

open Target (Expr Stmt)
open Lowering (Yields)

/-- What the body of a method yields. -/
inductive Answer where
  | value (v : Value)
  /-- A function value as the code that handles it sees it, its `call`, and the
  locals around it. -/
  | closure (seen : Value) (call : Target.Method) (around : Locals)

/-- The function value that a statement returns, if it creates one. -/
def returnedCallable? : Stmt → Option (Target.Ty × List Expr × Target.Method)
  | .ret (some (.create cls args (some [call]))) => some (cls, args, call)
  | _ => none

/-- What is known, if it is. -/
def known {α : Type} : Option α → Act α
  | some a => pure a
  | none => halt .stuck

theorem known_bind {α β : Type} (x : Option α) (f : α → Option β) :
    known (x >>= f) = (do
      let a ← known x
      known (f a)) := by
  cases x <;> rfl

/-- Gives parameters their arguments, if there are as many; the last one takes
those that are left, if it takes any number. -/
def bindArguments : List Target.Param → List Value → Locals → Option Locals
  | [], [], ρ => some ρ
  | [], _ :: _, _ => none
  | p :: ps, vs, ρ =>
    if p.varargs then some ((p.name, .seq vs) :: ρ)
    else
      match vs with
      | [] => none
      | v :: vs => bindArguments ps vs ((p.name, v) :: ρ)

namespace Machine

variable (machine : Machine)

/-- Runs the body of a method. -/
def runBody : List Stmt → Run Answer
  | [] => pure (.value .absent)
  | stmt :: stmts =>
    match returnedCallable? stmt with
    | some (cls, args, call) => do
      let vs ← machine.evalAll args
      let v ← created cls true vs
      let ρ ← get
      pure (.closure v call ρ)
    | none => do
      match ← machine.runCode stmt with
      | .normal => runBody stmts
      | .leave => halt .stuck
      | .ret v => pure (.value v)

/-- What a body yields over some locals. -/
def answerOver (body : List Stmt) (ρ : Locals) : Act Answer :=
  Prod.fst <$> (machine.runBody body).run ρ

/-- Calls a method over the locals around it. -/
def callMethod (method : Target.Method) (args : List Value) (around : Locals) : Act Answer :=
  match method with
  | .mk _ _ _ _ params (some body) => do
    let ρ ← known (bindArguments params args around)
    machine.answerOver body ρ
  | .mk _ _ _ _ _ none => halt .stuck

/-- Applies an answer to one list of arguments after the other. -/
def applyAll (answer : Answer) : List (List Value) → Act Answer
  | [] => pure answer
  | args :: more =>
    match answer with
    | .value _ => halt .stuck
    | .closure _ call around => do
      let next ← machine.callMethod call args around
      applyAll next more

/-- Calls a method with the first list of arguments, and what it yields with the
lists after it. -/
def callCurried (method : Target.Method) (around : Locals) : List (List Value) → Act Answer
  | [] => halt .stuck
  | args :: more => do
    let answer ← machine.callMethod method args around
    machine.applyAll answer more

/-! ## Bodies -/

variable {machine}

theorem runBody_of_none {stmt : Stmt} (h : returnedCallable? stmt = none) (stmts : List Stmt) :
    machine.runBody (stmt :: stmts) = (do
      match ← machine.runCode stmt with
      | .normal => machine.runBody stmts
      | .leave => halt .stuck
      | .ret v => pure (.value v)) := by
  rw [runBody, h]

/-- A declaration and then the rest of a body. -/
theorem answerOver_declareFinal {x : String} {ty : Target.Ty} {e : Expr} {a : Act Value}
    {ρ : Locals} (stmts : List Stmt) (h : Does ρ (machine.evalCode e) a) :
    machine.answerOver (.declareFinal x ty e :: stmts) ρ = (do
      let v ← a
      machine.answerOver stmts ((x, v) :: ρ)) := by
  unfold answerOver
  rw [runBody_of_none rfl, StateT.run_bind, run_declareFinal h, bind_map_left, map_bind]

/-- A returned function value keeps the locals around it. -/
theorem answerOver_callable {cls : Target.Ty} {type : String} {call : Target.Method} (ρ : Locals) :
    machine.answerOver [.ret (some (.create cls [.lit (.string type)] (some [call])))] ρ =
      pure (.closure (.function type) call ρ) := by
  simp only [answerOver, runBody, returnedCallable?, evalAll, evalCode, pure_bind, created, literal]
  rfl

/-- The absent value at the end of a body is what the body would have yielded
without it. -/
theorem runBody_endWithValue (result : Ty) (body : List Stmt) :
    machine.runBody (Env.endWithValue result body) = machine.runBody body := by
  have hnull : ∀ stmts : List Stmt,
      machine.runBody (stmts ++ [.ret (some .null)]) = machine.runBody stmts := by
    intro stmts
    induction stmts with
    | nil =>
      rw [List.nil_append, runBody_of_none rfl]
      simp only [runCode, evalOption, Target.Expr.null, evalCode, pure_bind, runBody]
      rfl
    | cons stmt stmts ih =>
      cases hcall : returnedCallable? stmt with
      | some found => simp only [List.cons_append, runBody, hcall]
      | none => rw [List.cons_append, runBody_of_none hcall, runBody_of_none hcall, ih]
  unfold Env.endWithValue
  split
  · exact hnull body
  · rfl

theorem callMethod_mk {modifiers : Target.Modifiers} {typeParams : List Target.TypeParam}
    {result : Target.Ty} {name : String} {params : List Target.Param} {body : List Stmt}
    (args : List Value) (around : Locals) :
    machine.callMethod (.mk modifiers typeParams result name params (some body)) args around =
      (do
        let ρ ← known (bindArguments params args around)
        machine.answerOver body ρ) := rfl

/-! ## Arguments -/

/-- Parameters that each take one argument are bound to their arguments. -/
theorem bindArguments_eq {params : List Target.Param} (h : ∀ p ∈ params, p.varargs = false) :
    ∀ {args : List Value} {ρ : Locals}, args.length = params.length →
      bindArguments params args ρ = some (((params.map (·.name)).zip args).reverse ++ ρ) := by
  induction params with
  | nil =>
    intro args ρ hlength
    rw [List.length_eq_zero_iff.mp hlength]
    rfl
  | cons p ps ih =>
    intro args ρ hlength
    match args with
    | [] => contradiction
    | v :: vs =>
      have hrest : ∀ p ∈ ps, p.varargs = false := fun p hp => h p (List.mem_cons_of_mem _ hp)
      rw [bindArguments, if_neg (by simp [h p List.mem_cons_self]),
        ih hrest (Nat.succ.inj hlength)]
      simp

/-- The arguments of a `call` among its locals. -/
def callLocals (arity : Nat) (args : List Value) : Locals :=
  if arity ≤ Support.maxFixedArity then
    (((List.range arity).map Support.callArg).zip args).reverse
  else [(Support.callArg 0, .seq args)]

theorem bindArguments_call {arity : Nat} {args : List Value} (h : args.length = arity)
    (ρ : Locals) :
    bindArguments (Env.callParams arity) args ρ = some (callLocals arity args ++ ρ) := by
  unfold callLocals Env.callParams
  split
  · rw [bindArguments_eq (by simp) (by simpa using h), List.map_map]
    rfl
  · rfl

/-- An argument of `call` as it is found among the locals, if it is found. -/
def arrived? (arity position : Nat) (ρ : Locals) : Option Value :=
  if arity ≤ Support.maxFixedArity then ρ.lookup (Support.callArg position)
  else
    match ρ.lookup (Support.callArg 0) with
    | some (.seq vs) =>
      if 0 ≤ Int.bmod position 0x100000000 then vs[(Int.bmod position 0x100000000).toNat]? else none
    | _ => none

theorem element_seq (vs : List Value) (i : Int) :
    element (.seq vs) (.int i) = known (if 0 ≤ i then vs[i.toNat]? else none) := by
  simp only [element]
  cases vs[i.toNat]? with
  | none => simp [known]
  | some v =>
    by_cases hi : 0 ≤ i
    · simp only [if_pos hi, known]
    · simp only [if_neg hi, known]

theorem does_arrivingArgument (position arity : Nat) (ρ : Locals) :
    Does ρ (machine.evalCode (Env.arrivingArgument position arity))
      (known (arrived? arity position ρ)) := by
  have hread : ∀ x, ρ.read x = known (ρ.lookup x) := by
    intro x
    unfold Locals.read
    cases ρ.lookup x <;> rfl
  unfold Env.arrivingArgument arrived?
  split
  · rw [← hread]
    exact does_ident _
  · have hposition : Does ρ (machine.evalCode (.lit (.int (Int.bmod position 0x100000000))))
        (pure (.int (Int.bmod position 0x100000000))) := by
      unfold evalCode
      exact .pure _
    have harray : Does ρ (machine.evalCode (.ident (Support.callArg 0)))
        (ρ.read (Support.callArg 0)) := does_ident _
    have hindex := harray.bind (fun array => hposition.bind (fun i => .lift (element array i)))
    have helement : (do
        let array ← ρ.read (Support.callArg 0)
        element array (.int (Int.bmod position 0x100000000))) = known
          (match ρ.lookup (Support.callArg 0) with
          | some (.seq vs) =>
            if 0 ≤ Int.bmod position 0x100000000 then vs[(Int.bmod position 0x100000000).toNat]?
            else none
          | _ => none) := by
      rw [hread]
      generalize Int.bmod position 0x100000000 = i
      cases ρ.lookup (Support.callArg 0) with
      | none => rfl
      | some array =>
        cases array with
        | seq vs => exact element_seq vs i
        | absent | bool _ | int _ | float _ | char _ | text _ | iter _ | entry _ _ | function _
        | object _ | statics => rfl
    simp only [pure_bind, helement] at hindex
    unfold evalCode
    exact hindex

end Machine

end TreeLowering.Behaviour
