import TreeLowering.Proofs.Behaviour.Capture
import TreeLowering.Proofs.CallableHeader
import TreeLowering.Proofs.MalformedTree
import TreeLowering.Proofs.VariableRead
set_option autoImplicit false

/-!
# Behaviour: functions used as values

A function that is used as a value becomes an object whose `call` hands its
arguments on to the method.  They arrive one by one, or all in one array; either
way each is read once, brought into the form that its parameter is declared in,
and passed on in its place.

An index into the array of arguments is a 32-bit word, so what is handed on of
more than 2^31 arguments is not what was passed.
-/

namespace TreeLowering.Behaviour

open Target (Expr Stmt exprsRead stmtsRead readsOf)
open Lowering (Yields Gives)

/-! ## Arguments that are handed on -/

/-- What is found for so many arguments of `call` from a position on. -/
def handed (arity position count : Nat) (ρ : Locals) : Option (List Value) :=
  (List.range' position count).mapM fun i => Machine.arrived? arity i ρ

theorem handed_succ (arity position count : Nat) (ρ : Locals) :
    handed arity position (count + 1) ρ = (do
      let v ← Machine.arrived? arity position ρ
      let vs ← handed arity (position + 1) count ρ
      pure (v :: vs)) := by
  rw [handed, List.range'_succ, List.mapM_cons]
  rfl

/-- Where every argument is found, all of them are handed on in order. -/
theorem handed_eq {arity : Nat} {vs : List Value} {ρ : Locals} :
    ∀ {position : Nat}, (∀ j (_ : j < vs.length),
        Machine.arrived? arity (position + j) ρ = some vs[j]) →
      handed arity position vs.length ρ = some vs := by
  induction vs with
  | nil => exact fun _ => rfl
  | cons v vs ih =>
    intro position harrived
    have hrest : handed arity (position + 1) vs.length ρ = some vs := by
      refine ih fun j hj => ?_
      have hnext := harrived (j + 1) (Nat.succ_lt_succ hj)
      rwa [Nat.add_assoc, Nat.add_comm 1 j]
    rw [List.length_cons, handed_succ, hrest, ← Nat.add_zero position, harrived 0 (by simp)]
    rfl

/-- Nothing is handed on when one of the arguments is not found. -/
theorem handed_eq_none {arity count : Nat} {ρ : Locals} :
    ∀ {position i : Nat}, position ≤ i → i < position + count →
      Machine.arrived? arity i ρ = none → handed arity position count ρ = none := by
  induction count with
  | zero =>
    intro position i hle hlt _
    omega
  | succ count ih =>
    intro position i hle hlt hnone
    rw [handed_succ]
    by_cases hfirst : i = position
    · rw [← hfirst, hnone]
      rfl
    · rw [ih (by omega) (by omega) hnone]
      cases Machine.arrived? arity position ρ <;> rfl

section

variable {machine : Machine} {env : Env} {s s' : LowerState} {ρ : Locals}

theorem does_unpickArguments {arity : Nat} {ps : List Parameter} :
    ∀ {position : Nat} {s : LowerState} {codes : List Expr},
      Yields (env.unpickArguments arity position ps) s codes s' →
        Does ρ (machine.evalAll codes) (known (handed arity position ps.length ρ)) := by
  induction ps with
  | nil =>
    intro position s codes h
    obtain ⟨rfl, _⟩ := Lowering.yields_pure.mp h
    rw [Machine.evalAll_nil]
    exact .pure []
  | cons p ps ih =>
    intro position s codes h
    unfold Env.unpickArguments Env.unpickArgument at h
    rw [bind_assoc] at h
    obtain ⟨ty, s₁, _, h⟩ := Lowering.yields_bind.mp h
    obtain ⟨code, s₂, hcode, h⟩ := Lowering.yields_bind.mp h
    obtain ⟨codes, s₃, hcodes, h⟩ := Lowering.yields_bind.mp h
    obtain ⟨rfl, rfl⟩ := Lowering.yields_pure.mp h
    have hargument : Does ρ (machine.evalCode code) (known (Machine.arrived? arity position ρ)) :=
      does_convert hcode (by simp)
        (Machine.does_cast ty (Machine.does_arrivingArgument position arity ρ))
    have hall := hargument.bind fun v => (ih hcodes).bind fun vs => .pure (v :: vs)
    rw [List.length_cons, handed_succ, known_bind]
    unfold Machine.evalAll
    simp only [known_bind]
    exact hall

theorem does_callLocal {name : String} {codes : List Expr} {as : Act (List Value)}
    (h : Does ρ (machine.evalAll codes) as) :
    Does ρ (machine.evalCode (.callLocal name codes)) (do
      let vs ← as
      machine.callLocal name vs) := by
  unfold Expr.callLocal Machine.evalCode Machine.evalTarget
  rw [pure_bind]
  exact h.bind fun vs => .lift (machine.callLocal name vs)

/-- A call that is boxed creates no function value. -/
theorem returnedCallable?_of_convert (name : String) (codes : List Expr) (isBoxed : Bool) (t : Ty) :
    Gives (fun value => returnedCallable? (.ret (some value)) = none)
      (env.convert (.callLocal name codes) isBoxed t .boxed) := by
  have hinto : ∀ {d typeArgs value}, (env.boxInto d typeArgs (.callLocal name codes)).answer? =
      some value → returnedCallable? (.ret (some value)) = none := by
    intro d typeArgs value h
    obtain ⟨cls, _, hvalue⟩ := TypeLowering.answer?_bind.mp h
    cases hvalue
    rfl
  cases isBoxed with
  | true => exact .pure rfl
  | false =>
    refine .ofType fun value h => ?_
    unfold Env.boxValue at h
    split at h
    · exact hinto h
    · split at h
      · obtain ⟨element, _, hvalue⟩ := TypeLowering.answer?_bind.mp h
        exact hinto hvalue
      · split at h <;>
        · cases h
          rfl

/-- The body of `call` makes the call, and yields what it yields unless that is
of the type of everything. -/
theorem answerOver_forwardBody {result : Ty} {name : String} {codes : List Expr}
    {body : List Stmt} {a : Act Value}
    (h : Yields (env.forwardBody result (.callLocal name codes)) s body s')
    (ha : Does ρ (machine.evalCode (.callLocal name codes)) a) :
    machine.answerOver body ρ = (do
      let v ← a
      pure (.value (if result = Language.voidTy then .absent else v))) := by
  unfold Env.forwardBody at h
  split at h
  · rename_i hvoid
    obtain ⟨rfl, _⟩ := Lowering.yields_pure.mp h
    have hreturn : (machine.runBody [.ret (some .null)]).run ρ = pure (.value .absent, ρ) := by
      rw [Machine.runBody_of_none rfl]
      simp only [Machine.runCode, Machine.evalOption, Target.Expr.null, Machine.evalCode, pure_bind]
      rfl
    unfold Machine.answerOver
    rw [Machine.runBody_of_none rfl, StateT.run_bind, Machine.runCode, StateT.run_bind, ha,
      bind_map_left, bind_assoc, map_bind]
    refine bind_congr fun v => ?_
    rw [if_pos hvoid]
    show Prod.fst <$> (machine.runBody [.ret (some .null)]).run ρ = _
    rw [hreturn]
    rfl
  · rename_i hvoid
    obtain ⟨value, t, hvalue, h⟩ := Lowering.yields_bind.mp h
    obtain ⟨rfl, _⟩ := Lowering.yields_pure.mp h
    have hreturned := returnedCallable?_of_convert name codes _ result hvalue
    have hdoes : Does ρ (machine.evalCode value) a := does_convert hvalue (fun _ => hvoid) ha
    unfold Machine.answerOver
    rw [Machine.runBody_of_none hreturned, StateT.run_bind, Machine.runCode, Machine.evalOption,
      StateT.run_bind, hdoes, bind_map_left, bind_assoc, map_bind]
    refine bind_congr fun v => ?_
    rw [if_neg hvoid]
    rfl

end

/-! ## The method behind a function value -/

/-- Parameters that take so many arguments, one by one up to three and in one
array beyond, and what reads each argument. -/
inductive Takes (arity : Nat) : List Target.Param → List Target.Read → Prop
  | fixed {params : List Target.Param} (few : arity ≤ Support.maxFixedArity)
      (length : params.length = arity) (single : ∀ p ∈ params, p.varargs = false) :
      Takes arity params (params.map fun p => (p.name, none))
  | variadic {p : Target.Param} (many : Support.maxFixedArity < arity) (array : p.varargs = true) :
      Takes arity [p] ((List.range arity).map fun i : Nat => (p.name, some (.int i)))

/-- A `call` hands its arguments on to the method.  It reads each of them once and
in order, and calling it is one call of the method with the arguments that were
passed; it yields what the method yields, and the absent value in place of a
result of the type of everything. -/
structure ForwardsTo (name : String) (result : Ty) (arity : Nat) (call : Target.Method) : Prop where
  takes : ∃ callResult params body,
    call = .mk { isPublic := true } [] callResult Support.call params (some body) ∧
      Takes arity params (readsOf (params.map (·.name)) (stmtsRead body))
  calls : ∀ (machine : Machine) (around : Locals) (args : List Value), args.length = arity →
    machine.callMethod call args around = (do
      let v ← machine.callLocal name args
      pure (.value (if result = Language.voidTy then .absent else v)))

section

variable {env : Env} {s s' : LowerState}

theorem callArg_plain (i : Nat) : Plain (Support.callArg i) := by
  have hdigits := dollar_not_mem_toDigits i
  have hword : '$' ∉ "arg".toList := by decide
  simp only [Plain, Support.callArg, String.toList_append, Nat.toString_eq_repr, Nat.toList_repr,
    List.mem_append, not_or]
  exact ⟨hword, hdigits⟩

theorem callNames_plain {arity : Nat} {x : String} (h : x ∈ callNames arity) : Plain x := by
  by_cases hfixed : arity ≤ Support.maxFixedArity
  · rw [callNames_of_fixed hfixed] at h
    obtain ⟨i, _, rfl⟩ := List.mem_map.mp h
    exact callArg_plain i
  · rw [callNames_of_variadic hfixed] at h
    exact List.mem_singleton.mp h ▸ callArg_plain 0

/-- The parameters of `call` take the arguments that are read, as long as their
positions are indices. -/
theorem takes_callParams {arity : Nat} (hindices : arity ≤ 2 ^ 31) :
    Takes arity (Env.callParams arity)
      (readsOf (callNames arity) ((List.range arity).map (Env.argumentRead arity))) := by
  by_cases hfixed : arity ≤ Support.maxFixedArity
  · have hread : ∀ i, Env.argumentRead arity i = (Support.callArg i, none) := fun i => if_pos hfixed
    have hall : readsOf (callNames arity) ((List.range arity).map (Env.argumentRead arity)) =
        (Env.callParams arity).map fun p => (p.name, none) := by
      rw [readsOf, List.filter_eq_self.mpr]
      · simp only [Env.callParams, if_pos hfixed, List.map_map]
        exact List.map_congr_left fun i _ => hread i
      · intro r hr
        obtain ⟨i, hi, rfl⟩ := List.mem_map.mp hr
        rw [hread, callNames_of_fixed hfixed]
        simpa using ⟨i, List.mem_range.mp hi, rfl⟩
    rw [hall]
    refine .fixed hfixed ?_ fun p hp => ?_
    · simp [Env.callParams, hfixed]
    · simp only [Env.callParams, if_pos hfixed, List.mem_map] at hp
      obtain ⟨i, _, rfl⟩ := hp
      rfl
  · have hread : ∀ i ∈ List.range arity, Env.argumentRead arity i =
        (Support.callArg 0, some (.int i)) := by
      intro i hi
      have hlt := List.mem_range.mp hi
      have hindex : Int.bmod i 0x100000000 = i := by
        refine Int.bmod_eq_of_le ?_ ?_ <;> omega
      rw [Env.argumentRead, if_neg hfixed, hindex]
    have hall : readsOf (callNames arity) ((List.range arity).map (Env.argumentRead arity)) =
        (List.range arity).map fun i : Nat => (Support.callArg 0, some (.int i)) := by
      rw [List.map_congr_left hread, readsOf, List.filter_eq_self.mpr]
      intro r hr
      obtain ⟨i, _, rfl⟩ := List.mem_map.mp hr
      simp [callNames_of_variadic hfixed]
    have hparams : Env.callParams arity = [⟨true, true, Support.callArg 0, .array .object⟩] :=
      if_neg hfixed
    rw [hall, hparams]
    have harray : (⟨true, true, Support.callArg 0, .array .object⟩ : Target.Param).varargs = true :=
      rfl
    exact .variadic (Nat.lt_of_not_le hfixed) harray

/-- Whatever the number of arguments, the `call` of a function used as a value
hands on what it finds of them. -/
theorem functionRef_hands {d : DeclId} {first : List Parameter} {rest : List (List Parameter)}
    {object : Expr} (hlists : (env.model.decl d).paramLists = first :: rest)
    (h : Yields (env.functionRef d) s object s') :
    ∃ cls shown callResult body,
      object = .functionObject cls shown callResult first.length body ∧
      readsOf (callNames first.length) (stmtsRead body) = readsOf (callNames first.length)
        ((List.range first.length).map (Env.argumentRead first.length)) ∧
      ∀ (machine : Machine) (ρ : Locals), machine.answerOver body ρ = (do
        let vs ← known (handed first.length 0 first.length ρ)
        let v ← machine.callLocal (env.model.decl d).name vs
        pure (.value (if ((env.model.decl d).ty.getD .error).curried rest = Language.voidTy
          then .absent else v))) := by
  unfold Env.functionRef at h
  dsimp only at h
  rw [hlists] at h
  obtain ⟨codes, s₁, hcodes, h⟩ := Lowering.yields_bind.mp h
  obtain ⟨body, s₂, hbody, h⟩ := Lowering.yields_bind.mp h
  obtain ⟨callResult, cls, _, _, hobject⟩ := Env.answer?_buildCallable.mp h.answer
  refine ⟨cls, _, callResult, body, hobject, ?_, fun machine ρ => ?_⟩
  · have hplain : ∀ x ∈ callNames first.length, Plain x := fun _ => callNames_plain
    rw [env.forwardBody_reads hplain _ _ hbody, Expr.callLocal, Expr.reads, Target.valueReads,
      List.nil_append, env.unpickArguments_reads hplain _ _ _ hcodes, List.range_eq_range']
  · rw [answerOver_forwardBody hbody (does_callLocal (does_unpickArguments hcodes)), bind_assoc]

/-- As long as there are no more than 2^31 arguments, `call` finds all of them. -/
theorem handed_callLocals {arity : Nat} {args : List Value} (hlength : args.length = arity)
    (hindices : arity ≤ 2 ^ 31) (ρ : Locals) :
    handed arity 0 arity (Machine.callLocals arity args ++ ρ) = some args := by
  have hall : handed arity 0 args.length (Machine.callLocals arity args ++ ρ) = some args := by
    refine handed_eq fun j hj => ?_
    rw [Nat.zero_add]
    exact arrived?_callLocals hlength hindices hj
  rwa [hlength] at hall

/-- A function with a parameter list of at most 2^31 parameters, used as a value,
is an object that forwards to the method, unless one of the types on the way is
endless. -/
theorem functionRef_forwards (env : Env) (d : DeclId) (first : List Parameter)
    (rest : List (List Parameter)) (hlists : (env.model.decl d).paramLists = first :: rest)
    (hindices : first.length ≤ 2 ^ 31) (s : LowerState) :
    ((∀ t ∈ env.referenceTypes d, env.Lowers t) →
        ∃ object s', (env.functionRef d).runFrom s = (.ok object, s')) ∧
      (∀ e s', (env.functionRef d).runFrom s = (.error e, s') → e = .endlessType) ∧
      ∀ object s', (env.functionRef d).runFrom s = (.ok object, s') →
        ∃ cls shown call, object = .create cls [.lit (.string shown)] (some [call]) ∧
          ForwardsTo (env.model.decl d).name (((env.model.decl d).ty.getD .error).curried rest)
            first.length call := by
  have hfails := env.functionRef_fails d
  have hnonempty : (env.model.decl d).paramLists ≠ [] := by simp [hlists]
  have hendless : ∀ e s', (env.functionRef d).runFrom s = (.error e, s') → e = .endlessType := by
    intro e s' h
    by_contra hother
    exact hnonempty (hfails.only s e (congrArg Prod.fst h) hother)
  refine ⟨fun hlowers => hfails.exists_yields hnonempty hlowers s, hendless, fun object s' h => ?_⟩
  obtain ⟨cls, shown, callResult, body, hobject, hreads, hcalls⟩ := functionRef_hands hlists h
  refine ⟨cls, shown, _, hobject, ⟨callResult, _, body, rfl, ?_⟩,
    fun machine around args hlength => ?_⟩
  · exact hreads ▸ takes_callParams hindices
  · rw [Machine.callMethod_mk, Machine.bindArguments_call hlength, known, pure_bind, hcalls,
      handed_callLocals hlength hindices, known, pure_bind]

end

/-! ## Few and many arguments -/

/-- A model with one method with the given parameter lists and result type. -/
def methodModel (result : Ty) (lists : List (List Parameter)) : Model where
  decls := #[{ Declaration.bare "report" .method "demo" none with
    ty := some result
    paramLists := lists }]
  params := #[]

/-- Four parameters of a curried method, declared raw, boxed or in neither form. -/
def reportParameters : List Parameter :=
  [⟨"code", Language.integerTy, some true⟩, ⟨"text", Language.stringTy, some true⟩,
    ⟨"rate", Language.floatTy, some false⟩, ⟨"rest", .optional Language.stringTy, none⟩]

/-- A method with two parameter lists hands four arguments on. -/
theorem report_forwards :
    reportParameters.length ≤ 2 ^ 31 ∧
      ∃ object s' cls shown call,
        ((Env.of (methodModel Language.stringTy [reportParameters, []]) .standard).functionRef
          ⟨22⟩).runFrom (.start .empty) = (.ok object, s') ∧
        object = .create cls [.lit (.string shown)] (some [call]) ∧
        ForwardsTo "report" (.callable Language.stringTy []) 4 call := by
  have hindices : reportParameters.length ≤ 2 ^ 31 := by decide
  obtain ⟨object, s', hobject⟩ := Lowering.exists_yields
    (show (((Env.of (methodModel Language.stringTy [reportParameters, []]) .standard).functionRef
      ⟨22⟩).runFrom (.start .empty)).1.isOk = true by decide +kernel)
  obtain ⟨_, _, hforwards⟩ := functionRef_forwards
    (Env.of (methodModel Language.stringTy [reportParameters, []]) .standard) ⟨22⟩ reportParameters
    [[]] rfl hindices (.start .empty)
  obtain ⟨cls, shown, call, hcreate, hcall⟩ := hforwards object s' hobject
  exact ⟨hindices, object, s', cls, shown, call, hobject, hcreate, hcall⟩

/-- An argument beyond the positions that are indices is not found. -/
theorem arrived?_beyond {arity : Nat} (hmany : 2 ^ 31 < arity) (args : List Value) (ρ : Locals) :
    Machine.arrived? arity (2 ^ 31) (Machine.callLocals arity args ++ ρ) = none := by
  have hvariadic : ¬ arity ≤ Support.maxFixedArity := by
    have hfew : Support.maxFixedArity < 2 ^ 31 := by decide
    omega
  have hnegative : ¬ 0 ≤ Int.bmod ((2 ^ 31 : Nat) : Int) 0x100000000 := by decide
  unfold Machine.arrived? Machine.callLocals
  rw [if_neg hvariadic, if_neg hvariadic, List.cons_append, List.lookup_cons_self]
  exact if_neg hnegative

/-- So many numbers as parameters. -/
def numbers (n : Nat) : List Parameter := List.replicate n ⟨"n", Language.integerTy, none⟩

/-- A method that takes numbers and yields nothing can be used as a value,
however many it takes. -/
theorem exists_functionRef (n : Nat) :
    ∃ object s', Yields ((Env.of (methodModel Language.voidTy [numbers n]) .standard).functionRef
      ⟨22⟩) (.start .empty) object s' := by
  generalize henv : Env.of (methodModel Language.voidTy [numbers n]) .standard = env
  have hlists : (env.model.decl ⟨22⟩).paramLists = [numbers n] := by
    subst henv
    rfl
  have hresult : (env.model.decl ⟨22⟩).ty = some Language.voidTy := by
    subst henv
    rfl
  have hlowers : ∀ t ∈ env.parameterTypes (numbers n), env.Lowers t := by
    intro t ht
    obtain ⟨p, hp, ht⟩ := List.mem_flatMap.mp ht
    obtain rfl := List.eq_of_mem_replicate hp
    have helement : env.arrayElement Language.integerTy = .error := by
      subst henv
      rfl
    simp only [Env.bindingTypes, Env.conversionTypes, helement, List.mem_cons, List.not_mem_nil,
      or_false] at ht
    obtain rfl | rfl | rfl := ht <;> exact env.lowers_of_argless (by decide)
  obtain ⟨codes, s₁, hcodes⟩ := (env.unpickArguments_fails (numbers n).length (numbers n)
    0).exists_yields not_false hlowers (.start .empty)
  obtain ⟨s₂, hbuilt⟩ := Lowering.exists_yields_of_answer
    (env.answer?_buildCallable_void (Parameter.types (numbers n)) (numbers n).length
      [.exec (.callLocal (env.model.decl ⟨22⟩).name codes), .ret (some .null)]) s₁
  have hbody : Yields (env.forwardBody Language.voidTy
      (.callLocal (env.model.decl ⟨22⟩).name codes)) s₁
      [.exec (.callLocal (env.model.decl ⟨22⟩).name codes), .ret (some .null)] s₁ :=
    Lowering.yields_pure.mpr ⟨rfl, rfl⟩
  unfold Env.functionRef
  dsimp only
  rw [hlists, hresult]
  exact ⟨_, s₂, Lowering.yields_bind.mpr ⟨codes, s₁, hcodes,
    Lowering.yields_bind.mpr ⟨_, s₁, hbody, hbuilt⟩⟩⟩

/-- A method that takes more numbers than there are indices is an object all the
same when it is used as a value, but does not forward to the method. -/
theorem not_forwardsTo_of_many {n : Nat} (hmany : 2 ^ 31 < n) :
    ∃ object s' cls shown call,
      ((Env.of (methodModel Language.voidTy [numbers n]) .standard).functionRef
        ⟨22⟩).runFrom (.start .empty) = (.ok object, s') ∧
      object = .create cls [.lit (.string shown)] (some [call]) ∧
      ¬ ForwardsTo "report" Language.voidTy n call := by
  obtain ⟨object, s', hobject⟩ := exists_functionRef n
  have hlists : ((Env.of (methodModel Language.voidTy [numbers n]) .standard).model.decl
      ⟨22⟩).paramLists = [numbers n] := rfl
  obtain ⟨cls, shown, callResult, body, hcreate, _, hcalls⟩ := functionRef_hands hlists hobject
  refine ⟨object, s', cls, shown, _, hobject, hcreate, fun hforwards => ?_⟩
  have hlength : (numbers n).length = n := List.length_replicate
  have hargs : (List.replicate n (.int 0 : Value)).length = n := List.length_replicate
  have hnone : handed n 0 n (Machine.callLocals n (List.replicate n (.int 0)) ++ []) = none :=
    handed_eq_none (Nat.zero_le _) (by omega) (arrived?_beyond hmany _ _)
  let machine : Machine :=
    ⟨0, fun _ _ => some .absent, fun _ _ => false, fun _ => false, fun _ => false⟩
  have hcall := hforwards.calls machine [] (List.replicate n (.int 0)) hargs
  rw [Machine.callMethod_mk, hlength, Machine.bindArguments_call hargs, known, pure_bind, hcalls,
    hlength, hnone] at hcall
  -- the code is stuck before the call that the machine would answer
  have houtcome := congrFun hcall []
  contradiction

/-- With one argument more than there are indices, a function used as a value does
not forward to its method. -/
theorem manyNumbers_not_forwarded :
    (numbers (2 ^ 31 + 1)).length = 2 ^ 31 + 1 ∧
      ((methodModel Language.voidTy [numbers (2 ^ 31 + 1)]).decl ⟨22⟩).paramLists =
        [numbers (2 ^ 31 + 1)] ∧
      ∃ object s' cls shown call,
        ((Env.of (methodModel Language.voidTy [numbers (2 ^ 31 + 1)]) .standard).functionRef
          ⟨22⟩).runFrom (.start .empty) = (.ok object, s') ∧
        object = .create cls [.lit (.string shown)] (some [call]) ∧
        ¬ ForwardsTo "report" Language.voidTy (2 ^ 31 + 1) call :=
  ⟨List.length_replicate, rfl, not_forwardsTo_of_many (Nat.lt_succ_self _)⟩

end TreeLowering.Behaviour
