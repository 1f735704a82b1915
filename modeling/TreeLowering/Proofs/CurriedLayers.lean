import TreeLowering.Lowering.Method
import TreeLowering.Proofs.RefinementSafety
import TreeLowering.Proofs.Yield
import Mathlib.Data.List.Forall2
set_option autoImplicit false

/-!
# Proofs: the layers of a curried function

A function with several parameter lists lowers to a method for the first one.
Its body is a single return of a function value for the second list, whose
`call` returns one for the third, and so on down to the body of the source.
The nest is built from the inside out, while the types are read from the outside
in: a layer is an object of the type that is still to be given its own list and
all later ones.
-/

namespace TreeLowering

open Target (Expr Stmt)
open Lowering (Yields)

/-! ## A function value -/

/-- A callable type has the result that it is written with. -/
theorem Model.callableResult?_callable (m : Model) (result : Ty) (params : List Ty) :
    m.callableResult? (.callable result params) = some result := by
  rw [callableResult?, supertype?_self rfl]
  rfl

/-- An object of an anonymous class, told its own type, with a `call` of the
given body. -/
def Target.Expr.functionObject (cls : Target.Ty) (shown : String) (callResult : Target.Ty)
    (arity : Nat) (body : List Stmt) : Expr :=
  .create cls [.lit (.string shown)]
    (some [.mk { isPublic := true } [] callResult Support.call (Env.callParams arity) (some body)])

namespace Env

variable {env : Env}

theorem answer?_buildCallable {t : Ty} {arity : Nat} {body : List Stmt} {code : Expr} :
    (env.buildCallable t arity body).answer? = some code ↔
      ∃ callResult cls,
        (env.lowerType ((env.model.callableResult? t).getD .error) .inExtends).answer? =
          some callResult ∧
        (env.lowerType t (.inExtends ∪ .inCreation)).answer? = some cls ∧
        code = .functionObject cls (env.model.display t) callResult arity body := by
  unfold buildCallable
  constructor
  · intro h
    obtain ⟨callResult, hresult, h⟩ := TypeLowering.answer?_bind.mp h
    obtain ⟨cls, hcls, h⟩ := TypeLowering.answer?_bind.mp h
    cases h
    exact ⟨callResult, cls, hresult, hcls, rfl⟩
  · rintro ⟨callResult, cls, hresult, hcls, rfl⟩
    exact TypeLowering.answer?_bind.mpr ⟨callResult, hresult,
      TypeLowering.answer?_bind.mpr ⟨cls, hcls, rfl⟩⟩

end Env

/-! ## Layers -/

/-- What a function value for one parameter list is made of. -/
structure Layer where
  /-- The class that it extends. -/
  cls : Target.Ty
  /-- The type that it is told. -/
  shown : String
  /-- Result type of its `call`. -/
  callResult : Target.Ty
  arity : Nat
  /-- What its `call` begins with. -/
  locals : List Stmt

namespace Layer

/-- A return of the function value, whose `call` goes on with `inner`. -/
def around (layer : Layer) (inner : List Stmt) : List Stmt :=
  [.ret (some (.functionObject layer.cls layer.shown layer.callResult layer.arity
    (layer.locals ++ inner)))]

/-- Function values one inside the other, the first one outermost. -/
def nest (layers : List Layer) (inner : List Stmt) : List Stmt := layers.foldr around inner

end Layer

namespace Env

variable {env : Env} {s s' : LowerState}

/-- A final local of the parameter's name and type takes the argument at the
position. -/
def Unpicks (env : Env) (arity position : Nat) (p : Parameter) (stmt : Stmt) : Prop :=
  ∃ ty init t t', stmt = .declareFinal p.name ty init ∧
    (env.parameterType p).answer? = some ty ∧
    Yields (env.unpickArgument p position arity) t init t'

/-- The function value for a parameter list, where the lists of `rest` are still
to come. -/
structure IsLayer (env : Env) (result : Ty) (list : List Parameter)
    (rest : List (List Parameter)) (layer : Layer) : Prop where
  cls : (env.lowerType (result.curried (list :: rest)) (.inExtends ∪ .inCreation)).answer? =
    some layer.cls
  shown : layer.shown = env.model.display (result.curried (list :: rest))
  callResult : (env.lowerType (result.curried rest) .inExtends).answer? = some layer.callResult
  arity : layer.arity = list.length
  locals : List.Forall₂ (fun x => env.Unpicks list.length x.2 x.1) list.zipIdx layer.locals

/-- There is one layer for each parameter list, in their order. -/
structure AreLayers (env : Env) (result : Ty) (lists : List (List Parameter))
    (layers : List Layer) : Prop where
  length : layers.length = lists.length
  layer : ∀ (j : Nat) (list : List Parameter) (layer : Layer),
    lists[j]? = some list → layers[j]? = some layer →
      env.IsLayer result list (lists.drop (j + 1)) layer

/-- A parameter of the method is final and has the parameter's name and type. -/
def Declares (env : Env) (p : Parameter) (x : Target.Param) : Prop :=
  ∃ ty, (env.parameterType p).answer? = some ty ∧ x = ⟨true, false, p.name, ty⟩

theorem AreLayers.nil (result : Ty) : env.AreLayers result [] [] :=
  ⟨rfl, fun _ _ _ h => by simp at h⟩

theorem AreLayers.cons {result : Ty} {list : List Parameter} {rest : List (List Parameter)}
    {layer : Layer} {layers : List Layer} (h : env.IsLayer result list rest layer)
    (hs : env.AreLayers result rest layers) :
    env.AreLayers result (list :: rest) (layer :: layers) := by
  refine ⟨congrArg (· + 1) hs.length, fun j list' layer' hlist hlayer => ?_⟩
  cases j with
  | zero =>
    cases hlist
    cases hlayer
    exact h
  | succ j => exact hs.layer j list' layer' hlist hlayer

theorem unpickLocals_unpicks {arity : Nat} {ps : List Parameter} :
    ∀ {position : Nat} {s : LowerState} {stmts : List Stmt},
      Yields (env.unpickLocals arity position ps) s stmts s' →
        List.Forall₂ (fun x => env.Unpicks arity x.2 x.1) (ps.zipIdx position) stmts := by
  induction ps with
  | nil =>
    intro position s stmts h
    unfold unpickLocals at h
    obtain ⟨rfl, _⟩ := Lowering.yields_pure.mp h
    exact .nil
  | cons p ps ih =>
    intro position s stmts h
    unfold unpickLocals at h
    obtain ⟨init, s₁, hinit, h⟩ := Lowering.yields_bind.mp h
    obtain ⟨ty, s₂, hty, h⟩ := Lowering.yields_bind.mp h
    obtain ⟨rest, s₃, hrest, h⟩ := Lowering.yields_bind.mp h
    obtain ⟨rfl, rfl⟩ := Lowering.yields_pure.mp h
    exact .cons ⟨ty, init, s, s₁, rfl, hty.answer, hinit⟩ (ih hrest)

theorem methodParams_declares {ps : List Parameter} :
    ∀ {params : List Target.Param}, (env.methodParams ps).answer? = some params →
      List.Forall₂ env.Declares ps params := by
  induction ps with
  | nil =>
    intro params h
    cases h
    exact .nil
  | cons p ps ih =>
    intro params h
    unfold methodParams at h
    obtain ⟨ty, hty, h⟩ := TypeLowering.answer?_bind.mp h
    obtain ⟨rest, hrest, h⟩ := TypeLowering.answer?_bind.mp h
    cases h
    exact .cons ⟨ty, hty, rfl⟩ (ih hrest)

/-- The type of a layer has the result that its `call` is declared with: what
is left once the layer has taken its list. -/
theorem layerCallable_isLayer {result : Ty} {list : List Parameter}
    {rest : List (List Parameter)} {inner : List Stmt} {code : Expr}
    (h : Yields (env.layerCallable (result.curried (list :: rest)) list inner) s code s') :
    ∃ layer, env.IsLayer result list rest layer ∧ layer.around inner = [.ret (some code)] := by
  unfold layerCallable at h
  obtain ⟨locals, s₁, hlocals, h⟩ := Lowering.yields_bind.mp h
  obtain ⟨callResult, cls, hresult, hcls, rfl⟩ := answer?_buildCallable.mp h.answer
  have hrest : env.model.callableResult? (result.curried (list :: rest)) =
      some (result.curried rest) := env.model.callableResult?_callable _ _
  rw [hrest, Option.getD_some] at hresult
  exact ⟨⟨cls, _, callResult, list.length, locals⟩,
    ⟨hcls, rfl, hresult, rfl, unpickLocals_unpicks hlocals⟩, rfl⟩

theorem wrapLayers_nest {result : Ty} {inner : List Stmt} {lists : List (List Parameter)} :
    ∀ {s s' : LowerState} {wrapped : List Stmt},
      Yields (env.wrapLayers result inner lists) s wrapped s' →
        ∃ layers, env.AreLayers result lists layers ∧ wrapped = Layer.nest layers inner := by
  induction lists with
  | nil =>
    intro s s' wrapped h
    unfold wrapLayers at h
    obtain ⟨rfl, _⟩ := Lowering.yields_pure.mp h
    exact ⟨[], .nil result, rfl⟩
  | cons list rest ih =>
    intro s s' wrapped h
    unfold wrapLayers at h
    obtain ⟨next, s₁, hnext, h⟩ := Lowering.yields_bind.mp h
    obtain ⟨code, s₂, hcode, h⟩ := Lowering.yields_bind.mp h
    obtain ⟨rfl, _⟩ := Lowering.yields_pure.mp h
    obtain ⟨layers, hlayers, rfl⟩ := ih hnext
    obtain ⟨layer, hlayer, heq⟩ := layerCallable_isLayer hcode
    exact ⟨layer :: layers, hlayers.cons hlayer, heq.symm⟩

/-! ## The method -/

/-- The parts that a function with several parameter lists is lowered to, and the
states that its body is lowered between. -/
theorem yields_lowerFunction {env : Env} {f : Tree.Function} {result : Ty} {s s' : LowerState}
    {method : Target.Method} {first : List Parameter} {rest : List (List Parameter)}
    (hlists : (env.model.decl f.decl).paramLists = first :: rest) (hrest : rest ≠ [])
    (h : Yields (env.lowerFunction f result) s method s') :
    ∃ typeParams ty params wrapped code t t' t'',
      method = .mk { isPublic := (env.model.decl f.decl).flags.isShared } typeParams ty
        (env.model.decl f.decl).name params (some wrapped) ∧
      (env.methodParams first).answer? = some params ∧
      (env.lowerType (result.curried rest) .plain).answer? = some ty ∧
      s.Follows t ∧
      Yields (Lowering.withReturns ⟨.boxed, true⟩ (env.lowerStmts f.body)) t code t' ∧
      Yields (env.wrapLayers result (endWithValue result code) rest) t' wrapped t'' := by
  unfold lowerFunction at h
  dsimp only at h
  rw [hlists] at h
  obtain ⟨_, s₁, hmove, h⟩ := Lowering.yields_bind.mp h
  obtain ⟨typeParams, s₂, htypes, h⟩ := Lowering.yields_bind.mp h
  obtain ⟨params, s₃, hparams, h⟩ := Lowering.yields_bind.mp h
  rw [if_neg (by simpa using hrest)] at h
  obtain ⟨⟨ty, body⟩, s₄, hbody, h⟩ := Lowering.yields_bind.mp h
  obtain ⟨rfl, _⟩ := Lowering.yields_pure.mp h
  unfold curriedBody at hbody
  obtain ⟨code, s₅, hcode, hbody⟩ := Lowering.yields_bind.mp hbody
  obtain ⟨wrapped, s₆, hwrapped, hbody⟩ := Lowering.yields_bind.mp hbody
  obtain ⟨resultTy, s₇, hty, hbody⟩ := Lowering.yields_bind.mp hbody
  obtain ⟨heq, _⟩ := Lowering.yields_pure.mp hbody
  cases heq
  have hmoved : s.Follows s₁ := by
    obtain rfl := Lowering.yields_change.mp hmove
    exact .of_eq rfl rfl
  have hfollows : s.Follows s₃ :=
    (hmoved.trans (LowerState.Follows.ofType htypes)).trans (.ofType hparams)
  exact ⟨typeParams, ty, params, _, code, s₃, s₅, s₆, rfl, hparams.answer, hty.answer,
    hfollows, hcode, hwrapped⟩

/-- A function with several parameter lists that lowers takes the parameters of
its first list in their order, and yields what is left once it has them.  Its
body is one return of the nest of function values for the other lists.  The
innermost of them goes on with the lowered source body, and with a return of the
absent value exactly if the function says nothing and that body can end. -/
theorem lowerFunction_nest (env : Env) (f : Tree.Function) (result : Ty) (s s' : LowerState)
    (method : Target.Method) (first : List Parameter) (rest : List (List Parameter))
    (hlists : (env.model.decl f.decl).paramLists = first :: rest) (hrest : rest ≠ [])
    (hmethod : (env.lowerFunction f result).runFrom s = (.ok method, s')) :
    ∃ typeParams ty params layers code ending,
      method = .mk { isPublic := (env.model.decl f.decl).flags.isShared } typeParams ty
        (env.model.decl f.decl).name params (some (Layer.nest layers (code ++ ending))) ∧
      List.Forall₂ env.Declares first params ∧
      (env.lowerType (result.curried rest) .plain).answer? = some ty ∧
      env.AreLayers result rest layers ∧
      (∃ t t', s.Follows t ∧
        (Lowering.withReturns ⟨.boxed, true⟩ (env.lowerStmts f.body)).runFrom t = (.ok code, t')) ∧
      ending = if result = Language.voidTy ∧ Stmt.allComplete code = true
        then [.ret (some .null)] else [] := by
  obtain ⟨typeParams, ty, params, wrapped, code, t, t', t'', rfl, hparams, hty, hfollows, hcode,
    hwrapped⟩ := yields_lowerFunction hlists hrest hmethod
  have hending : endWithValue result code =
      code ++ if result = Language.voidTy ∧ Stmt.allComplete code = true
        then [.ret (some .null)] else [] := by
    simp only [endWithValue, Bool.and_eq_true, decide_eq_true_eq]
    split
    · rfl
    · rw [List.append_nil]
  rw [hending] at hwrapped
  obtain ⟨layers, hlayers, rfl⟩ := wrapLayers_nest hwrapped
  exact ⟨typeParams, ty, params, layers, code, _, rfl, methodParams_declares hparams, hty, hlayers,
    ⟨t, t', hfollows, hcode⟩, rfl⟩

/-- A model with one method of three parameter lists, of one, four and no
parameters, that says nothing. -/
def surveyModel : Model where
  decls := #[{ Declaration.bare "survey" .method "demo" none with
    ty := some Language.voidTy
    paramLists :=
      [[⟨"site", Language.stringTy, some true⟩],
        [⟨"north", Language.integerTy, some true⟩, ⟨"east", Language.integerTy, some false⟩,
          ⟨"south", Language.integerTy, none⟩, ⟨"west", Language.stringTy, some false⟩],
        []] }]
  params := #[]

/-- The method without a statement. -/
def surveyFunction : Tree.Function := ⟨⟨22⟩, [], .dummy⟩

/-- The outer function value takes the four parameters of the second list as an
array, and the inner one, which takes none, returns the absent value. -/
theorem survey_nest :
    ∃ typeParams ty params s', ∃ outer inner : Layer,
      ((Env.of surveyModel .standard).lowerFunction surveyFunction Language.voidTy).runFrom
        (.start .empty) = (.ok (.mk {} typeParams ty "survey" params
          (some (outer.around (inner.around [.ret (some .null)])))), s') ∧
      (outer.shown, outer.arity, outer.locals.length) =
        ("Callable<Callable<Void>, Integer, Integer, Integer, String>", 4, 4) ∧
      (inner.shown, inner.arity, inner.locals) = ("Callable<Void>", 0, []) := by
  obtain ⟨method, s', hmethod⟩ := Lowering.exists_yields
    (show (((Env.of surveyModel .standard).lowerFunction surveyFunction
      Language.voidTy).runFrom (.start .empty)).1.isOk = true by decide +kernel)
  obtain ⟨typeParams, ty, params, layers, code, ending, rfl, _, _, hlayers, ⟨t, t', _, hcode⟩,
    hending⟩ := lowerFunction_nest _ _ _ _ _ _ _ _ rfl (by decide) hmethod
  obtain ⟨outer, inner, rfl⟩ := List.length_eq_two.mp hlayers.length
  cases hcode
  have houter := hlayers.layer 0 _ outer rfl rfl
  have hinner := hlayers.layer 1 _ inner rfl rfl
  refine ⟨typeParams, ty, params, s', outer, inner, ?_, ?_, ?_⟩
  · rw [hending] at hmethod
    exact hmethod
  · rw [houter.shown, houter.arity, ← houter.locals.length_eq]
    rfl
  · rw [hinner.shown, hinner.arity, List.forall₂_nil_left_iff.mp hinner.locals]
    rfl

end Env

end TreeLowering
