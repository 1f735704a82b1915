import TreeLowering.Proofs.Shared.Refinement
import TreeLowering.Proofs.Shared.Statement
import TreeLowering.Shared.Backend
set_option autoImplicit false

/-!
# Proofs: methods lowered over shared tables

A function over tables tracks the one among types and texts, from its refined result
type to the method.
-/

namespace TreeLowering

/-- Body and result type of a function with the given lists after the first. -/
def Env.functionBody (E : Env) (result : Ty) (rest : List (List Parameter))
    (body : List Tree.Stmt) : Lowering (Target.Ty × List Target.Stmt) :=
  if rest.isEmpty then E.plainBody result body else E.curriedBody result rest body

/-- A method of a function with parameter lists. -/
def Env.withLists (E : Env) (f : Tree.Function) (result : Ty) (first : List Parameter)
    (rest : List (List Parameter)) : Lowering Target.Method := do
  let x := E.model.decl f.decl
  Lowering.moveTo f.span
  let typeParams ← E.lowerTypeParams x.typeParams
  let params ← E.methodParams first
  let (ty, body) ← E.functionBody result rest f.body
  pure (.mk { isPublic := x.flags.isShared } typeParams ty x.name params (some body))

theorem Env.lowerFunction_eq_withLists (E : Env) (f : Tree.Function) (result : Ty) :
    E.lowerFunction f result =
      match (E.model.decl f.decl).paramLists with
      | [] => Lowering.fail (.noParameterLists (E.model.qualifiedName f.decl))
      | first :: rest => E.withLists f result first rest := by
  unfold lowerFunction withLists functionBody
  dsimp only
  generalize (E.model.decl f.decl).paramLists = lists
  cases lists with
  | nil => rfl
  | cons first rest => cases rest <;> rfl

namespace Shared

open Tables Tabled
open TreeLowering.Shared.Lowering (Tracks)
open Shared.Target (Expr Stmt)

namespace Tables

variable {t u : Tables} {i : TypeIdx} {τ : Ty} {ps : List Parameter}
  {Ps : List TreeLowering.Parameter} {lists : List (List Parameter)}
  {Lists : List (List TreeLowering.Parameter)} {ss : List Tree.Stmt}
  {Ss : List TreeLowering.Tree.Stmt} {body : List Stmt} {Body : List TreeLowering.Target.Stmt}
  {f : Tree.Function} {F : TreeLowering.Tree.Function}

/-- A result type and a body. -/
structure PrintsBody (t : Tables) (a : Target.Ty × List Stmt)
    (b : TreeLowering.Target.Ty × List TreeLowering.Target.Stmt) : Prop where
  ty : t.PrintsTy a.1 b.1
  body : Each PrintsStmt t a.2 b.2

instance : Stays PrintsBody := ⟨fun h hu => ⟨Stays.mono h.ty hu, Stays.mono h.body hu⟩⟩

namespace HasEnv

variable {env : Env} {E : TreeLowering.Env}
variable (he : t.HasEnv env E)
include he

theorem methodParams (hps : Each HasParameter t ps Ps) :
    Tracks E.model t (env.methodParams ps) (Each (Prints Target.Param.read))
      (.ofType (E.methodParams Ps)) := by
  induction hps with
  | nil => exact .typed_pure .nil
  | cons hp _ ih =>
    refine (he.parameterType hp).typed_bind fun u ty Ty hu _ hty => ?_
    refine (ih.later hu).typed_bind fun v rest Rest hv _ hrest => .typed_pure ?_
    exact .cons (PrintsParam.mk true false (hp.name.mono (hu.trans hv)) (Stays.mono hty hv)) hrest

theorem methodResult (hi : t.HasTy i τ) :
    Tracks E.model t (env.methodResult i) PrintsTy (.ofType (E.methodResult τ)) := by
  refine .sound fun u hu hsound => ?_
  replace he := he.mono hu
  replace hi := hi.mono hu
  exact .typed_ite_iff (hi.eq_iff he.model.builtins.void hsound)
    (fun _ => .typed_pure (.primitive _)) fun _ => he.lowerType .plain hi

theorem plainBody (hi : t.HasTy i τ) (hss : Each HasStmt t ss Ss) :
    Tracks E.model t (env.plainBody i ss) PrintsBody (E.plainBody τ Ss) := by
  refine (he.valueForm hi).bind fun u form Form hu _ hform => ?_
  obtain rfl : form = Form := hform
  refine (Tracks.withReturns ⟨form, false⟩ ((he.lowerStmts ss hss).later hu)).bind
    fun v lowered Lowered hv _ hlowered => ?_
  replace hu := hu.trans hv
  refine ((he.mono hu).methodResult (hi.mono hu)).bind fun w ty Ty hw _ hty => .pure ?_
  exact ⟨hty, Stays.mono hlowered hw⟩

theorem endWithValue (ht : t.Sound) (hi : t.HasTy i τ) (hbody : Each PrintsStmt t body Body) :
    Each PrintsStmt t (env.endWithValue i body) (TreeLowering.Env.endWithValue τ Body) := by
  unfold Env.endWithValue TreeLowering.Env.endWithValue
  rw [PrintsStmt.allComplete_eq hbody, hi.decide_eq he.model.builtins.void ht]
  split
  · exact hbody.append (.cons (.ret (.some .null)) .nil)
  · exact hbody

theorem wrapLayers (hi : t.HasTy i τ) (hbody : Each PrintsStmt t body Body)
    (hlists : Each (Each HasParameter) t lists Lists) :
    Tracks E.model t (env.wrapLayers i body lists) (Each PrintsStmt)
      (E.wrapLayers τ Body Lists) := by
  induction hlists with
  | nil => exact .pure hbody
  | @cons list List rest Rest hlist hrest ih =>
    have hlater : Each (Each HasParameter) t rest Rest := hrest
    refine ih.bind fun u inner Inner hu _ hinner => ?_
    refine .tells ((hi.mono hu).curried (Stays.mono hlater hu)) fun v yielded hv _ hyielded => ?_
    replace hu := hu.trans hv
    refine .tells (hyielded.callable (Stays.mono hlist hu).types) fun w own hw _ hown => ?_
    replace hu := hu.trans hw
    refine ((he.mono hu).layerCallable hown (Stays.mono hlist hu)
      (Stays.mono hinner (hv.trans hw))).bind fun z layer Layer _ _ hlayer => .pure ?_
    exact .cons (.ret (.some hlayer)) .nil

theorem curriedBody (hi : t.HasTy i τ) (hlists : Each (Each HasParameter) t lists Lists)
    (hss : Each HasStmt t ss Ss) :
    Tracks E.model t (env.curriedBody i lists ss) PrintsBody (E.curriedBody τ Lists Ss) := by
  refine (Tracks.withReturns ⟨.boxed, true⟩ (he.lowerStmts ss hss)).bind
    fun u lowered Lowered hu hsound hlowered => ?_
  refine ((he.mono hu).wrapLayers (hi.mono hu)
    ((he.mono hu).endWithValue hsound (hi.mono hu) hlowered) (Stays.mono hlists hu)).bind
    fun v wrapped Wrapped hv _ hwrapped => ?_
  replace hu := hu.trans hv
  refine .tells ((hi.mono hu).curried (Stays.mono hlists hu)) fun w own hw _ hown => ?_
  refine ((he.mono (hu.trans hw)).lowerType .plain hown).bind fun z ty Ty hz _ hty => .pure ?_
  exact ⟨hty, Stays.mono hwrapped (hw.trans hz)⟩

theorem functionBody (hi : t.HasTy i τ) (hlists : Each (Each HasParameter) t lists Lists)
    (hss : Each HasStmt t ss Ss) :
    Tracks E.model t (env.functionBody i lists ss) PrintsBody (E.functionBody τ Lists Ss) := by
  cases hlists with
  | nil => exact he.plainBody hi hss
  | cons hlist hrest => exact he.curriedBody hi (.cons hlist hrest) hss

/-- A function, lowered to a method with the given result type. -/
theorem lowerFunction (hf : t.HasFunction f F) (hi : t.HasTy i τ) :
    Tracks E.model t (env.lowerFunction f i) PrintsMethod (E.lowerFunction F τ) := by
  obtain ⟨hdecl, hbody, hspan⟩ := hf
  have hd := he.model.decl F.decl
  rw [E.lowerFunction_eq_withLists]
  unfold Env.lowerFunction
  dsimp only
  rw [hdecl, hspan]
  have hlists := hd.paramLists
  generalize hown : (env.model.decl F.decl).paramLists = lists,
    hOwn : (E.model.decl F.decl).paramLists = Lists at hlists
  cases hlists with
  | nil => exact he.failWithoutLists _
  | @cons first First rest Rest hfirst hrest =>
    have hlater : Each (Each HasParameter) t rest Rest := hrest
    refine (Tracks.moveTo F.span).bind fun u _ _ hu _ _ => ?_
    rw [hd.typeParams, hd.flags]
    refine ((he.mono hu).lowerTypeParams _).bind fun v typeParams TypeParams hv _ htypeParams => ?_
    replace hu := hu.trans hv
    refine ((he.mono hu).methodParams (Stays.mono hfirst hu)).bind
      fun w params Params hw _ hparams => ?_
    replace hu := hu.trans hw
    refine ((he.mono hu).functionBody (hi.mono hu) (Stays.mono hlater hu)
      (Stays.mono hbody hu)).bind fun z out Out hz _ hout => .pure ?_
    exact .mk _ (Stays.mono htypeParams (hw.trans hz)) hout.ty (hd.name.mono (hu.trans hz))
      (Stays.mono hparams hz) hout.body

/-- A function, lowered to a method with the result type that refinement asks for. -/
theorem lowerWhole (hf : t.HasFunction f F) :
    Tracks E.model t (env.lowerWhole f) PrintsMethod
      (E.lowerFunction F (E.model.resultType F.decl)) := by
  unfold Env.lowerWhole
  rw [hf.decl]
  exact .tells (he.resultType F.decl) fun u result hu _ hresult =>
    (he.mono hu).lowerFunction (Stays.mono hf hu) hresult

end HasEnv

end Tables

end Shared

end TreeLowering
