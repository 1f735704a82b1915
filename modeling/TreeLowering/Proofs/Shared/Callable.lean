import TreeLowering.Lowering.Callable
import TreeLowering.Proofs.Shared.Boxing
set_option autoImplicit false

/-!
# Proofs: function values over shared tables

A function value over tables tracks the one among types and texts.
-/

namespace TreeLowering.Shared

open Tables Tabled
open TreeLowering.Shared.Lowering (Tracks)
open Shared.Target (Expr Stmt)

namespace Tables

variable {t u : Tables} {i : TypeIdx} {τ : Ty} {e : Expr} {F : TreeLowering.Target.Expr}
  {body : List Stmt} {Body : List TreeLowering.Target.Stmt} {p : Parameter}
  {P : TreeLowering.Parameter} {ps : List Parameter} {Ps : List TreeLowering.Parameter}

theorem HasTy.curried (hi : t.HasTy i τ) {lists : List (List Parameter)}
    {Lists : List (List TreeLowering.Parameter)} (hlists : Each (Each HasParameter) t lists Lists) :
    Tells t (curried i lists) HasTy (τ.curried Lists) := by
  induction hlists with
  | nil => exact Tells.pure hi
  | cons hlist _ ih =>
    exact ih.bind fun u inner hu _ hinner => hinner.callable (Stays.mono hlist.types hu)

/-! ## Parameters of a function value -/

theorem tells_callParams (arity : Nat) :
    Tells t (callParams arity) (Each (Prints Target.Param.read))
      (TreeLowering.Env.callParams arity) := by
  refine tells_object.bind fun u object hu _ hobject => ?_
  unfold TreeLowering.Env.callParams
  split
  · have hsame : Each Same u (List.range arity) (List.range arity) :=
      List.forall₂_same.mpr fun _ _ => rfl
    refine Tells.each (R := Prints Target.Param.read) hsame fun k l hkl => ?_
    obtain rfl : k = l := hkl
    exact (Tells.intern _).map fun v n hv _ hn =>
      PrintsParam.mk true false hn (Stays.mono hobject hv)
  · refine (Tells.intern _).bind fun v n hv _ hn => Tells.pure (.cons ?_ .nil)
    exact PrintsParam.mk true true hn (.array (Stays.mono hobject hv))

theorem tells_arrivingArgument (position arity : Nat) :
    Tells t (arrivingArgument position arity) PrintsExpr
      (TreeLowering.Env.arrivingArgument position arity) := by
  unfold arrivingArgument TreeLowering.Env.arrivingArgument
  split
  · exact (Tells.intern _).map fun _ _ _ _ hn => .ident hn
  · exact (Tells.intern _).map fun _ _ _ _ hn => .index (.ident hn) (.lit fun _ _ => rfl)

namespace HasEnv

variable {env : Env} {E : TreeLowering.Env}
variable (he : t.HasEnv env E)
include he

theorem buildCallable (hi : t.HasTy i τ) (arity : Nat) (hbody : Each PrintsStmt t body Body) :
    Tracks E.model t (env.buildCallable i arity body) PrintsExpr
      (.ofType (E.buildCallable τ arity Body)) := by
  refine .tells (he.model.callableResult? hi) fun u yielded hu hsound hyielded => ?_
  replace he := he.mono hu
  replace hi := hi.mono hu
  refine (he.lowerType .inExtends (hyielded.getD hsound.hasTy_error)).typed_bind
    fun v result Result hv _ hresult => ?_
  replace he := he.mono hv
  replace hi := hi.mono hv
  refine (he.lowerType _ hi).typed_bind fun w cls Cls hw _ hcls => ?_
  replace he := he.mono hw
  replace hi := hi.mono hw
  replace hresult := Stays.mono hresult hw
  refine .tells (Tells.intern Support.call) fun w₁ call h₁ _ hcall => ?_
  refine .tells (tells_callParams arity) fun w₂ params h₂ _ hparams => ?_
  refine .tells ((he.mono (h₁.trans h₂)).model.display (hi.mono (h₁.trans h₂)))
    fun w₃ shown h₃ _ hshown => ?_
  obtain rfl : shown = E.model.display τ := hshown
  refine .tells (Tells.intern _) fun w₄ text h₄ _ htext => .typed_pure ?_
  have h₂₄ := h₃.trans h₄
  have h₁₄ := h₂.trans h₂₄
  have hw₄ := h₁.trans h₁₄
  refine .create (Stays.mono hcls hw₄) (.cons (.lit ?_) .nil) (.some (.cons ?_ .nil))
  · exact fun x hx => congrArg _ (htext.prints x hx)
  · exact .mk _ .nil (Stays.mono hresult hw₄) (hcall.mono h₁₄) (Stays.mono hparams h₂₄)
      (Stays.mono hbody ((hu.trans hv).trans (hw.trans hw₄)))

theorem unpickArgument (hp : t.HasParameter p P) (position arity : Nat) :
    Tracks E.model t (env.unpickArgument p position arity) PrintsExpr
      (E.unpickArgument P position arity) := by
  refine (he.lowerType .boxed hp.ty).bind fun u ty Ty hu _ hty => ?_
  refine .tells (tells_arrivingArgument position arity) fun v arriving hv _ harriving => ?_
  replace hu := hu.trans hv
  rw [hp.raw]
  exact (he.mono hu).convert (.cast (Stays.mono hty hv) harriving) true (hp.ty.mono hu) _

theorem unpickArguments (hps : Each HasParameter t ps Ps) (arity position : Nat) :
    Tracks E.model t (env.unpickArguments arity position ps) (Each PrintsExpr)
      (E.unpickArguments arity position Ps) := by
  induction hps generalizing position with
  | nil => exact .pure .nil
  | cons hp _ ih =>
    refine (he.unpickArgument hp position arity).bind fun u e F hu _ h => ?_
    refine ((ih (position + 1)).later hu).bind fun v es Fs hv _ hes => .pure ?_
    exact .cons (Stays.mono h hv) hes

theorem parameterType (hp : t.HasParameter p P) :
    Tracks E.model t (env.parameterType p) PrintsTy (.ofType (E.parameterType P)) := by
  unfold Env.parameterType TreeLowering.Env.parameterType
  rw [hp.raw]
  exact he.lowerType _ hp.ty

theorem unpickLocals (hps : Each HasParameter t ps Ps) (arity position : Nat) :
    Tracks E.model t (env.unpickLocals arity position ps) (Each PrintsStmt)
      (E.unpickLocals arity position Ps) := by
  induction hps generalizing position with
  | nil => exact .pure .nil
  | cons hp _ ih =>
    refine (he.unpickArgument hp position arity).bind fun u init Init hu _ hinit => ?_
    refine ((he.mono hu).parameterType (Stays.mono hp hu)).bind fun v ty Ty hv _ hty => ?_
    refine ((ih (position + 1)).later (hu.trans hv)).bind fun w rest Rest hw _ hrest => .pure ?_
    exact .cons (.declareFinal (hp.name.mono ((hu.trans hv).trans hw)) (Stays.mono hty hw)
      (Stays.mono hinit (hv.trans hw))) hrest

theorem layerCallable (hi : t.HasTy i τ) (hps : Each HasParameter t ps Ps)
    (hbody : Each PrintsStmt t body Body) :
    Tracks E.model t (env.layerCallable i ps body) PrintsExpr (E.layerCallable τ Ps Body) := by
  unfold Env.layerCallable TreeLowering.Env.layerCallable
  rw [hps.length_eq]
  refine (he.unpickLocals hps _ 0).bind fun u locals Locals hu _ hlocals => ?_
  exact (he.mono hu).buildCallable (hi.mono hu) _ (hlocals.append (Stays.mono hbody hu))

/-! ## Functions as values -/

theorem forwardBody (hi : t.HasTy i τ) (h : t.PrintsExpr e F) :
    Tracks E.model t (env.forwardBody i e) (Each PrintsStmt) (E.forwardBody τ F) := by
  refine .sound fun u hu hsound => ?_
  replace he := he.mono hu
  replace hi := hi.mono hu
  replace h : u.PrintsExpr e F := Stays.mono h hu
  refine .ite_iff (hi.eq_iff he.model.builtins.void hsound) (fun _ => ?_) fun _ => ?_
  · exact .pure (.cons (.exec h) (.cons (.ret (.some .null)) .nil))
  · refine .tells (he.model.canUnbox hi) fun v raw hv _ hraw => ?_
    obtain rfl : raw = E.model.canUnbox τ := hraw
    refine ((he.mono hv).convert (Stays.mono h hv) _ (hi.mono hv) .boxed).bind
      fun w value Value _ _ hvalue => .pure ?_
    exact .cons (.ret (.some hvalue)) .nil

theorem failWithoutLists {α β : Type} {R : Tables → α → β → Prop} (d : DeclId) :
    Tracks E.model t (env.failWithoutLists d) R
      (TreeLowering.Lowering.fail (.noParameterLists (E.model.qualifiedName d))) := by
  refine .tells (he.model.qualifiedName d) fun u name _ _ hname => ?_
  obtain rfl : name = E.model.qualifiedName d := hname
  exact .fail nofun

/-- A function used as a value. -/
theorem functionRef (d : DeclId) :
    Tracks E.model t (env.functionRef d) PrintsExpr (E.functionRef d) := by
  have hd := he.model.decl d
  unfold Env.functionRef TreeLowering.Env.functionRef
  dsimp only
  generalize hlists : (env.model.decl d).paramLists = lists
  generalize hLists : (E.model.decl d).paramLists = Lists
  have hparams := hd.paramLists
  rw [hlists, hLists] at hparams
  cases hparams with
  | nil => exact he.failWithoutLists d
  | @cons first First rest Rest hfirst hrest =>
    dsimp only
    rw [hfirst.length_eq]
    refine .sound fun u hu hsound => ?_
    have hown := Maybe.getD (Stays.mono hd.ty hu) hsound.hasTy_error
    refine .tells (hown.curried (Stays.mono hrest hu)) fun v result hv _ hresult => ?_
    replace hu := hu.trans hv
    refine ((he.mono hu).unpickArguments (Stays.mono hfirst hu) _ 0).bind
      fun w args Args hw _ hargs => ?_
    replace hu := hu.trans hw
    refine ((he.mono hu).forwardBody (hresult.mono hw)
      (.callLocal (hd.name.mono hu) hargs)).bind fun x body Body hx _ hbody => ?_
    replace hu := hu.trans hx
    refine .tells ((hresult.mono (hw.trans hx)).callable (Stays.mono hfirst hu).types)
      fun y own hy _ howntype => ?_
    exact (he.mono (hu.trans hy)).buildCallable howntype _ (Stays.mono hbody hy)

end HasEnv

end Tables

end TreeLowering.Shared
