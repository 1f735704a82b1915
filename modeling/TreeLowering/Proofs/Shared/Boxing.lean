import TreeLowering.Proofs.Shared.TypeExpr
import TreeLowering.Shared.Expression
set_option autoImplicit false

/-!
# Proofs: raw and boxed values over shared tables

A conversion over tables tracks the one among types and texts: it draws the names that
the other draws, and its code reads as the code of the other.
-/

namespace TreeLowering.Shared

open Tables Tabled
open TreeLowering.Shared.Lowering (Tracks)
open Shared.Target (Expr Stmt)

namespace Tables

variable {t u : Tables} {i j : TypeIdx} {τ σ : Ty} {is : List TypeIdx} {τs : List Ty}
  {m : Model} {M : TreeLowering.Model} {e e' : Expr} {F F' : TreeLowering.Target.Expr}
  {es : List Expr} {Fs : List TreeLowering.Target.Expr}

/-! ## Calls -/

theorem PrintsExpr.get (h : t.PrintsExpr e F) (method : String) :
    Tells t (e.get method) PrintsExpr (F.get method) :=
  (Tells.intern method).bind fun _ _ hu _ hn => Tells.pure (.callOn (Stays.mono h hu) hn .nil)

theorem tells_static (cls method : String) (hes : Each PrintsExpr t es Fs) :
    Tells t (Target.Expr.static cls [] method es) PrintsExpr (.static cls [] method Fs) := by
  refine (tells_named cls).bind fun u c hu _ hc => ?_
  refine (Tells.intern method).bind fun v n hv _ hn => Tells.pure ?_
  exact .callStatic (Stays.mono hc hv) .nil hn (Stays.mono hes (hu.trans hv))

/-! ## Conversions -/

theorem HasTy.unboxCharacter (hi : t.HasTy i τ) :
    Says t (Model.unboxCharacter i)
      (if τ.hint? = some .char then Support.unboxChar else Support.unboxCodePoint) :=
  hi.hint?.map fun _ _ _ _ hhint => by
    obtain rfl := hhint
    rfl

theorem HasModel.isOptionalString (hm : t.HasModel m M) (hi : t.HasTy i τ) :
    Says t (m.isOptionalString i) (τ.isOptional && τ.definite.isString) :=
  hi.isOptional.both fun _ => (hm.definite hi).bind fun _ _ hu _ h => (hm.mono hu).isString h

theorem PrintsExpr.unboxString (h : t.PrintsExpr e F) :
    Tells t (unboxString e) PrintsExpr (Env.unboxString F) := by
  unfold Shared.unboxString TreeLowering.Env.unboxString
  rw [h.isStringLiteral_eq]
  split
  · exact Tells.pure h
  · exact h.get _

namespace HasEnv

variable {env : Env} {E : TreeLowering.Env}
variable (he : t.HasEnv env E)
include he

theorem boxClass? (hi : t.HasTy i τ) : Says t (env.model.boxClass? i) (E.boxClass? τ) := by
  have hm := he.model
  refine (hm.isInteger hi).ite' (fun _ => Tells.pure rfl) fun _ => ?_
  refine (hm.isFloat hi).ite' (fun _ => Tells.pure rfl) fun _ => ?_
  refine (hm.isString hi).ite' (fun _ => Tells.pure rfl) fun _ => ?_
  refine (hm.isCharacter hi).ite' (fun _ => Tells.pure rfl) fun _ => ?_
  exact (hm.isBoolean hi).ite' (fun _ => Tells.pure rfl) fun _ => Tells.pure rfl

theorem unboxMethod? (hi : t.HasTy i τ) : Says t (env.model.unboxMethod? i) (E.unboxMethod? τ) := by
  have hm := he.model
  refine (hm.isInteger hi).ite' (fun _ => Tells.pure rfl) fun _ => ?_
  refine (hm.isFloat hi).ite' (fun _ => Tells.pure rfl) fun _ => ?_
  refine (hm.isCharacter hi).ite' (fun _ => ?_) fun _ => ?_
  · exact hi.unboxCharacter.map fun _ _ _ _ h => congrArg some h
  refine (hm.isBoolean hi).ite' (fun _ => Tells.pure rfl) fun _ => ?_
  exact (hm.isArray hi).ite' (fun _ => Tells.pure rfl) fun _ => Tells.pure rfl

theorem arrayElement (hi : t.HasTy i τ) :
    Tells t (env.model.arrayElement i) HasTy (E.arrayElement τ) := by
  unfold TreeLowering.Env.arrayElement
  refine (he.model.firstArgument? hi _).map fun u found _ hsound hfound => ?_
  exact hfound.getD hsound.hasTy_error

theorem boxInto (d : DeclId) {us : List Target.Ty} {Us : List TreeLowering.Target.Ty}
    (hus : Each PrintsTy t us Us) (h : t.PrintsExpr e F) :
    Tracks E.model t (env.boxInto d us e) PrintsExpr (.ofType (E.boxInto d Us F)) := by
  refine (Tracks.declName he.model d .full).typed_bind fun u n x hu _ hn => ?_
  refine .tells (Tells.intern Support.box) fun v box hv _ hbox => .typed_pure ?_
  replace hu := hu.trans hv
  exact .callStatic (.cls (hn.mono hv)) (Stays.mono hus hu) hbox (.cons (Stays.mono h hu) .nil)

theorem boxOther (h : t.PrintsExpr e F) (hi : t.HasTy i τ) :
    Tracks E.model t (env.boxOther e i) PrintsExpr
      (.ofType (if E.model.isArray τ then do
          let element ← E.lowerType (E.arrayElement τ) .typeArgument
          E.boxInto Language.array [element] F
        else if τ = Language.voidTy then pure (.letIn [.exec F] .null)
        else pure F)) := by
  refine .sound fun u hu hsound => ?_
  replace he := he.mono hu
  replace hi := hi.mono hu
  replace h : u.PrintsExpr e F := Stays.mono h hu
  refine Tracks.typed_ite' (he.model.isArray hi) (fun _ => ?_) fun _ => ?_
  · refine .tells (he.arrayElement hi) fun v element hv _ helement => ?_
    replace he := he.mono hv
    refine (he.lowerType .typeArgument helement).typed_bind fun w a b hw _ hab => ?_
    exact (he.mono hw).boxInto _ (.cons hab .nil) (Stays.mono h (hv.trans hw))
  · exact .typed_ite_iff (hi.eq_iff he.model.builtins.void hsound)
      (fun _ => .typed_pure (.letIn (.cons (.exec h) .nil) .null)) fun _ => .typed_pure h

theorem boxValue (h : t.PrintsExpr e F) (hi : t.HasTy i τ) :
    Tracks E.model t (env.boxValue e i) PrintsExpr (.ofType (E.boxValue F τ)) := by
  unfold TreeLowering.Env.boxValue
  refine .tells (he.boxClass? hi) fun u d hu _ hd => ?_
  obtain rfl : d = E.boxClass? τ := hd
  cases E.boxClass? τ with
  | none => exact (he.mono hu).boxOther (Stays.mono h hu) (hi.mono hu)
  | some d => exact (he.mono hu).boxInto d .nil (Stays.mono h hu)

theorem unboxOptionalString (h : t.PrintsExpr e F) :
    Tracks E.model t (env.unboxOptionalString e) PrintsExpr (E.unboxOptionalString F) := by
  unfold Env.unboxOptionalString TreeLowering.Env.unboxOptionalString
  rw [h.isStringLiteral_eq]
  split
  · exact .pure h
  · refine (Tracks.fresh _).bind fun u tmp x hu _ htmp => ?_
    replace he := he.mono hu
    refine (he.lowerType .boxed he.model.builtins.string).bind fun v ty Ty hv _ hty => ?_
    replace htmp := htmp.mono hv
    refine .tells (PrintsExpr.unboxString (.ident htmp)) fun w value hw _ hvalue => .pure ?_
    replace htmp := htmp.mono hw
    replace h : w.PrintsExpr e F := Stays.mono h (hu.trans (hv.trans hw))
    exact .letIn (.cons (.declareFinal htmp (Stays.mono hty hw) h) .nil)
      (.cond (.binary _ (.ident htmp) .null) hvalue .null)

theorem unboxValue (h : t.PrintsExpr e F) (hi : t.HasTy i τ) :
    Tracks E.model t (env.unboxValue e i) PrintsExpr (E.unboxValue F τ) := by
  unfold TreeLowering.Env.unboxValue
  refine Tracks.ite' (he.model.isString hi) (fun _ => .of_tells h.unboxString) fun _ => ?_
  refine .tells (he.unboxMethod? hi) fun u method hu _ hmethod => ?_
  obtain rfl : method = E.unboxMethod? τ := hmethod
  replace he := he.mono hu
  replace h : u.PrintsExpr e F := Stays.mono h hu
  cases E.unboxMethod? τ with
  | some method => exact .of_tells (h.get method)
  | none =>
    exact Tracks.ite' (he.model.isOptionalString (hi.mono hu))
      (fun _ => he.unboxOptionalString h) fun _ => .pure h

/-- Bringing a value into a form. -/
theorem convert (h : t.PrintsExpr e F) (isBoxed : Bool) (hi : t.HasTy i τ) (form : Form) :
    Tracks E.model t (env.convert e isBoxed i form) PrintsExpr (E.convert F isBoxed τ form) := by
  cases form with
  | asIs => exact .pure h
  | boxed =>
    show Tracks E.model t (if isBoxed = true then Pure.pure e else env.boxValue e i) PrintsExpr
      (if isBoxed = true then Pure.pure F else liftM (E.boxValue F τ))
    split
    · exact .pure h
    · exact he.boxValue h hi
  | raw =>
    show Tracks E.model t (if isBoxed = true then env.unboxValue e i else Pure.pure e) PrintsExpr
      (if isBoxed = true then E.unboxValue F τ else Pure.pure F)
    split
    · exact he.unboxValue h hi
    · exact .pure h

end HasEnv

end Tables

end TreeLowering.Shared
