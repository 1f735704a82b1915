import TreeLowering.Lowering.Expression
import TreeLowering.Proofs.Shared.Callable
import TreeLowering.Proofs.Shared.Tree
import TreeLowering.Shared.Expression
set_option autoImplicit false

/-!
# Proofs: expressions lowered over shared tables

Sequences and expressions over tables track those among types and texts.
-/

namespace TreeLowering.Shared

open Tables Tabled
open TreeLowering.Shared.Lowering (Tracks)
open Shared.Target (Expr Stmt)

namespace Tables

variable {t u : Tables} {i : TypeIdx} {τ : Ty} {is : List TypeIdx} {τs : List Ty}
  {e lhs rhs : Expr} {F Lhs Rhs : TreeLowering.Target.Expr} {es : List Expr}
  {Fs : List TreeLowering.Target.Expr} {ps : List Parameter} {Ps : List TreeLowering.Parameter}

/-! ## Sequences -/

theorem tells_sequenceArguments (hes : Each PrintsExpr t es Fs) (his : Each HasTy t is τs) :
    Tells t (sequenceArguments es is) (Each PrintsExpr)
      (TreeLowering.Env.sequenceArguments Fs τs) := by
  cases hes with
  | nil => exact Tells.pure .nil
  | cons h hrest =>
    cases hrest with
    | cons h' hrest => exact Tells.pure (.cons h (.cons h' hrest))
    | nil =>
      cases his with
      | nil => exact Tells.pure (.cons h .nil)
      | cons hi hrest =>
        cases hrest with
        | cons _ _ => exact Tells.pure (.cons h .nil)
        | nil =>
          refine (hi.isOf _).ite' (fun _ => ?_) fun _ => Tells.pure (.cons h .nil)
          exact tells_object.map fun u c hu _ hc => .cons (.cast hc (Stays.mono h hu)) .nil

theorem tells_makeEmpty : Tells t makeEmpty PrintsExpr TreeLowering.Env.makeEmpty :=
  tells_static _ _ .nil

namespace HasEnv

variable {env : Env} {E : TreeLowering.Env}
variable (he : t.HasEnv env E)
include he

theorem makeSequence (hes : Each PrintsExpr t es Fs) (his : Each HasTy t is τs)
    (hi : t.HasTy i τ) (ctx : Context) :
    Tracks E.model t (env.makeSequence es is i ctx) PrintsExpr
      (.ofType (E.makeSequence Fs τs τ ctx)) := by
  refine .tells (Tells.make (.nominal (.cons hi .nil) .none)) fun u own hu _ hown => ?_
  refine ((he.mono hu).lowerType ctx hown).typed_bind fun v cls Cls hv _ hcls => ?_
  replace hu := hu.trans hv
  refine .tells (tells_sequenceArguments (Stays.mono hes hu) (Stays.mono his hu))
    fun w args hw _ hargs => .typed_pure ?_
  exact .create (Stays.mono hcls hw) hargs .none

theorem sequenceLiteral (hi : t.HasTy i τ) (hes : Each PrintsExpr t es Fs)
    (his : Each HasTy t is τs) :
    Tracks E.model t (env.sequenceLiteral i es is) PrintsExpr (E.sequenceLiteral τ Fs τs) := by
  unfold TreeLowering.Env.sequenceLiteral
  cases hes with
  | nil => exact .of_tells tells_makeEmpty
  | @cons e F es Fs h hrest =>
    have hes : Each PrintsExpr t (e :: es) (F :: Fs) := .cons h hrest
    refine .tells (he.model.iteratedType? hi) fun u element hu hsound helement => ?_
    exact (he.mono hu).makeSequence (Stays.mono hes hu) (Stays.mono his hu)
      (helement.getD hsound.hasTy_error) .inCreation

end HasEnv

/-! ## Operators -/

/-- The lowered expression, and whether it is raw. -/
structure HasNatural (t : Tables) (n : Natural) (N : TreeLowering.Env.Natural) : Prop where
  code : t.PrintsExpr n.code N.code
  raw : n.raw = N.raw

instance : Stays HasNatural := ⟨fun h hu => ⟨Stays.mono h.code hu, h.raw⟩⟩

theorem integerLiteral_prints (τ : Ty) (value : Int) :
    Prints Target.Literal.read t (integerLiteral τ.hint? value)
      (TreeLowering.Env.integerLiteral τ value) := by
  intro u _
  unfold integerLiteral TreeLowering.Env.integerLiteral
  split <;> rfl

theorem argumentForm_eq (hps : Each HasParameter t ps Ps) :
    argumentForm ps = TreeLowering.Env.argumentForm Ps := by
  cases hps with
  | nil => rfl
  | @cons p P _ _ hp _ =>
    show (if p.raw = some true then Form.raw else .boxed) =
      if P.raw = some true then Form.raw else .boxed
    rw [hp.raw]

theorem Each.tail {α β : Type} {S : Tables → α → β → Prop} {as : List α} {bs : List β}
    (has : Each S t as bs) : Each S t as.tail bs.tail := by
  cases has with
  | nil => exact .nil
  | cons _ hrest => exact hrest

theorem HasName.getter {n : Name} {x : String} (hn : t.HasName n x) :
    Tells t (Env.getter n) HasName (getterName x) :=
  (Tells.textOf hn).bind fun u text _ _ htext => by
    obtain rfl := htext
    exact Tells.intern _

theorem Each.exprTypes {es : List Tree.Expr} {Es : List TreeLowering.Tree.Expr}
    (hes : Each HasExpr t es Es) :
    Each HasTy t (es.map Tree.Expr.ty) (Es.map TreeLowering.Tree.Expr.ty) := by
  induction hes with
  | nil => exact .nil
  | cons h _ ih => exact .cons h.ty ih

namespace HasEnv

variable {env : Env} {E : TreeLowering.Env}
variable (he : t.HasEnv env E)
include he

theorem comparesRaw (hi : t.HasTy i τ) : Says t (env.comparesRaw i) (E.comparesRaw τ) :=
  (he.model.isBasic hi).both fun _ => (he.model.isString hi).no

theorem operandForm (op : TreeLowering.Tree.Operator) (hi : t.HasTy i τ) :
    Says t (env.operandForm op i) (E.operandForm op τ) := by
  unfold Env.operandForm TreeLowering.Env.operandForm
  cases op.direct? with
  | some _ => exact Tells.pure rfl
  | none => exact (he.comparesRaw hi).map fun _ _ _ _ hraw => congrArg Form.ofRaw hraw

theorem equality (hi : t.HasTy i τ) (hlhs : t.PrintsExpr lhs Lhs) (hrhs : t.PrintsExpr rhs Rhs) :
    Tells t (env.equality i lhs rhs) PrintsExpr
      (if E.comparesRaw τ then .binary .eq Lhs Rhs else .callOn Lhs Support.equals [Rhs]) := by
  refine (he.comparesRaw hi).ite' (fun _ => Tells.pure (.binary _ hlhs hrhs)) fun _ => ?_
  refine (Tells.intern _).bind fun u equals hu _ hequals => Tells.pure ?_
  exact .callOn (Stays.mono hlhs hu) hequals (.cons (Stays.mono hrhs hu) .nil)

theorem applyOperator (op : TreeLowering.Tree.Operator) (hi : t.HasTy i τ)
    (hlhs : t.PrintsExpr lhs Lhs) (hrhs : t.PrintsExpr rhs Rhs) :
    Tells t (env.applyOperator op i lhs rhs) PrintsExpr (E.applyOperator op τ Lhs Rhs) := by
  unfold Env.applyOperator TreeLowering.Env.applyOperator
  cases op.direct? with
  | some direct => exact Tells.pure (.binary _ hlhs hrhs)
  | none =>
    refine (he.equality hi hlhs hrhs).map fun u equal _ _ hequal => ?_
    dsimp only
    split
    · exact .not hequal
    · exact hequal

/-! ## Expressions -/

theorem firstParams (d : DeclId) : Each HasParameter t (env.firstParams d) (E.firstParams d) := by
  have hlists := (he.model.decl d).paramLists
  unfold Env.firstParams TreeLowering.Env.firstParams
  generalize (env.model.decl d).paramLists = lists, (E.model.decl d).paramLists = Lists at hlists
  cases hlists with
  | nil => exact .nil
  | cons hfirst _ => exact hfirst

theorem referenceTo (d : DeclId) (span : Span) :
    Tracks E.model t (env.referenceTo d span) PrintsExpr (E.referenceTo d span) := by
  unfold Env.referenceTo TreeLowering.Env.referenceTo
  rw [he.model.isMethod]
  split
  · exact he.functionRef d
  · exact (Tracks.problemAt span .notAFunction).bind fun _ _ _ _ _ _ => .pure .null

theorem deliver {info : Tree.Info} {Info : TreeLowering.Tree.Info} (hinfo : t.HasInfo info Info)
    (form : Form) {x : Lowering Natural} {y : TreeLowering.Lowering TreeLowering.Env.Natural}
    (h : Tracks E.model t x HasNatural y) :
    Tracks E.model t (env.deliver info form x) PrintsExpr (E.deliver Info form y) := by
  refine h.bind fun u n N hu _ hn => ?_
  rw [hn.raw, hinfo.raw]
  exact (he.mono hu).convert hn.code _ (hinfo.ty.mono hu) _

mutual

theorem lowerNatural : ∀ (e : Tree.Expr) {F : TreeLowering.Tree.Expr}, t.HasExpr e F →
    Tracks E.model t (Env.lowerNatural env e) HasNatural (TreeLowering.Env.lowerNatural E F)
  | .ident info n, _, .ident hinfo hn => by
    refine (Tracks.resolve hn).bind fun u target Target _ _ htarget => .pure ?_
    exact ⟨.ident htarget, hinfo.raw⟩
  | .integer info value, _, .integer hinfo => by
    refine .tells hinfo.ty.hint? fun u hint _ _ hhint => .pure ?_
    obtain rfl := hhint
    exact ⟨.lit (integerLiteral_prints _ _), rfl⟩
  | .float _ _, _, .float _ => .pure ⟨.lit fun _ _ => rfl, rfl⟩
  | .string _ _, _, .string _ hn => .pure ⟨.lit fun u hu => congrArg _ (hn.prints u hu), rfl⟩
  | .character _ _, _, .character _ => .pure ⟨.lit fun _ _ => rfl, rfl⟩
  | .boolean _ _, _, .boolean _ => .pure ⟨.bool _, rfl⟩
  | .absent _, _, .absent _ => .pure ⟨.null, rfl⟩
  | .member _ receiver n, _, .member _ hreceiver hn => by
    refine (he.deliver hreceiver.info .boxed (lowerNatural receiver hreceiver)).bind
      fun u target Target hu _ htarget => ?_
    refine .tells (hn.mono hu).getter fun v read hv _ hread => .pure ?_
    exact ⟨.callOn (Stays.mono htarget hv) hread .nil, rfl⟩
  | .call info o d es, _, .call hinfo ho hes => by
    refine (lowerArgs es hes (he.firstParams d)).bind fun u args Args hu _ hargs => ?_
    refine ((lowerReceiver o ho).later hu).bind fun v target Target hv _ htarget => ?_
    replace hu := hu.trans hv
    refine .tells ((he.mono hu).model.canUnbox (hinfo.ty.mono hu)) fun w raw hw _ hraw => .pure ?_
    have hname := ((he.mono (hu.trans hw)).model.decl d).name
    exact ⟨.call (Stays.mono htarget hw) .nil hname (Stays.mono hargs (hv.trans hw)), hraw⟩
  | .binary _ op lhs rhs, _, .binary _ hlhs hrhs => by
    refine .tells (he.operandForm op hlhs.ty) fun u form hu _ hform => ?_
    obtain rfl := hform
    replace he := he.mono hu
    refine (he.deliver (Stays.mono hlhs.info hu) _ ((lowerNatural lhs hlhs).later hu)).bind
      fun v left Left hv _ hleft => ?_
    replace he := he.mono hv
    replace hu := hu.trans hv
    refine (he.deliver (Stays.mono hrhs.info hu) _ ((lowerNatural rhs hrhs).later hu)).bind
      fun w right Right hw _ hright => ?_
    replace he := he.mono hw
    refine .tells (he.applyOperator op (hlhs.ty.mono (hu.trans hw)) (Stays.mono hleft hw) hright)
      fun _ e _ _ hcode => .pure ⟨hcode, rfl⟩
  | .not _ e, _, .not _ hoperand =>
    (he.deliver hoperand.info .raw (lowerNatural e hoperand)).bind
      fun _ _ _ _ _ hcode => .pure ⟨.not hcode, rfl⟩
  | .sequence info es, _, .sequence hinfo hes => by
    refine (lowerArgs es hes .nil).bind fun u elems Elems hu _ helems => ?_
    have htypes := Stays.mono (Each.exprTypes hes) hu
    refine ((he.mono hu).sequenceLiteral (hinfo.ty.mono hu) helems htypes).bind
      fun _ _ _ _ _ hcode => .pure ⟨hcode, rfl⟩
  | .functionRef info d, _, .functionRef hinfo => by
    refine Tracks.bind (R := PrintsExpr) ?_ fun _ _ _ _ _ hcode => .pure ⟨hcode, rfl⟩
    rw [hinfo.span]
    exact he.referenceTo d _

theorem lowerArgs : ∀ (es : List Tree.Expr) {Fs : List TreeLowering.Tree.Expr}
    {ps : List Parameter} {Ps : List TreeLowering.Parameter}, Each HasExpr t es Fs →
    Each HasParameter t ps Ps →
    Tracks E.model t (Env.lowerArgs env ps es) (Each PrintsExpr)
      (TreeLowering.Env.lowerArgs E Ps Fs)
  | [], _, _, _, .nil, _ => .pure .nil
  | e :: es, _, _, _, .cons h hes, hps => by
    refine Tracks.bind (R := PrintsExpr) ?_ fun u lowered Lowered hu _ hlowered => ?_
    · rw [argumentForm_eq hps]
      exact he.deliver h.info _ (lowerNatural e h)
    · refine ((lowerArgs es hes (Each.tail hps)).later hu).bind
        fun v rest Rest hv _ hrest => .pure ?_
      exact .cons (Stays.mono hlowered hv) hrest

theorem lowerReceiver : ∀ (o : Option Tree.Expr) {O : Option TreeLowering.Tree.Expr},
    Maybe HasExpr t o O →
    Tracks E.model t (Env.lowerReceiver env o) (Maybe PrintsExpr)
      (TreeLowering.Env.lowerReceiver E O)
  | none, _, .none => .pure .none
  | some e, _, .some h =>
    (he.deliver h.info .boxed (lowerNatural e h)).bind
      fun _ _ _ _ _ htarget => .pure (.some htarget)

end

/-- An expression in the form that its position asks for. -/
theorem lowerExpr {e : Tree.Expr} {F : TreeLowering.Tree.Expr} (h : t.HasExpr e F) (form : Form) :
    Tracks E.model t (env.lowerExpr e form) PrintsExpr (E.lowerExpr F form) :=
  he.deliver h.info form (he.lowerNatural e h)

end HasEnv

end Tables

end TreeLowering.Shared
