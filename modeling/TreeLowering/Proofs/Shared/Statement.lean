import TreeLowering.Lowering.Statement
import TreeLowering.Proofs.Shared.Condition
set_option autoImplicit false

/-!
# Proofs: statements lowered over shared tables

Loops and statements over tables track those among types and texts.
-/

namespace TreeLowering

/-- A boxed value at the type of the variable that it is bound to. -/
def Env.seenAs (E : Env) (var : Tree.Variable) (value : Target.Expr) (t : Ty) :
    Lowering Target.Expr :=
  if var.ty = t then pure value
  else do
    let cls ← E.lowerType var.ty .boxed
    pure (.cast cls value)

theorem Env.bindElement_eq (E : Env) (var : Tree.Variable) (value : Target.Expr) (t : Ty) :
    E.bindElement var value t = (do
      let seen ← E.seenAs var value t
      let form ← E.valueForm var.ty
      let init ← E.convert seen true var.ty form
      let ty ← E.lowerType var.ty .plain
      pure (.declareFinal var.name ty init)) := by
  unfold bindElement seenAs
  split <;> simp only [bind_assoc, pure_bind]

namespace Shared

open Tables Tabled
open TreeLowering.Shared.Lowering (Tracks)
open Shared.Target (Expr Stmt)

namespace Tables

variable {t u : Tables} {i : TypeIdx} {τ : Ty} {n : Name} {x : String} {e : Tree.Expr}
  {F : TreeLowering.Tree.Expr} {v : Tree.Variable} {V : TreeLowering.Tree.Variable}
  {value : Expr} {Value : TreeLowering.Target.Expr} {guard : Option Name}
  {Guard : Option String} {ss : List Stmt} {Ss : List TreeLowering.Target.Stmt}

/-! ## Loops -/

/-- The loop without its body, in the tables. -/
structure HasLoopHead (t : Tables) (h : LoopHead) (H : TreeLowering.LoopHead) : Prop where
  iterator : t.HasName h.iterator H.iterator
  iteratorType : t.PrintsTy h.iteratorType H.iteratorType
  start : t.PrintsExpr h.start (H.subject.get Support.iterator)
  head : t.PrintsExpr h.head (headOf H.iterator)
  tail : t.PrintsExpr h.tail (.get (.ident H.iterator) Support.tail)
  bindings : Each PrintsStmt t h.bindings H.bindings

instance : Stays HasLoopHead where
  mono h hu :=
    { iterator := h.iterator.mono hu
      iteratorType := Stays.mono h.iteratorType hu
      start := Stays.mono h.start hu
      head := Stays.mono h.head hu
      tail := Stays.mono h.tail hu
      bindings := Stays.mono h.bindings hu }

theorem HasLoopHead.loop {h : LoopHead} {H : TreeLowering.LoopHead} (hh : t.HasLoopHead h H)
    (hss : Each PrintsStmt t ss Ss) : t.PrintsStmt (h.loop ss) (H.loop Ss) :=
  .forLoop (.cons (.mk false hh.iterator hh.iteratorType (.some hh.start)) .nil)
    (.binary _ hh.head .null) (.cons (.assign (.ident hh.iterator) hh.tail) .nil)
    (hh.bindings.append hss)

theorem prints_declareGuard (h : Maybe HasName t guard Guard) :
    Each PrintsStmt t (declareGuard guard) (TreeLowering.declareGuard Guard) := by
  cases h with
  | none => exact .nil
  | some hn => exact .cons (.declare (.mk false hn (.primitive _) (.some (.bool true)))) .nil

theorem prints_guardedElse (h : Maybe HasName t guard Guard) {no : Option (List Stmt)}
    {No : Option (List TreeLowering.Target.Stmt)} (hno : Maybe (Each PrintsStmt) t no No) :
    Each PrintsStmt t (guardedElse guard no) (TreeLowering.guardedElse Guard No) := by
  cases h with
  | none => exact .nil
  | some hn =>
    cases hno with
    | none => exact .nil
    | some hbody => exact .cons (.branch (.ident hn) hbody .none) .nil

theorem prints_breakClearing (h : Maybe HasName t guard Guard) :
    Each PrintsStmt t (breakClearing guard) (TreeLowering.breakClearing Guard) := by
  cases h with
  | none => exact .cons .leave .nil
  | some hn => exact .cons (.exec (.assign (.ident hn) (.bool false))) (.cons .leave .nil)

theorem tracks_loopGuard {M : TreeLowering.Model} (needed : Bool) :
    Tracks M t (loopGuard needed) (Maybe HasName) (TreeLowering.Env.loopGuard needed) := by
  cases needed with
  | false => exact .pure .none
  | true => exact (Tracks.fresh _).bind fun _ _ _ _ _ hn => .pure (.some hn)

theorem HasExpr.elementFound {M : TreeLowering.Model} (h : t.HasExpr e F) {found : Option TypeIdx}
    {Found : Option Ty} (hfound : Maybe HasTy t found Found) :
    Tracks M t (elementFound e found) HasTy (TreeLowering.Env.elementFound F Found) := by
  cases hfound with
  | some hi => exact .pure hi
  | none =>
    unfold Shared.elementFound TreeLowering.Env.elementFound
    dsimp only
    rw [h.info.span]
    exact (Tracks.problemAt _ (.notIterable h.ty)).bind
      fun _ _ _ _ hsound _ => .pure hsound.hasTy_error

theorem HasBinding.first {b : Tree.LoopBinding} {B : TreeLowering.Tree.LoopBinding}
    (h : t.HasBinding b B) : t.HasVariable b.first B.first := by
  cases h with
  | value hv => exact hv
  | keyItem hk _ => exact hk

namespace HasEnv

variable {env : Env} {E : TreeLowering.Env}
variable (he : t.HasEnv env E)
include he

theorem loopElement (h : t.HasExpr e F) :
    Tracks E.model t (env.loopElement e) HasTy (E.loopElement F) :=
  .tells (he.model.iteratedType? h.ty) fun _ _ hu _ hfound =>
    (Stays.mono (S := HasExpr) h hu).elementFound hfound

theorem seenAs (hv : t.HasVariable v V) (h : t.PrintsExpr value Value) (hi : t.HasTy i τ) :
    Tracks E.model t (env.seenAs v value i) PrintsExpr (E.seenAs V Value τ) := by
  refine .sound fun u hu hsound => ?_
  refine .ite_iff ((hv.ty.mono hu).eq_iff (hi.mono hu) hsound) (fun _ => ?_) fun _ => ?_
  · exact .pure (Stays.mono h hu)
  · refine ((he.mono hu).lowerType .boxed (hv.ty.mono hu)).bind fun w cls Cls hw _ hcls => .pure ?_
    exact .cast hcls (Stays.mono h (hu.trans hw))

theorem bindElement (hv : t.HasVariable v V) (h : t.PrintsExpr value Value) (hi : t.HasTy i τ) :
    Tracks E.model t (env.bindElement v value i) PrintsStmt (E.bindElement V Value τ) := by
  rw [E.bindElement_eq]
  refine (he.seenAs hv h hi).bind fun u seen Seen hu _ hseen => ?_
  refine ((he.mono hu).valueForm (hv.ty.mono hu)).bind fun w form Form hw _ hform => ?_
  obtain rfl : form = Form := hform
  replace hu := hu.trans hw
  refine ((he.mono hu).convert (Stays.mono hseen hw) true (hv.ty.mono hu) form).bind
    fun z init Init hz _ hinit => ?_
  replace hu := hu.trans hz
  refine ((he.mono hu).lowerType .plain (hv.ty.mono hu)).bind fun y ty Ty hy _ hty => .pure ?_
  exact .declareFinal (hv.name.mono (hu.trans hy)) hty (Stays.mono hinit hy)

theorem bindHead {head : Expr} {iterator : String} (hhead : t.PrintsExpr head (headOf iterator))
    (hi : t.HasTy i τ) {b : Tree.LoopBinding} {B : TreeLowering.Tree.LoopBinding}
    (hb : t.HasBinding b B) :
    Tracks E.model t (env.bindHead head i b) (Each PrintsStmt) (E.bindHead iterator τ B) := by
  cases hb with
  | value hv =>
    exact (he.bindElement hv hhead hi).bind fun _ _ _ _ _ hbinding => .pure (.cons hbinding .nil)
  | keyItem hk hv =>
    refine .tells (he.model.entryArguments hi) fun u types hu hsound htypes => ?_
    have hkey := htypes.head?.getD hsound.hasTy_error
    have hitem := htypes.tail.head?.getD hsound.hasTy_error
    rw [List.head?_tail, List.head?_tail] at hitem
    replace hhead : u.PrintsExpr head (headOf iterator) := Stays.mono hhead hu
    refine .tells (hhead.get _) fun w keyOf hw _ hkeyOf => ?_
    replace hu := hu.trans hw
    refine ((he.mono hu).bindElement (Stays.mono hk hu) hkeyOf (hkey.mono hw)).bind
      fun z keyBinding KeyBinding hz _ hkeyBinding => ?_
    refine .tells (PrintsExpr.get (Stays.mono hhead (hw.trans hz)) _)
      fun y itemOf hy _ hitemOf => ?_
    replace hu := hu.trans (hz.trans hy)
    refine ((he.mono hu).bindElement (Stays.mono hv hu) hitemOf
      (hitem.mono (hw.trans (hz.trans hy)))).bind
      fun y' itemBinding ItemBinding hy' _ hitemBinding => .pure ?_
    exact .cons (Stays.mono hkeyBinding (hy.trans hy')) (.cons hitemBinding .nil)

theorem loopHead {b : Tree.LoopBinding} {B : TreeLowering.Tree.LoopBinding}
    (hb : t.HasBinding b B) (h : t.HasExpr e F) :
    Tracks E.model t (env.loopHead b e) HasLoopHead (E.loopHead B F) := by
  refine (he.loopElement h).bind fun u element Element hu _ helement => ?_
  refine .tells (Tells.textOf (hb.first.name.mono hu)) fun u₁ base h₁ _ hbase => ?_
  obtain rfl : base = B.first.name := hbase
  refine (Tracks.fresh _).bind fun u₂ iterator Iterator h₂ _ hiterator => ?_
  refine .tells (helement.mono (h₁.trans h₂)).iteratorOf fun u₃ own h₃ _ hown => ?_
  have hgrown := ((hu.trans h₁).trans h₂).trans h₃
  refine ((he.mono hgrown).lowerType _ hown).bind fun u₄ ty Ty h₄ _ hty => ?_
  replace hgrown := hgrown.trans h₄
  refine ((he.mono hgrown).lowerExpr (Stays.mono h hgrown) .boxed).bind
    fun u₅ subject Subject h₅ _ hsubject => ?_
  refine .tells (PrintsExpr.get hsubject _) fun u₆ start h₆ _ hstart => ?_
  have hlate := ((h₃.trans h₄).trans h₅).trans h₆
  replace hiterator := hiterator.mono hlate
  replace helement := helement.mono ((h₁.trans h₂).trans hlate)
  refine .tells (PrintsExpr.get (.ident hiterator) _) fun u₇ head h₇ _ hhead => ?_
  refine .tells (PrintsExpr.get (.ident (hiterator.mono h₇)) _) fun u₈ tail h₈ _ htail => ?_
  replace hgrown := ((hgrown.trans h₅).trans h₆).trans (h₇.trans h₈)
  refine ((he.mono hgrown).bindHead (Stays.mono hhead h₈) (helement.mono (h₇.trans h₈))
    (Stays.mono hb hgrown)).bind fun u₉ bindings Bindings h₉ _ hbindings => .pure ?_
  have hlast := (h₇.trans h₈).trans h₉
  exact
    { iterator := hiterator.mono hlast
      iteratorType := Stays.mono hty ((h₅.trans h₆).trans hlast)
      start := Stays.mono hstart hlast
      head := Stays.mono hhead (h₈.trans h₉)
      tail := Stays.mono htail h₉
      bindings := hbindings }

/-! ## Statements -/

theorem lowerInit (form : Form) {o : Option Tree.Expr} {O : Option TreeLowering.Tree.Expr}
    (ho : Maybe HasExpr t o O) :
    Tracks E.model t (env.lowerInit form o) (Maybe PrintsExpr) (E.lowerInit form O) := by
  cases ho with
  | none => exact .pure .none
  | some h => exact (he.lowerExpr h form).map fun _ _ _ _ _ hvalue => .some hvalue

theorem declareLocal (hv : t.HasVariable v V) {o : Option Tree.Expr}
    {O : Option TreeLowering.Tree.Expr} (ho : Maybe HasExpr t o O) (isVariable : Bool) :
    Tracks E.model t (env.declareLocal v o isVariable) PrintsStmt
      (E.declareLocal V O isVariable) := by
  refine (he.valueForm hv.ty).bind fun u form Form hu _ hform => ?_
  obtain rfl : form = Form := hform
  refine ((he.mono hu).lowerType .plain (hv.ty.mono hu)).bind fun w ty Ty hw _ hty => ?_
  replace hu := hu.trans hw
  refine ((he.mono hu).lowerInit form (Stays.mono ho hu)).bind fun z value Value hz _ hvalue => ?_
  replace hu := hu.trans hz
  refine (Tracks.keepLocal (hv.name.mono hu) form).bind fun y _ _ hy _ _ => .pure ?_
  exact .declare (.mk _ (hv.name.mono (hu.trans hy)) (Stays.mono hty (hz.trans hy))
    (Stays.mono hvalue hy))

theorem targetForm (hn : t.HasName n x) (hi : t.HasTy i τ) :
    Tracks E.model t (env.targetForm n i) Same (E.targetForm x τ) := by
  refine (Tracks.localForm? hn).bind fun u form Form hu _ hform => ?_
  obtain rfl : form = Form := hform
  cases form with
  | some form => exact .pure rfl
  | none => exact (he.mono hu).valueForm (hi.mono hu)

theorem assignTo (hn : t.HasName n x) (h : t.HasExpr e F) :
    Tracks E.model t (env.assignTo n e) PrintsStmt (E.assignTo x F) := by
  refine (Tracks.resolve hn).bind fun u target Target hu _ htarget => ?_
  refine ((he.mono hu).targetForm htarget (h.ty.mono hu)).bind fun w form Form hw _ hform => ?_
  obtain rfl : form = Form := hform
  replace hu := hu.trans hw
  refine ((he.mono hu).lowerExpr (Stays.mono h hu) form).bind
    fun z value Value hz _ hvalue => .pure ?_
  exact .exec (.assign (.ident (htarget.mono (hw.trans hz))) hvalue)

theorem returnValue (returns : Option ReturnForm) {o : Option Tree.Expr}
    {O : Option TreeLowering.Tree.Expr} (ho : Maybe HasExpr t o O) :
    Tracks E.model t (env.returnValue returns o) (Maybe PrintsExpr) (E.returnValue returns O) := by
  cases ho with
  | some h =>
    cases returns with
    | none => exact (he.lowerExpr h .asIs).map fun _ _ _ _ _ hvalue => .some hvalue
    | some r => exact (he.lowerExpr h r.form).map fun _ _ _ _ _ hvalue => .some hvalue
  | none =>
    cases returns with
    | none => exact .pure .none
    | some r =>
      refine .pure ?_
      split
      · exact .some .null
      · exact .none

end HasEnv

namespace HasEnv

variable {env : Env} {E : TreeLowering.Env}

mutual

theorem lowerStmt (he : t.HasEnv env E) :
    ∀ (s : Tree.Stmt) {S : TreeLowering.Tree.Stmt}, t.HasStmt s S →
    Tracks E.model t (Env.lowerStmt env s) (Each PrintsStmt) (TreeLowering.Env.lowerStmt E S)
  | .declare span _ _ isVariable, _, .declare hv ho => by
    refine (Tracks.moveTo span).bind fun u _ _ hu _ _ => ?_
    exact ((he.mono hu).declareLocal (Stays.mono hv hu) (Stays.mono ho hu) isVariable).bind
      fun _ _ _ _ _ hs => .pure (.cons hs .nil)
  | .assign span _ _, _, .assign hn h => by
    refine (Tracks.moveTo span).bind fun u _ _ hu _ _ => ?_
    exact ((he.mono hu).assignTo (hn.mono hu) (Stays.mono h hu)).bind
      fun _ _ _ _ _ hs => .pure (.cons hs .nil)
  | .eval span _, _, .eval h => by
    refine (Tracks.moveTo span).bind fun u _ _ hu _ _ => ?_
    exact ((he.mono hu).lowerExpr (Stays.mono h hu) .asIs).bind
      fun _ _ _ _ _ hvalue => .pure (.cons (.exec hvalue) .nil)
  | .ret span _, _, .ret ho => by
    refine (Tracks.moveTo span).bind fun u _ _ hu _ _ => ?_
    refine (Tracks.reads (R := Same) fun _ _ _ hreads => hreads.returns).bind
      fun w returns Returns hw _ hreturns => ?_
    obtain rfl : returns = Returns := hreturns
    replace hu := hu.trans hw
    exact ((he.mono hu).returnValue returns (Stays.mono ho hu)).bind
      fun _ _ _ _ _ hvalue => .pure (.cons (.ret hvalue) .nil)
  | .leave span, _, .leave => by
    refine (Tracks.moveTo span).bind fun u _ _ _ _ _ => ?_
    exact (Tracks.reads fun _ _ _ hreads => hreads.loopGuard).bind
      fun _ _ _ _ _ hguard => .pure (prints_breakClearing hguard)
  | .branch span _ yes no, _, .branch hc hyes hno => by
    refine (Tracks.moveTo span).bind fun u _ _ hu _ _ => ?_
    refine ((he.mono hu).lowerCondition (Stays.mono hc hu)).bind fun w c C hw _ hlowered => ?_
    refine (HasNarrowed.guarded hlowered.narrowed
      ((lowerStmts he yes hyes).later (hu.trans hw))).bind fun z thenBody ThenBody hz _ hthen => ?_
    refine ((lowerElse he no hno).later ((hu.trans hw).trans hz)).bind
      fun y elseBody ElseBody hy _ helse => .pure ?_
    exact (Stays.mono hlowered (hz.trans hy)).branch (Stays.mono hthen hy) helse
  | .loop span _ body, _, .loop hc hbody => by
    refine (Tracks.moveTo span).bind fun u _ _ hu _ _ => ?_
    have hround : Tracks E.model u _ PrintsStmt _ :=
      ((he.mono hu).lowerCondition (Stays.mono hc hu)).bind fun w c C hw _ hlowered =>
        (HasNarrowed.guarded hlowered.narrowed ((lowerStmts he body hbody).later (hu.trans hw))).bind
          fun z lowered Lowered hz _ hbody =>
            .pure (HasLowered.loop (Stays.mono hlowered hz) hbody)
    exact (Tracks.withLoopGuard .none hround).bind fun _ _ _ _ _ hs => .pure (.cons hs .nil)
  | .each span _ _ body no, _, .each hb h hbody hno => by
    refine (Tracks.moveTo span).bind fun u _ _ hu _ _ => ?_
    rw [Maybe.isSome_eq (S := Each HasStmt) hno]
    refine (tracks_loopGuard _).bind fun w guard Guard hw _ hguard => ?_
    replace hu := hu.trans hw
    have hround : Tracks E.model w _ PrintsStmt _ :=
      ((he.mono hu).loopHead (Stays.mono hb hu) (Stays.mono h hu)).bind
        fun z head Head hz _ hhead => ((lowerStmts he body hbody).later (hu.trans hz)).bind
          fun y lowered Lowered hy _ hbody => .pure (HasLoopHead.loop (Stays.mono hhead hy) hbody)
    refine (Tracks.withLoopGuard hguard hround).bind fun z s S hz _ hs => ?_
    refine ((lowerElse he no hno).later (hu.trans hz)).bind
      fun y other Other hy _ hother => .pure ?_
    replace hguard := Stays.mono hguard (hz.trans hy)
    exact (prints_declareGuard hguard).append
      (.cons (Stays.mono hs hy) (prints_guardedElse hguard hother))
  | .block span body, _, .block hbody => by
    refine (Tracks.moveTo span).bind fun u _ _ hu _ _ => ?_
    exact ((lowerStmts he body hbody).later hu).bind
      fun _ _ _ _ _ hlowered => .pure (.cons (.block hlowered) .nil)

theorem lowerStmts (he : t.HasEnv env E) : ∀ (ss : List Tree.Stmt)
    {Ss : List TreeLowering.Tree.Stmt}, Each HasStmt t ss Ss →
    Tracks E.model t (Env.lowerStmts env ss) (Each PrintsStmt) (TreeLowering.Env.lowerStmts E Ss)
  | [], _, .nil => .pure .nil
  | s :: ss, _, .cons hs hss =>
    (lowerStmt he s hs).bind fun _ _ _ hu _ hlowered =>
      ((lowerStmts he ss hss).later hu).bind fun _ _ _ hv _ hrest =>
        .pure ((Stays.mono hlowered hv).append hrest)

theorem lowerElse (he : t.HasEnv env E) : ∀ (o : Option (List Tree.Stmt))
    {O : Option (List TreeLowering.Tree.Stmt)}, Maybe (Each HasStmt) t o O →
    Tracks E.model t (Env.lowerElse env o) (Maybe (Each PrintsStmt))
      (TreeLowering.Env.lowerElse E O)
  | none, _, .none => .pure .none
  | some body, _, .some hbody =>
    (lowerStmts he body hbody).bind fun _ _ _ _ _ hlowered => .pure (.some hlowered)

end

end HasEnv

end Tables

end Shared

end TreeLowering
