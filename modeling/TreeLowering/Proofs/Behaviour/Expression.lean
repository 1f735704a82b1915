import TreeLowering.Lowering.Expression
import TreeLowering.Proofs.Behaviour.Conversion
import TreeLowering.Proofs.Behaviour.Frame
import TreeLowering.Proofs.Behaviour.Regular
import TreeLowering.Proofs.Behaviour.Tree
import TreeLowering.Proofs.LanguageModule
set_option autoImplicit false

/-!
# Behaviour: expressions

A lowered expression does over the code's locals what the tree does over its
own, whenever a frame that fits the state holds them both.
-/

namespace TreeLowering.Behaviour

open Lowering (Yields)
open TreeLowering.Tree (Expr)

variable {machine : Machine} {env : Env} {s t s' : LowerState}

/-! ## Realized expressions -/

/-- The code, lowered from one state to another, does what the expression
does. -/
def Realizes (machine : Machine) (env : Env) (e : Expr) (code : Target.Expr)
    (s s' : LowerState) : Prop :=
  s.Follows s' ∧
    ∀ K, Fits s K → Does K.target (machine.evalCode code) (machine.evalTree env K.source e)

/-- The codes do what the expressions do, one after the other. -/
def RealizesAll (machine : Machine) (env : Env) (es : List Expr) (codes : List Target.Expr)
    (s s' : LowerState) : Prop :=
  s.Follows s' ∧ codes.length = es.length ∧
    ∀ K, Fits s K → Does K.target (machine.evalAll codes) (machine.evalTrees env K.source es)

/-- The code of a receiver does what the receiver does. -/
def RealizesReceiver (machine : Machine) (env : Env) (receiver : Option Expr)
    (code : Option Target.Expr) (s s' : LowerState) : Prop :=
  s.Follows s' ∧
    ∀ K, Fits s K →
      Does K.target (machine.evalTarget code) (machine.evalReceiver env K.source receiver)

/-- A natural form realizes the expression, and is not raw at the type of
everything. -/
def RealizesNatural (machine : Machine) (env : Env) (e : Expr) (n : Env.Natural)
    (s s' : LowerState) : Prop :=
  Realizes machine env e n.code s s' ∧ (n.raw = true → e.ty ≠ Language.voidTy)

theorem deliver_realizes {e : Expr} {form : Form} {code : Target.Expr}
    (hnatural : ∀ {n t}, Yields (env.lowerNatural e) s n t → RealizesNatural machine env e n s t)
    (h : Yields (env.deliver e.info form (env.lowerNatural e)) s code s') :
    Realizes machine env e code s s' := by
  obtain ⟨n, t, hn, hconvert⟩ := Lowering.yields_bind.mp h
  obtain ⟨⟨hfollows, hdoes⟩, hvoid⟩ := hnatural hn
  refine ⟨hfollows.trans (follows_convert hconvert), fun K hK => ?_⟩
  exact does_convert hconvert (fun hraw => hvoid (by simpa using hraw)) (hdoes K hK)

/-! ## Operators -/

theorem meaning_of_direct {op : Tree.Operator} {direct : Target.BinaryOp}
    (h : op.direct? = some direct) : meaning op = direct := by
  cases op <;> cases h <;> rfl

theorem send_equals (v w : Value) :
    machine.send v Support.equals [w] = combine .eq v w := by
  rfl

/-- Equality of lowered operands, raw or boxed. -/
theorem does_equal {ρ : Locals} {lhs rhs : Target.Expr} {a b : Act Value} (env : Env) (t : Ty)
    (hl : Does ρ (machine.evalCode lhs) a) (hr : Does ρ (machine.evalCode rhs) b) :
    Does ρ (machine.evalCode (if env.comparesRaw t then .binary .eq lhs rhs
      else lhs.callOn Support.equals [rhs])) (operate .eq a b) := by
  split
  · exact Machine.does_binary .eq hl hr
  · have hcall := Machine.does_callOn Support.equals hl (Machine.does_evalAll_single hr)
    simp only [bind_assoc, pure_bind, send_equals] at hcall
    exact hcall

theorem negate_equal (a b : Act Value) : negate (operate .eq a b) = operate .ne a b := by
  simp only [negate, operate, bind_assoc]
  rfl

theorem does_applyOperator {ρ : Locals} {lhs rhs : Target.Expr} {a b : Act Value}
    (op : Tree.Operator) (t : Ty) (hl : Does ρ (machine.evalCode lhs) a)
    (hr : Does ρ (machine.evalCode rhs) b) :
    Does ρ (machine.evalCode (env.applyOperator op t lhs rhs)) (operate (meaning op) a b) := by
  have hequal := does_equal env t hl hr
  unfold Env.applyOperator
  cases hdirect : op.direct? with
  | some direct =>
    rw [meaning_of_direct hdirect]
    exact Machine.does_binary direct hl hr
  | none =>
    cases op with
    | eq => exact hequal
    | ne =>
      show Does ρ (machine.evalCode (.not _)) (operate .ne a b)
      rw [← negate_equal]
      exact Machine.does_not hequal
    | add | sub | mul | lt | gt | and | or => contradiction

/-! ## Sequences -/

theorem does_makeEmpty {ρ : Locals} :
    Does ρ (machine.evalCode Env.makeEmpty) (pure (.seq [])) := by
  simp only [Env.makeEmpty, Target.Expr.static, Target.Expr.callStatic, Machine.evalCode,
    Machine.evalTarget, Machine.evalAll, pure_bind]
  exact .lift (machine.invoke (some .statics) Support.holderValue [])

theorem evalAll_sequenceArguments (codes : List Target.Expr) (types : List Ty) :
    machine.evalAll (Env.sequenceArguments codes types) = machine.evalAll codes := by
  unfold Env.sequenceArguments
  split
  · split <;> simp only [Machine.evalAll, Machine.evalCode]
  · rfl

theorem className?_applied (name : String) (args : List Target.Ty) :
    className? (.applied (.cls name) args) = some name := by
  cases args <;> rfl

theorem does_sequenceLiteral {ρ : Locals} {t : Ty} {codes : List Target.Expr} {types : List Ty}
    {code : Target.Expr} {as : Act (List Value)}
    (h : Yields (env.sequenceLiteral t codes types) s code s')
    (hempty : codes = [] → as = pure []) (hs : Does ρ (machine.evalAll codes) as) :
    Does ρ (machine.evalCode code) (.seq <$> as) := by
  unfold Env.sequenceLiteral at h
  split at h
  · rename_i hnil
    obtain ⟨rfl, _⟩ := Lowering.yields_pure.mp h
    rw [hempty (List.isEmpty_iff.mp hnil), map_pure]
    exact does_makeEmpty
  · obtain ⟨cls, hcls, hpure⟩ := TypeLowering.answer?_bind.mp (Lowering.Yields.answer h)
    obtain ⟨args, rfl⟩ := Env.lowerType_arraySequence hcls
    cases hpure
    have hcreated : ∀ vs, Machine.created
        (.applied (.cls (env.model.spelling Language.arraySequence .full)) args) false vs =
          pure (.seq vs) := by
      intro vs
      unfold Machine.created
      rw [if_neg Bool.false_ne_true, className?_applied, Model.spelling_language rfl rfl]
      exact if_pos rfl
    simp only [Machine.evalCode, evalAll_sequenceArguments, Option.isSome_none, hcreated]
    rw [map_eq_pure_bind]
    exact hs.bind (fun vs => .lift (pure (Value.seq vs)))

theorem follows_sequenceLiteral {t : Ty} {codes : List Target.Expr} {types : List Ty}
    {code : Target.Expr} (h : Yields (env.sequenceLiteral t codes types) s code s') :
    s.Follows s' := by
  unfold Env.sequenceLiteral at h
  split at h
  · obtain ⟨_, rfl⟩ := Lowering.yields_pure.mp h
    exact .refl _
  · exact .ofType h

/-! ## Function values -/

theorem follows_unpickArguments {arity : Nat} (params : List Parameter) :
    ∀ {position s es s'}, Yields (env.unpickArguments arity position params) s es s' →
      s.Follows s' := by
  induction params with
  | nil =>
    intro position s es s' h
    obtain ⟨_, rfl⟩ := Lowering.yields_pure.mp h
    exact .refl _
  | cons p ps ih =>
    intro position s es s' h
    obtain ⟨e, s₁, he, h⟩ := Lowering.yields_bind.mp h
    obtain ⟨rest, s₂, hrest, h⟩ := Lowering.yields_bind.mp h
    obtain ⟨_, rfl⟩ := Lowering.yields_pure.mp h
    obtain ⟨ty, s₃, hty, hconvert⟩ := Lowering.yields_bind.mp he
    exact ((LowerState.Follows.ofType hty).trans (follows_convert hconvert)).trans (ih hrest)

theorem follows_forwardBody {result : Ty} {call : Target.Expr} {body : List Target.Stmt}
    (h : Yields (env.forwardBody result call) s body s') : s.Follows s' := by
  unfold Env.forwardBody at h
  split at h
  · obtain ⟨_, rfl⟩ := Lowering.yields_pure.mp h
    exact .refl _
  · obtain ⟨value, s₁, hvalue, h⟩ := Lowering.yields_bind.mp h
    obtain ⟨_, rfl⟩ := Lowering.yields_pure.mp h
    exact follows_convert hvalue

theorem does_buildCallable {ρ : Locals} {t : Ty} {arity : Nat} {body : List Target.Stmt}
    {code : Target.Expr} (h : (env.buildCallable t arity body).answer? = some code) :
    Does ρ (machine.evalCode code) (pure (.function (env.model.display t))) := by
  obtain ⟨result, _, h⟩ := TypeLowering.answer?_bind.mp h
  obtain ⟨cls, _, h⟩ := TypeLowering.answer?_bind.mp h
  cases h
  simp only [Machine.evalCode, Machine.evalAll, pure_bind]
  exact .lift (Machine.created cls true [.text (env.model.display t)])

/-- A function used as a value yields its type, and anything else nothing. -/
theorem referenceTo_realizes {d : DeclId} {info : Tree.Info} {code : Target.Expr}
    (h : Yields (env.referenceTo d info.span) s code s') :
    Realizes machine env (.functionRef info d) code s s' := by
  unfold Env.referenceTo at h
  split at h
  · rename_i hmethod
    unfold Env.functionRef at h
    dsimp only at h
    cases hlists : (env.model.decl d).paramLists with
    | nil =>
      rw [hlists] at h
      exact (Lowering.not_yields_fail h).elim
    | cons first rest =>
      rw [hlists] at h
      obtain ⟨args, s₁, hargs, h⟩ := Lowering.yields_bind.mp h
      obtain ⟨body, s₂, hbody, hcode⟩ := Lowering.yields_bind.mp h
      refine ⟨((follows_unpickArguments first hargs).trans (follows_forwardBody hbody)).trans
        (.ofType hcode), fun K _ => ?_⟩
      simp only [Machine.evalTree, functionValue, hmethod, hlists, if_true]
      exact does_buildCallable hcode.answer
  · rename_i hmethod
    obtain ⟨_, s₁, hproblem, h⟩ := Lowering.yields_bind.mp h
    obtain ⟨rfl, rfl⟩ := Lowering.yields_pure.mp h
    have hstate := Lowering.yields_change.mp hproblem
    refine ⟨.of_eq (by rw [hstate]; rfl) (by rw [hstate]; rfl), fun K _ => ?_⟩
    simp only [Machine.evalTree, functionValue, hmethod]
    exact Machine.does_null

/-! ## All expressions -/

/-- A literal has one value, over any locals. -/
theorem literal_realizes {e : Expr} {l : Target.Literal} {v : Value}
    (hvalue : Machine.literal l = v)
    (htree : ∀ ρ, machine.evalTree env ρ e = pure v) :
    Realizes machine env e (.lit l) s s := by
  refine ⟨.refl s, fun K _ => ?_⟩
  rw [htree, ← hvalue]
  simp only [Machine.evalCode]
  exact .pure _

theorem literal_integer (t : Ty) (n : Int) :
    Machine.literal (Env.integerLiteral t n) = .int n := by
  unfold Env.integerLiteral
  split <;> rfl

mutual

theorem lowerNatural_realizes : ∀ (e : Expr), e.regular = true → ∀ {s s' n},
    Yields (env.lowerNatural e) s n s' → RealizesNatural machine env e n s s'
  | .ident info x, hregular, s, s', n, h => by
    unfold Env.lowerNatural at h
    obtain ⟨target, s₁, hresolve, h⟩ := Lowering.yields_bind.mp h
    obtain ⟨rfl, rfl⟩ := Lowering.yields_reads.mp hresolve
    obtain ⟨rfl, rfl⟩ := Lowering.yields_pure.mp h
    simp only [Expr.regular, Expr.isRegular, Bool.and_eq_true, decide_eq_true_eq,
      Bool.not_eq_true', Bool.and_eq_false_iff, decide_eq_false_iff_not] at hregular
    refine ⟨⟨.refl s', fun K hK => ?_⟩, fun hraw => ?_⟩
    · simp only [Machine.evalTree]
      rw [← hK.read hregular.1]
      exact Machine.does_ident _
    · exact hregular.2.resolve_left (fun hnot => Bool.noConfusion (hnot.symm.trans hraw))
  | .integer info value, hregular, s, s', n, h => by
    unfold Env.lowerNatural at h
    obtain ⟨rfl, rfl⟩ := Lowering.yields_pure.mp h
    exact ⟨literal_realizes (literal_integer _ _) (fun ρ => by simp only [Machine.evalTree]),
      fun _ => of_decide_eq_true hregular⟩
  | .float info bits, hregular, s, s', n, h => by
    unfold Env.lowerNatural at h
    obtain ⟨rfl, rfl⟩ := Lowering.yields_pure.mp h
    exact ⟨literal_realizes rfl (fun ρ => by rw [Machine.evalTree]; rfl),
      fun _ => of_decide_eq_true hregular⟩
  | .string info value, hregular, s, s', n, h => by
    unfold Env.lowerNatural at h
    obtain ⟨rfl, rfl⟩ := Lowering.yields_pure.mp h
    exact ⟨literal_realizes rfl (fun ρ => by rw [Machine.evalTree]; rfl),
      fun _ => of_decide_eq_true hregular⟩
  | .character info value, hregular, s, s', n, h => by
    unfold Env.lowerNatural at h
    obtain ⟨rfl, rfl⟩ := Lowering.yields_pure.mp h
    exact ⟨literal_realizes rfl (fun ρ => by rw [Machine.evalTree]; rfl),
      fun _ => of_decide_eq_true hregular⟩
  | .boolean info value, hregular, s, s', n, h => by
    unfold Env.lowerNatural at h
    obtain ⟨rfl, rfl⟩ := Lowering.yields_pure.mp h
    exact ⟨literal_realizes rfl (fun ρ => by rw [Machine.evalTree]; rfl),
      fun _ => of_decide_eq_true hregular⟩
  | .absent info, _, s, s', n, h => by
    unfold Env.lowerNatural at h
    obtain ⟨rfl, rfl⟩ := Lowering.yields_pure.mp h
    exact ⟨literal_realizes rfl (fun ρ => by rw [Machine.evalTree]; rfl),
      fun hraw => Bool.noConfusion hraw⟩
  | .member info receiver name, hregular, s, s', n, h => by
    unfold Env.lowerNatural at h
    obtain ⟨target, s₁, htarget, h⟩ := Lowering.yields_bind.mp h
    obtain ⟨rfl, rfl⟩ := Lowering.yields_pure.mp h
    simp only [Expr.regular] at hregular
    obtain ⟨hfollows, hdoes⟩ :=
      deliver_realizes (lowerNatural_realizes receiver hregular) htarget
    refine ⟨⟨hfollows, fun K hK => ?_⟩, fun hraw => Bool.noConfusion hraw⟩
    simp only [Machine.evalTree]
    exact Machine.does_get _ (hdoes K hK)
  | .call info receiver function args, hregular, s, s', n, h => by
    unfold Env.lowerNatural at h
    obtain ⟨codes, s₁, hargs, h⟩ := Lowering.yields_bind.mp h
    obtain ⟨target, s₂, htarget, h⟩ := Lowering.yields_bind.mp h
    obtain ⟨rfl, rfl⟩ := Lowering.yields_pure.mp h
    simp only [Expr.regular, Bool.and_eq_true] at hregular
    obtain ⟨hfollows, _, hall⟩ := lowerArgs_realizes args hregular.2 hargs
    obtain ⟨hfollows', hreceiver⟩ := lowerReceiver_realizes receiver hregular.1 htarget
    refine ⟨⟨hfollows.trans hfollows', fun K hK => ?_⟩, ?_⟩
    · simp only [Machine.evalTree, Machine.evalCode]
      refine (hreceiver K (hK.follows hfollows)).bind (fun v => ?_)
      exact (hall K hK).bind (fun vs => .lift (machine.invoke v _ vs))
    · intro hraw hvoid
      have hinfo : info.ty = Language.voidTy := hvoid
      rw [hinfo, Model.canUnbox_void] at hraw
      contradiction
  | .binary info op lhs rhs, hregular, s, s', n, h => by
    unfold Env.lowerNatural at h
    obtain ⟨left, s₁, hleft, h⟩ := Lowering.yields_bind.mp h
    obtain ⟨right, s₂, hright, h⟩ := Lowering.yields_bind.mp h
    obtain ⟨rfl, rfl⟩ := Lowering.yields_pure.mp h
    simp only [Expr.regular, Bool.and_eq_true] at hregular
    obtain ⟨⟨hself, hlhs⟩, hrhs⟩ := hregular
    obtain ⟨hfollows, hl⟩ := deliver_realizes (lowerNatural_realizes lhs hlhs) hleft
    obtain ⟨hfollows', hr⟩ := deliver_realizes (lowerNatural_realizes rhs hrhs) hright
    refine ⟨⟨hfollows.trans hfollows', fun K hK => ?_⟩, fun _ => of_decide_eq_true hself⟩
    simp only [Machine.evalTree]
    exact does_applyOperator op lhs.ty (hl K hK) (hr K (hK.follows hfollows))
  | .not info e, hregular, s, s', n, h => by
    unfold Env.lowerNatural at h
    obtain ⟨code, s₁, hcode, h⟩ := Lowering.yields_bind.mp h
    obtain ⟨rfl, rfl⟩ := Lowering.yields_pure.mp h
    simp only [Expr.regular, Bool.and_eq_true] at hregular
    obtain ⟨hfollows, hdoes⟩ := deliver_realizes (lowerNatural_realizes e hregular.2) hcode
    refine ⟨⟨hfollows, fun K hK => ?_⟩, fun _ => of_decide_eq_true hregular.1⟩
    simp only [Machine.evalTree]
    exact Machine.does_not (hdoes K hK)
  | .sequence info elems, hregular, s, s', n, h => by
    unfold Env.lowerNatural at h
    obtain ⟨codes, s₁, hcodes, h⟩ := Lowering.yields_bind.mp h
    obtain ⟨code, s₂, hcode, h⟩ := Lowering.yields_bind.mp h
    obtain ⟨rfl, rfl⟩ := Lowering.yields_pure.mp h
    simp only [Expr.regular] at hregular
    obtain ⟨hfollows, hlength, hall⟩ := lowerArgs_realizes elems hregular hcodes
    refine ⟨⟨hfollows.trans (follows_sequenceLiteral hcode), fun K hK => ?_⟩,
      fun hraw => Bool.noConfusion hraw⟩
    simp only [Machine.evalTree]
    refine does_sequenceLiteral hcode (fun hnil => ?_) (hall K hK)
    have helems : elems = [] := List.length_eq_zero_iff.mp (hlength ▸ hnil ▸ rfl)
    rw [helems]
    simp only [Machine.evalTrees]
  | .functionRef info function, _, s, s', n, h => by
    unfold Env.lowerNatural at h
    obtain ⟨code, s₁, hcode, h⟩ := Lowering.yields_bind.mp h
    obtain ⟨rfl, rfl⟩ := Lowering.yields_pure.mp h
    exact ⟨referenceTo_realizes hcode, fun hraw => Bool.noConfusion hraw⟩

theorem lowerArgs_realizes : ∀ (es : List Expr), Expr.regularAll es = true →
    ∀ {params s s' codes}, Yields (env.lowerArgs params es) s codes s' →
      RealizesAll machine env es codes s s'
  | [], _, params, s, s', codes, h => by
    unfold Env.lowerArgs at h
    obtain ⟨rfl, rfl⟩ := Lowering.yields_pure.mp h
    refine ⟨.refl s', rfl, fun K _ => ?_⟩
    simp only [Machine.evalAll, Machine.evalTrees]
    exact .pure []
  | e :: es, hregular, params, s, s', codes, h => by
    unfold Env.lowerArgs at h
    obtain ⟨code, s₁, hcode, h⟩ := Lowering.yields_bind.mp h
    obtain ⟨rest, s₂, hrest, h⟩ := Lowering.yields_bind.mp h
    obtain ⟨rfl, rfl⟩ := Lowering.yields_pure.mp h
    simp only [Expr.regularAll, Bool.and_eq_true] at hregular
    obtain ⟨hfollows, hdoes⟩ := deliver_realizes (lowerNatural_realizes e hregular.1) hcode
    obtain ⟨hfollows', hlength, hall⟩ := lowerArgs_realizes es hregular.2 hrest
    refine ⟨hfollows.trans hfollows', by simp [hlength], fun K hK => ?_⟩
    simp only [Machine.evalAll, Machine.evalTrees]
    refine (hdoes K hK).bind (fun v => ?_)
    exact (hall K (hK.follows hfollows)).bind (fun vs => .pure (v :: vs))

theorem lowerReceiver_realizes : ∀ (receiver : Option Expr),
    Expr.regularReceiver receiver = true → ∀ {s s' code},
      Yields (env.lowerReceiver receiver) s code s' →
        RealizesReceiver machine env receiver code s s'
  | none, _, s, s', code, h => by
    unfold Env.lowerReceiver at h
    obtain ⟨rfl, rfl⟩ := Lowering.yields_pure.mp h
    refine ⟨.refl s', fun K _ => ?_⟩
    simp only [Machine.evalTarget, Machine.evalReceiver]
    exact .pure none
  | some e, hregular, s, s', code, h => by
    unfold Env.lowerReceiver at h
    obtain ⟨target, s₁, htarget, h⟩ := Lowering.yields_bind.mp h
    obtain ⟨rfl, rfl⟩ := Lowering.yields_pure.mp h
    simp only [Expr.regularReceiver] at hregular
    obtain ⟨hfollows, hdoes⟩ := deliver_realizes (lowerNatural_realizes e hregular) htarget
    refine ⟨hfollows, fun K hK => ?_⟩
    simp only [Machine.evalTarget, Machine.evalReceiver, map_eq_pure_bind]
    exact (hdoes K hK).bind (fun v => .pure (some v))

end

/-- Whatever form its position asks for, a lowered expression does what the
expression does. -/
theorem lowerExpr_realizes (machine : Machine) {e : Expr} {form : Form} {code : Target.Expr}
    (hregular : e.regular = true) (h : Yields (env.lowerExpr e form) s code s') :
    Realizes machine env e code s s' :=
  deliver_realizes (lowerNatural_realizes e hregular) h

end TreeLowering.Behaviour
