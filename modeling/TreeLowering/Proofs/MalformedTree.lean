import TreeLowering.Proofs.TypeTermination
import TreeLowering.Proofs.Yield
import TreeLowering.Lowering.Method
set_option autoImplicit false

/-!
# Proofs: malformed trees

A tree is malformed where it refers to a method without parameter lists, or
tests the type of a subject without binding it to a name.  Lowering visits every
part of a tree, so it fails on each malformed tree; and no other part of it
fails, as long as the types that it lowers on the way come to an end.
-/

namespace TreeLowering

/-! ## What a tree contains -/

namespace Model

/-- A method that no parameter list was given for. -/
def Listless (m : Model) (d : DeclId) : Prop :=
  (m.decl d).isMethod = true ∧ (m.decl d).paramLists = []

instance (m : Model) (d : DeclId) : Decidable (m.Listless d) :=
  inferInstanceAs (Decidable (_ ∧ _))

end Model

namespace Tree

mutual

/-- At some depth the expression uses a function in question as a value. -/
def Expr.Refers (ref : DeclId → Prop) : Expr → Prop
  | .ident _ _ | .integer _ _ | .float _ _ | .string _ _ | .character _ _ | .boolean _ _
  | .absent _ => False
  | .member _ receiver _ => receiver.Refers ref
  | .call _ receiver _ args => RefersAny ref args ∨ RefersIfAny ref receiver
  | .binary _ _ lhs rhs => lhs.Refers ref ∨ rhs.Refers ref
  | .not _ operand => operand.Refers ref
  | .sequence _ elems => RefersAny ref elems
  | .functionRef _ function => ref function

/-- One of the expressions does. -/
def Expr.RefersAny (ref : DeclId → Prop) : List Expr → Prop
  | [] => False
  | e :: es => e.Refers ref ∨ RefersAny ref es

/-- The expression does, if there is one. -/
def Expr.RefersIfAny (ref : DeclId → Prop) : Option Expr → Prop
  | none => False
  | some e => e.Refers ref

end

namespace Condition

/-- The expression that is tested. -/
def subject : Condition → Expr
  | test e | present e | presentAs _ e | isOf _ _ e | nonempty _ e => e

/-- The name that a narrowing condition binds its subject to. -/
def bound? : Condition → Option String
  | test _ | present _ => none
  | presentAs var _ | nonempty var _ => some var.name
  | isOf name _ _ => some name

/-- A narrowing condition that binds its subject to no name. -/
def Unnamed (c : Condition) : Prop := c.bound? = some ""

/-- A test of the subject's type. -/
def IsTypeTest : Condition → Prop
  | isOf _ _ _ => True
  | _ => False

/-- A type test that binds its subject to no name. -/
def UnnamedTest (c : Condition) : Prop := c.IsTypeTest ∧ c.Unnamed

/-- Another narrowing condition that binds its subject to no name. -/
def UnnamedPresence (c : Condition) : Prop := ¬ c.IsTypeTest ∧ c.Unnamed

theorem unnamedTest_iff {c : Condition} : c.UnnamedTest ↔ ∃ t e, c = isOf "" t e := by
  constructor
  · rintro ⟨htest, hname⟩
    cases c with
    | isOf name t e =>
      obtain rfl : name = "" := Option.some.inj hname
      exact ⟨t, e, rfl⟩
    | test _ | present _ | presentAs _ _ | nonempty _ _ => exact htest.elim
  · rintro ⟨t, e, rfl⟩
    exact ⟨trivial, rfl⟩

end Condition

mutual

/-- At some depth the statement uses a function in question as a value, or tests
a condition in question. -/
def Stmt.Contains (ref : DeclId → Prop) (cond : Condition → Prop) : Stmt → Prop
  | .declare _ _ init _ => Expr.RefersIfAny ref init
  | .assign _ _ value => value.Refers ref
  | .eval _ e => e.Refers ref
  | .ret _ value => Expr.RefersIfAny ref value
  | .leave _ => False
  | .branch _ test yes no =>
    (cond test ∨ test.subject.Refers ref) ∨ ContainsAny ref cond yes ∨ ContainsIfAny ref cond no
  | .loop _ test body => (cond test ∨ test.subject.Refers ref) ∨ ContainsAny ref cond body
  | .each _ _ subject body no =>
    subject.Refers ref ∨ ContainsAny ref cond body ∨ ContainsIfAny ref cond no
  | .block _ body => ContainsAny ref cond body

/-- One of the statements does. -/
def Stmt.ContainsAny (ref : DeclId → Prop) (cond : Condition → Prop) : List Stmt → Prop
  | [] => False
  | s :: ss => s.Contains ref cond ∨ ContainsAny ref cond ss

/-- One of the statements does, if there are any. -/
def Stmt.ContainsIfAny (ref : DeclId → Prop) (cond : Condition → Prop) :
    Option (List Stmt) → Prop
  | none => False
  | some body => ContainsAny ref cond body

end

section Either

variable {ref ref' : DeclId → Prop} {cond cond' : Condition → Prop}

mutual

theorem Expr.refers_or : ∀ e : Expr,
    e.Refers (fun d => ref d ∨ ref' d) ↔ e.Refers ref ∨ e.Refers ref'
  | .ident _ _ | .integer _ _ | .float _ _ | .string _ _ | .character _ _ | .boolean _ _
  | .absent _ => by simp only [Refers, or_self]
  | .member _ receiver _ => by
    simp only [Refers]
    exact refers_or receiver
  | .call _ receiver _ args => by
    simp only [Refers, refersAny_or args, refersIfAny_or receiver]
    exact or_or_or_comm
  | .binary _ _ lhs rhs => by
    simp only [Refers, refers_or lhs, refers_or rhs]
    exact or_or_or_comm
  | .not _ operand => by
    simp only [Refers]
    exact refers_or operand
  | .sequence _ elems => by
    simp only [Refers]
    exact refersAny_or elems
  | .functionRef _ _ => by simp only [Refers]

theorem Expr.refersAny_or : ∀ es : List Expr,
    RefersAny (fun d => ref d ∨ ref' d) es ↔ RefersAny ref es ∨ RefersAny ref' es
  | [] => by simp only [RefersAny, or_self]
  | e :: es => by
    simp only [RefersAny, refers_or e, refersAny_or es]
    exact or_or_or_comm

theorem Expr.refersIfAny_or : ∀ e : Option Expr,
    RefersIfAny (fun d => ref d ∨ ref' d) e ↔ RefersIfAny ref e ∨ RefersIfAny ref' e
  | none => by simp only [RefersIfAny, or_self]
  | some e => by
    simp only [RefersIfAny]
    exact refers_or e

end

theorem Condition.either_or (c : Condition) :
    ((cond c ∨ cond' c) ∨ c.subject.Refers (fun d => ref d ∨ ref' d)) ↔
      (cond c ∨ c.subject.Refers ref) ∨ cond' c ∨ c.subject.Refers ref' := by
  rw [Expr.refers_or]
  exact or_or_or_comm

mutual

theorem Stmt.contains_or : ∀ s : Stmt,
    s.Contains (fun d => ref d ∨ ref' d) (fun c => cond c ∨ cond' c) ↔
      s.Contains ref cond ∨ s.Contains ref' cond'
  | .declare _ _ init _ => by
    simp only [Contains]
    exact Expr.refersIfAny_or init
  | .assign _ _ value => by
    simp only [Contains]
    exact value.refers_or
  | .eval _ e => by
    simp only [Contains]
    exact e.refers_or
  | .ret _ value => by
    simp only [Contains]
    exact Expr.refersIfAny_or value
  | .leave _ => by simp only [Contains, or_self]
  | .branch _ test yes no => by
    simp only [Contains, test.either_or, containsAny_or yes, containsIfAny_or no]
    grind
  | .loop _ test body => by
    simp only [Contains, test.either_or, containsAny_or body]
    exact or_or_or_comm
  | .each _ _ subject body no => by
    simp only [Contains, subject.refers_or, containsAny_or body, containsIfAny_or no]
    grind
  | .block _ body => by
    simp only [Contains]
    exact containsAny_or body

theorem Stmt.containsAny_or : ∀ body : List Stmt,
    ContainsAny (fun d => ref d ∨ ref' d) (fun c => cond c ∨ cond' c) body ↔
      ContainsAny ref cond body ∨ ContainsAny ref' cond' body
  | [] => by simp only [ContainsAny, or_self]
  | s :: ss => by
    simp only [ContainsAny, contains_or s, containsAny_or ss]
    exact or_or_or_comm

theorem Stmt.containsIfAny_or : ∀ body : Option (List Stmt),
    ContainsIfAny (fun d => ref d ∨ ref' d) (fun c => cond c ∨ cond' c) body ↔
      ContainsIfAny ref cond body ∨ ContainsIfAny ref' cond' body
  | none => by simp only [ContainsIfAny, or_self]
  | some body => by
    simp only [ContainsIfAny]
    exact containsAny_or body

end

end Either

/-- The function has no parameter lists, or its body is malformed: it uses a
method without parameter lists as a value, or has a condition in question. -/
def Function.Malformed (m : Model) (cond : Condition → Prop) (f : Function) : Prop :=
  (m.decl f.decl).paramLists = [] ∨ Stmt.ContainsAny m.Listless cond f.body

end Tree

/-! ## Types that a lowering comes to -/

mutual

/-- The types that a value is tested against one by one. -/
def Ty.leaves : Ty → List Ty
  | .union ts | .inter ts => Ty.leavesAll ts
  | .bottom => []
  | .nominal d as o h => [.nominal d as o h]
  | .param p => [.param p]
  | .error => [.error]

/-- Those of several types. -/
def Ty.leavesAll : List Ty → List Ty
  | [] => []
  | t :: ts => t.leaves ++ Ty.leavesAll ts

end

namespace Env

variable (env : Env)

/-- Types lowered where a value of the type is brought into another form. -/
def conversionTypes (t : Ty) : List Ty := [env.arrayElement t, Language.stringTy]

/-- Types lowered where a value of the type is bound. -/
def bindingTypes (t : Ty) : List Ty := t :: env.conversionTypes t

/-- Types lowered for parameters. -/
def parameterTypes (ps : List Parameter) : List Ty := ps.flatMap fun p => env.bindingTypes p.ty

/-- Types lowered for a function value. -/
def callableTypes (t : Ty) : List Ty := [(env.model.callableResult? t).getD .error, t]

/-- Types lowered for a function used as a value. -/
def referenceTypes (d : DeclId) : List Ty :=
  let x := env.model.decl d
  let first := x.paramLists.headD []
  let result := (x.ty.getD .error).curried x.paramLists.tail
  env.parameterTypes first ++ (env.conversionTypes result ++
    env.callableTypes (.callable result (Parameter.types first)))

mutual

/-- Types lowered for an expression. -/
def exprTypes : Tree.Expr → List Ty
  | .ident info _ | .integer info _ | .float info _ | .string info _ | .character info _
  | .boolean info _ | .absent info => env.conversionTypes info.ty
  | .member info receiver _ => env.conversionTypes info.ty ++ exprTypes receiver
  | .call info receiver _ args =>
    env.conversionTypes info.ty ++ (argTypes args ++ optionTypes receiver)
  | .binary info _ lhs rhs => env.conversionTypes info.ty ++ (exprTypes lhs ++ exprTypes rhs)
  | .not info operand => env.conversionTypes info.ty ++ exprTypes operand
  | .sequence info elems =>
    env.conversionTypes info.ty ++ (argTypes elems ++
      [.of Language.arraySequence [(env.model.iteratedType? info.ty).getD .error]])
  | .functionRef info function => env.conversionTypes info.ty ++ env.referenceTypes function

/-- Types lowered for arguments. -/
def argTypes : List Tree.Expr → List Ty
  | [] => []
  | e :: es => exprTypes e ++ argTypes es

/-- Types lowered for an expression, if there is one. -/
def optionTypes : Option Tree.Expr → List Ty
  | none => []
  | some e => exprTypes e

end

/-- Types lowered for a narrowing condition: for its subject, its test and the
narrowed binding. -/
def narrowingTypes (subject : Tree.Expr) (tested : List Ty) (t : Ty) : List Ty :=
  subject.ty :: (env.exprTypes subject ++ (tested ++ env.bindingTypes t))

/-- Types lowered for a condition. -/
def conditionTypes : Tree.Condition → List Ty
  | .test e | .present e => env.exprTypes e
  | .presentAs var e => env.narrowingTypes e [] var.ty
  | .isOf _ t e => env.narrowingTypes e t.leaves t
  | .nonempty var e =>
    env.narrowingTypes e [env.model.declaredType Language.fixedSized] var.ty

/-- Types lowered for a loop without its body. -/
def headTypes (binding : Tree.LoopBinding) (subject : Tree.Expr) : List Ty :=
  .iteratorOf ((env.model.iteratedType? subject.ty).getD .error) ::
    (env.exprTypes subject ++
      match binding with
      | .value var => env.bindingTypes var.ty
      | .keyItem key item => env.bindingTypes key.ty ++ env.bindingTypes item.ty)

mutual

/-- Types lowered for a statement. -/
def stmtTypes : Tree.Stmt → List Ty
  | .declare _ var init _ => var.ty :: env.optionTypes init
  | .assign _ _ value => value.ty :: env.exprTypes value
  | .eval _ e => env.exprTypes e
  | .ret _ value => env.optionTypes value
  | .leave _ => []
  | .branch _ test yes no => env.conditionTypes test ++ (stmtsTypes yes ++ elseTypes no)
  | .loop _ test body => env.conditionTypes test ++ stmtsTypes body
  | .each _ binding subject body no =>
    env.headTypes binding subject ++ (stmtsTypes body ++ elseTypes no)
  | .block _ body => stmtsTypes body

/-- Types lowered for statements. -/
def stmtsTypes : List Tree.Stmt → List Ty
  | [] => []
  | s :: ss => stmtTypes s ++ stmtsTypes ss

/-- Types lowered for another branch, if there is one. -/
def elseTypes : Option (List Tree.Stmt) → List Ty
  | none => []
  | some body => stmtsTypes body

end

/-- Types lowered for the function values of a function's further lists. -/
def layerTypes (result : Ty) : List (List Parameter) → List Ty
  | [] => []
  | list :: rest =>
    layerTypes result rest ++ (env.parameterTypes list ++
      env.callableTypes (.callable (result.curried rest) (Parameter.types list)))

/-- Types lowered for a function. -/
def functionTypes (f : Tree.Function) (result : Ty) : List Ty :=
  let x := env.model.decl f.decl
  let lists := x.paramLists.tail
  x.typeParams.flatMap env.model.emittedBounds ++ (Parameter.types (x.paramLists.headD []) ++
    (env.stmtsTypes f.body ++ (env.layerTypes result lists ++ [result, result.curried lists])))

/-- In every position the lowering of the type comes to an end. -/
def Lowers (t : Ty) : Prop := ∀ ctx, (env.lowerType? t ctx).answers = true

end Env

/-- A type that is written without arguments, whatever the position. -/
def Ty.Argless (t : Ty) : Prop :=
  t.collapse = t ∧ t.isParam = false ∧ t.simplify.isComposite = false ∧
    ∀ s ∈ t.simplify.segments, s.args = []

instance (t : Ty) : Decidable t.Argless := inferInstanceAs (Decidable (_ ∧ _ ∧ _ ∧ _))

namespace Env

theorem lowers_of_argless (env : Env) {t : Ty} (h : t.Argless) : env.Lowers t := by
  obtain ⟨hsole, hparam, hcomposite, hargs⟩ := h
  intro ctx
  obtain ⟨asked, hasks, hviews⟩ :=
    TypeLowering.step_asks env.model (TypeLowering.adjust env.config ctx) t
  have hresolved : TypeLowering.resolveBound env.model (TypeLowering.adjust env.config ctx)
      t.collapse = t := by
    rw [hsole]
    unfold TypeLowering.resolveBound
    cases t with
    | param p => cases hparam
    | nominal _ _ _ _ | union _ | inter _ | bottom | error => exact ite_self _
  refine (hasks.answers _).mpr fun u hu => ?_
  obtain ⟨shown, hshown, s, hs, a, ha, _⟩ := hviews u hu
  rw [hresolved] at hshown
  obtain ⟨rfl, _⟩ | ⟨hshape, _⟩ := hshown
  · rw [hargs s hs] at ha
    contradiction
  · rw [hcomposite] at hshape
    contradiction

end Env

/-! ## Lowerings of types that come to an end -/

namespace TypeLowering

variable {α β : Type} {env : Env} {asked more : List Ty}

/-- The computation has an answer as long as the types it asks for are
lowered. -/
def Needs (env : Env) (x : TypeLowering α) (asked : List Ty) : Prop :=
  (∀ t ∈ asked, env.Lowers t) → x.answers = true

namespace Needs

theorem pure (a : α) : Needs env (Pure.pure a) [] := fun _ => rfl

theorem bind {x : TypeLowering α} {f : α → TypeLowering β} (hx : Needs env x asked)
    (hf : ∀ a, Needs env (f a) more) : Needs env (x >>= f) (asked ++ more) := by
  intro hlowers
  have hanswers := hx fun t ht => hlowers t (List.mem_append_left _ ht)
  obtain ⟨a, ha⟩ := Option.isSome_iff_exists.mp hanswers
  refine (answers_bind x f).mpr ⟨a, ha, ?_⟩
  exact hf a fun t ht => hlowers t (List.mem_append_right _ ht)

theorem mono {x : TypeLowering α} (hx : Needs env x asked) (h : ∀ t ∈ asked, t ∈ more) :
    Needs env x more :=
  fun hlowers => hx fun t ht => hlowers t (h t ht)

theorem of_pure (a : α) : Needs env (Pure.pure a) asked := fun _ => rfl

theorem lowerType (t : Ty) (ctx : Context) : Needs env (env.lowerType t ctx) [t] := by
  intro hlowers
  rw [Env.lowerType, answers_orObject]
  exact hlowers t List.mem_cons_self ctx

end Needs

end TypeLowering

namespace Env

open TypeLowering

variable (env : Env)

theorem valueForm_needs (t : Ty) : Needs env (env.valueForm t) [t] :=
  ((Needs.lowerType t .plain).bind fun _ => (Needs.lowerType t .boxed).bind fun _ =>
    Needs.pure _).mono (by simp)

theorem boxInto_needs (d : DeclId) (typeArgs : List Target.Ty) (e : Target.Expr) :
    Needs env (env.boxInto d typeArgs e) [] := fun _ => rfl

theorem boxValue_needs (e : Target.Expr) (t : Ty) :
    Needs env (env.boxValue e t) (env.conversionTypes t) := by
  unfold boxValue
  split
  · exact (env.boxInto_needs _ _ _).mono (by simp)
  · split
    · exact ((Needs.lowerType _ _).bind fun _ => env.boxInto_needs _ _ _).mono
        (by simp [conversionTypes])
    · split
      · exact Needs.of_pure _
      · exact Needs.of_pure _

theorem makeSequence_needs (elems : List Target.Expr) (types : List Ty) (element : Ty)
    (ctx : Context) :
    Needs env (env.makeSequence elems types element ctx) [.of Language.arraySequence [element]] :=
  ((Needs.lowerType _ ctx).bind fun _ => Needs.pure _).mono (by simp)

theorem buildCallable_needs (t : Ty) (arity : Nat) (body : List Target.Stmt) :
    Needs env (env.buildCallable t arity body) (env.callableTypes t) :=
  ((Needs.lowerType _ _).bind fun _ => (Needs.lowerType t _).bind fun _ => Needs.pure _).mono
    (by simp [callableTypes])

theorem nonemptyTest_needs (raw : String) :
    Needs env (env.nonemptyTest raw) [env.model.declaredType Language.fixedSized] :=
  ((Needs.lowerType _ _).bind fun _ => Needs.pure _).mono (by simp)

theorem methodParams_needs (ps : List Parameter) :
    Needs env (env.methodParams ps) (Parameter.types ps) := by
  induction ps with
  | nil => exact Needs.pure _
  | cons p ps ih =>
    exact ((Needs.lowerType p.ty _).bind fun _ => ih.bind fun _ => Needs.pure _).mono
      (by simp [Parameter.types])

theorem lowerTypes_needs (ctx : Context) (ts : List Ty) : Needs env (env.lowerTypes ctx ts) ts := by
  induction ts with
  | nil => exact Needs.pure _
  | cons t ts ih =>
    exact ((Needs.lowerType t ctx).bind fun _ => ih.bind fun _ => Needs.pure _).mono (by simp)

theorem lowerTypeParams_needs (ps : List ParamId) :
    Needs env (env.lowerTypeParams ps) (ps.flatMap env.model.emittedBounds) := by
  induction ps with
  | nil => exact Needs.pure _
  | cons p ps ih =>
    have hparam : Needs env (env.lowerTypeParam p) (env.model.emittedBounds p) :=
      ((env.lowerTypes_needs _ _).bind fun _ => Needs.pure _).mono (by simp)
    exact (hparam.bind fun _ => ih.bind fun _ => Needs.pure _).mono (by simp)

theorem methodResult_needs (result : Ty) : Needs env (env.methodResult result) [result] := by
  unfold methodResult
  split
  · exact Needs.of_pure _
  · exact Needs.lowerType _ _

end Env

/-! ## Lowerings that fail on a defect alone -/

namespace Lowering

open TypeLowering (Needs)

variable {α β : Type} {env : Env} {asked more : List Ty} {defect defect' : Prop}

theorem error_bind {x : Lowering α} {f : α → Lowering β} {s : LowerState} {e : LowerError} :
    ((x >>= f).runFrom s).1 = .error e ↔
      (x.runFrom s).1 = .error e ∨
        ∃ a t, x.runFrom s = (.ok a, t) ∧ ((f a).runFrom t).1 = .error e := by
  rw [runFrom_bind]
  rcases x.runFrom s with ⟨e' | a, t⟩
  · simp
  · simp

/-- The computation fails on the defect, from every state, and on nothing else
as long as the types it asks for are lowered. -/
structure Fails (env : Env) (x : Lowering α) (defect : Prop) (asked : List Ty) : Prop where
  must : defect → ∀ s, ∃ e, (x.runFrom s).1 = .error e
  only : ∀ s e, (x.runFrom s).1 = .error e → e ≠ .endlessType → defect
  ends : (∀ t ∈ asked, env.Lowers t) → ∀ s, (x.runFrom s).1 ≠ .error .endlessType

namespace Fails

theorem mono {x : Lowering α} (h : Fails env x defect asked) (hdefect : defect' ↔ defect)
    (hasked : ∀ t ∈ asked, t ∈ more) : Fails env x defect' more where
  must hd := h.must (hdefect.mp hd)
  only s e hrun he := hdefect.mpr (h.only s e hrun he)
  ends hlowers := h.ends fun t ht => hlowers t (hasked t ht)

/-- Without the defect, and as long as the types it asks for are lowered, the
computation has a result. -/
theorem exists_yields {x : Lowering α} (h : Fails env x defect asked) (hnone : ¬ defect)
    (hlowers : ∀ t ∈ asked, env.Lowers t) (s : LowerState) : ∃ a s', Yields x s a s' := by
  unfold Yields
  cases hrun : x.runFrom s with
  | mk outcome s' =>
    cases outcome with
    | ok a => exact ⟨a, s', rfl⟩
    | error e =>
      by_cases hendless : e = .endlessType
      · exact absurd (hendless ▸ congrArg Prod.fst hrun) (h.ends hlowers s)
      · exact absurd (h.only s e (congrArg Prod.fst hrun) hendless) hnone

/-- A computation that always has a result fails on nothing. -/
theorem never {x : Lowering α} (h : ∀ s, ∃ a, (x.runFrom s).1 = .ok a) :
    Fails env x False [] where
  must := False.elim
  only s _ hrun _ := by
    obtain ⟨a, ha⟩ := h s
    rw [ha] at hrun
    cases hrun
  ends _ s hrun := by
    obtain ⟨a, ha⟩ := h s
    rw [ha] at hrun
    cases hrun

theorem pure (a : α) : Fails env (Pure.pure a) False [] := never fun _ => ⟨a, rfl⟩

theorem of_pure (a : α) : Fails env (Pure.pure a) False asked := (pure a).mono .rfl (by simp)

theorem reads (f : LowerState → α) : Fails env (Lowering.reads f) False [] :=
  never fun s => ⟨f s, rfl⟩

theorem change (f : LowerState → LowerState) : Fails env (Lowering.change f) False [] :=
  never fun _ => ⟨(), rfl⟩

theorem fresh (base : String) : Fails env (Lowering.fresh base) False [] :=
  never fun s => ⟨(s.names.fresh base).1, rfl⟩

theorem fail {e : LowerError} (he : e ≠ .endlessType) :
    Fails env (Lowering.fail e : Lowering α) True [] where
  must _ _ := ⟨e, rfl⟩
  only _ _ _ _ := trivial
  ends _ _ hrun := he (Except.error.inj hrun)

theorem ofType {x : TypeLowering α} (h : Needs env x asked) :
    Fails env (liftM x : Lowering α) False asked where
  must := False.elim
  only _ _ hrun he := by
    cases x with
    | none => exact absurd (Except.error.inj hrun).symm he
    | some p => cases hrun
  ends hlowers _ hrun := by
    have hanswers := h hlowers
    cases x with
    | none => cases hanswers
    | some p => cases hrun

/-- Of two computations, one after the other, each fails on its own defect,
whatever the first one yields. -/
theorem bind_of_yields {x : Lowering α} {f : α → Lowering β} (hx : Fails env x defect asked)
    (hf : ∀ s a t, Yields x s a t → Fails env (f a) defect' more) :
    Fails env (x >>= f) (defect ∨ defect') (asked ++ more) where
  must hd s := by
    rcases hrun : x.runFrom s with ⟨_ | a, t⟩
    · exact ⟨_, error_bind.mpr (.inl (congrArg Prod.fst hrun))⟩
    · obtain hd | hd := hd
      · obtain ⟨e, he⟩ := hx.must hd s
        exact ⟨e, error_bind.mpr (.inl he)⟩
      · obtain ⟨e, he⟩ := (hf s a t hrun).must hd t
        exact ⟨e, error_bind.mpr (.inr ⟨a, t, hrun, he⟩)⟩
  only s e hfail he := by
    obtain hfail | ⟨a, t, hrun, hfail⟩ := error_bind.mp hfail
    · exact .inl (hx.only s e hfail he)
    · exact .inr ((hf s a t hrun).only t e hfail he)
  ends hlowers s hfail := by
    obtain hfail | ⟨a, t, hrun, hfail⟩ := error_bind.mp hfail
    · exact hx.ends (fun u hu => hlowers u (List.mem_append_left _ hu)) s hfail
    · refine (hf s a t hrun).ends (fun u hu => hlowers u ?_) t hfail
      exact List.mem_append_right _ hu

theorem bind {x : Lowering α} {f : α → Lowering β} (hx : Fails env x defect asked)
    (hf : ∀ a, Fails env (f a) defect' more) :
    Fails env (x >>= f) (defect ∨ defect') (asked ++ more) :=
  hx.bind_of_yields fun _ a _ _ => hf a

theorem map {x : Lowering α} (hx : Fails env x defect asked) (f : α → β) :
    Fails env (f <$> x) defect asked := by
  rw [map_eq_pure_bind]
  exact (hx.bind fun a => pure (f a)).mono (by simp) (by simp)

theorem withLoopGuard {x : Lowering α} (guard : Option String) (h : Fails env x defect asked) :
    Fails env (Lowering.withLoopGuard guard x) defect asked where
  must hd _ := h.must hd _
  only _ := h.only _
  ends hlowers _ := h.ends hlowers _

theorem withReturns {x : Lowering α} (returns : ReturnForm) (h : Fails env x defect asked) :
    Fails env (Lowering.withReturns returns x) defect asked where
  must hd _ := h.must hd _
  only _ := h.only _
  ends hlowers _ := h.ends hlowers _

theorem withReplacement {x : Lowering α} (name other : String)
    (h : Fails env x defect asked) :
    Fails env (Lowering.withReplacement name other x) defect asked where
  must hd _ := h.must hd _
  only _ := h.only _
  ends hlowers _ := h.ends hlowers _

end Fails

end Lowering

namespace Env

open Lowering

variable (env : Env)

theorem unboxOptionalString_fails (e : Target.Expr) :
    Fails env (env.unboxOptionalString e) False [Language.stringTy] := by
  unfold unboxOptionalString
  split
  · exact Fails.of_pure _
  · exact ((Fails.fresh _).bind fun _ => (Fails.ofType (.lowerType _ _)).bind fun _ =>
      Fails.pure _).mono (by simp) (by simp)

theorem unboxValue_fails (e : Target.Expr) (t : Ty) :
    Fails env (env.unboxValue e t) False (env.conversionTypes t) := by
  unfold unboxValue
  split
  · exact Fails.of_pure _
  · split
    · exact Fails.of_pure _
    · split
      · exact (env.unboxOptionalString_fails e).mono .rfl (by simp [conversionTypes])
      · exact Fails.of_pure _

theorem convert_fails (e : Target.Expr) (isBoxed : Bool) (t : Ty) (form : Form) :
    Fails env (env.convert e isBoxed t form) False (env.conversionTypes t) := by
  have hsame : Fails env (Pure.pure e) False (env.conversionTypes t) :=
    Fails.of_pure e
  cases form with
  | asIs => exact hsame
  | boxed =>
    cases isBoxed with
    | true => exact hsame
    | false => exact Fails.ofType (env.boxValue_needs e t)
  | raw =>
    cases isBoxed with
    | true => exact env.unboxValue_fails e t
    | false => exact hsame

theorem leafTest_fails (raw : String) (t : Ty) : Fails env (env.leafTest raw t) False [t] := by
  have hpure : ∀ e : Target.Expr, Fails env (Pure.pure e) False [t] := fun e =>
    Fails.of_pure e
  unfold leafTest
  extract_lets subject plain
  split
  · exact ((Fails.fresh _).bind fun _ => Fails.pure _).mono (by simp) (by simp)
  · repeat' split
    all_goals first
      | exact hpure _
      | exact ((Fails.ofType (.lowerType _ _)).bind fun _ => Fails.pure _).mono (by simp) (by simp)

mutual

theorem typeTest_fails (raw : String) : ∀ t : Ty, Fails env (env.typeTest raw t) False t.leaves
  | .union cases | .inter cases => by
    simp only [typeTest, Ty.leaves]
    exact ((typeTests_fails raw cases).bind fun _ => Fails.pure _).mono (by simp) (by simp)
  | .bottom => by
    simp only [typeTest, Ty.leaves]
    exact Fails.pure _
  | .nominal _ _ _ _ | .param _ | .error => by
    simp only [typeTest, Ty.leaves]
    exact env.leafTest_fails raw _

theorem typeTests_fails (raw : String) :
    ∀ ts : List Ty, Fails env (env.typeTests raw ts) False (Ty.leavesAll ts)
  | [] => by
    simp only [typeTests, Ty.leavesAll]
    exact Fails.pure _
  | t :: ts => by
    simp only [typeTests, Ty.leavesAll]
    exact ((typeTest_fails raw t).bind fun _ => (typeTests_fails raw ts).bind fun _ =>
      Fails.pure _).mono (by simp) (by simp)

end

/-! ## Function values -/

theorem unpickArgument_fails (p : Parameter) (position arity : Nat) :
    Fails env (env.unpickArgument p position arity) False (env.bindingTypes p.ty) :=
  ((Fails.ofType (.lowerType _ _)).bind fun _ => env.convert_fails _ _ _ _).mono (by simp)
    (by simp [bindingTypes])

theorem unpickArguments_fails (arity : Nat) (ps : List Parameter) :
    ∀ position, Fails env (env.unpickArguments arity position ps) False
      (env.parameterTypes ps) := by
  induction ps with
  | nil => exact fun _ => Fails.pure _
  | cons p ps ih =>
    intro position
    exact ((env.unpickArgument_fails p position arity).bind fun _ =>
      (ih (position + 1)).bind fun _ => Fails.pure _).mono (by simp) (by simp [parameterTypes])

theorem parameterType_needs (p : Parameter) :
    TypeLowering.Needs env (env.parameterType p) [p.ty] :=
  .lowerType _ _

theorem unpickLocals_fails (arity : Nat) (ps : List Parameter) :
    ∀ position, Fails env (env.unpickLocals arity position ps) False
      (env.parameterTypes ps) := by
  induction ps with
  | nil => exact fun _ => Fails.pure _
  | cons p ps ih =>
    intro position
    refine ((env.unpickArgument_fails p position arity).bind fun _ =>
      (Fails.ofType (env.parameterType_needs p)).bind fun _ =>
        (ih (position + 1)).bind fun _ => Fails.pure _).mono (by simp) ?_
    simp only [parameterTypes, bindingTypes, List.flatMap_cons, List.mem_append, List.mem_cons]
    grind

theorem layerCallable_fails (t : Ty) (params : List Parameter) (body : List Target.Stmt) :
    Fails env (env.layerCallable t params body) False
      (env.parameterTypes params ++ env.callableTypes t) :=
  ((env.unpickLocals_fails _ params 0).bind fun _ =>
    Fails.ofType (env.buildCallable_needs _ _ _)).mono (by simp) (by simp)

theorem forwardBody_fails (result : Ty) (call : Target.Expr) :
    Fails env (env.forwardBody result call) False (env.conversionTypes result) := by
  unfold forwardBody
  split
  · exact Fails.of_pure _
  · exact ((env.convert_fails _ _ _ _).bind fun _ => Fails.pure _).mono (by simp) (by simp)

theorem functionRef_fails (d : DeclId) :
    Fails env (env.functionRef d) ((env.model.decl d).paramLists = []) (env.referenceTypes d) := by
  unfold functionRef referenceTypes
  dsimp only
  cases (env.model.decl d).paramLists with
  | nil =>
    have hfail : Fails env (Lowering.fail (.noParameterLists (env.model.qualifiedName d)) :
        Lowering Target.Expr) True [] := Fails.fail nofun
    exact hfail.mono (by simp) (by simp)
  | cons first rest =>
    have hbuilt := (env.unpickArguments_fails first.length first 0).bind fun args =>
      (env.forwardBody_fails (((env.model.decl d).ty.getD .error).curried rest)
        (.callLocal (env.model.decl d).name args)).bind fun body =>
          Fails.ofType (env.buildCallable_needs (.callable
            (((env.model.decl d).ty.getD .error).curried rest) (Parameter.types first))
              first.length body)
    exact hbuilt.mono (by simp) (by simp)

/-! ## Expressions -/

theorem referenceTo_fails (d : DeclId) (span : Span) :
    Fails env (env.referenceTo d span) (env.model.Listless d) (env.referenceTypes d) := by
  unfold referenceTo Model.Listless
  split
  · next hmethod => exact (env.functionRef_fails d).mono (by simp [hmethod]) (by simp)
  · next hmethod =>
    exact ((Fails.change _).bind fun _ => Fails.pure _).mono (by simp [hmethod]) (by simp)

theorem deliver_fails (info : Tree.Info) (form : Form) {x : Lowering Natural} {defect : Prop}
    {asked : List Ty} (hx : Fails env x defect asked) :
    Fails env (env.deliver info form x) defect (env.conversionTypes info.ty ++ asked) :=
  (hx.bind fun _ => env.convert_fails _ _ _ _).mono (by simp) (by simp [or_comm])

theorem sequenceLiteral_fails (t : Ty) (elems : List Target.Expr) (elemTypes : List Ty) :
    Fails env (env.sequenceLiteral t elems elemTypes) False
      [.of Language.arraySequence [(env.model.iteratedType? t).getD .error]] := by
  unfold sequenceLiteral
  split
  · exact Fails.of_pure _
  · exact Fails.ofType (env.makeSequence_needs _ _ _ _)

theorem mem_exprTypes {e : Tree.Expr} {t : Ty} (h : t ∈ env.conversionTypes e.info.ty) :
    t ∈ env.exprTypes e := by
  cases e <;> simp only [exprTypes, List.mem_append] <;> first | exact h | exact .inl h

/-- Where the natural form fails on its defect, so does the delivered one. -/
theorem deliverExpr_fails {e : Tree.Expr} (form : Form)
    (h : Fails env (env.lowerNatural e) (e.Refers env.model.Listless) (env.exprTypes e)) :
    Fails env (env.deliver e.info form (env.lowerNatural e)) (e.Refers env.model.Listless)
      (env.exprTypes e) := by
  refine (env.deliver_fails e.info form h).mono .rfl fun t ht => ?_
  obtain ht | ht := List.mem_append.mp ht
  · exact env.mem_exprTypes ht
  · exact ht

mutual

/-- An expression fails on the references to methods without parameter lists in
it. -/
theorem lowerNatural_fails : ∀ e : Tree.Expr,
    Fails env (env.lowerNatural e) (e.Refers env.model.Listless) (env.exprTypes e)
  | .ident _ _ => by
    simp only [lowerNatural, Tree.Expr.Refers]
    exact ((Fails.reads _).bind fun _ => Fails.pure _).mono (by simp) (by simp)
  | .integer _ _ | .float _ _ | .string _ _ | .character _ _ | .boolean _ _ | .absent _ => by
    simp only [lowerNatural, Tree.Expr.Refers]
    exact Fails.of_pure _
  | .member _ receiver _ => by
    simp only [lowerNatural, Tree.Expr.Refers, exprTypes]
    have h := env.deliverExpr_fails .boxed (lowerNatural_fails receiver)
    exact (h.bind fun _ => Fails.pure _).mono (by simp) (by simp +contextual)
  | .call _ receiver _ args => by
    simp only [lowerNatural, Tree.Expr.Refers, exprTypes]
    exact ((lowerArgs_fails args _).bind fun _ => (lowerReceiver_fails receiver).bind fun _ =>
      Fails.pure _).mono (by simp) (by simp +contextual)
  | .binary _ _ lhs rhs => by
    simp only [lowerNatural, Tree.Expr.Refers, exprTypes]
    have hleft := fun form => env.deliverExpr_fails form (lowerNatural_fails lhs)
    have hright := fun form => env.deliverExpr_fails form (lowerNatural_fails rhs)
    exact ((hleft _).bind fun _ => (hright _).bind fun _ => Fails.pure _).mono (by simp)
      (by simp +contextual)
  | .not _ operand => by
    simp only [lowerNatural, Tree.Expr.Refers, exprTypes]
    have h := env.deliverExpr_fails .raw (lowerNatural_fails operand)
    exact (h.bind fun _ => Fails.pure _).mono (by simp) (by simp +contextual)
  | .sequence _ elems => by
    simp only [lowerNatural, Tree.Expr.Refers, exprTypes]
    exact ((lowerArgs_fails elems []).bind fun _ => (env.sequenceLiteral_fails _ _ _).bind fun _ =>
      Fails.pure _).mono (by simp) (by simp +contextual)
  | .functionRef _ function => by
    simp only [lowerNatural, Tree.Expr.Refers, exprTypes]
    exact ((env.referenceTo_fails function _).bind fun _ => Fails.pure _).mono (by simp)
      (by simp +contextual)

theorem lowerArgs_fails : ∀ (es : List Tree.Expr) (params : List Parameter),
    Fails env (env.lowerArgs params es) (Tree.Expr.RefersAny env.model.Listless es)
      (env.argTypes es)
  | [], _ => by
    simp only [lowerArgs, Tree.Expr.RefersAny, argTypes]
    exact Fails.pure _
  | e :: es, params => by
    simp only [lowerArgs, Tree.Expr.RefersAny, argTypes]
    have h := env.deliverExpr_fails (argumentForm params) (lowerNatural_fails e)
    exact (h.bind fun _ => (lowerArgs_fails es params.tail).bind fun _ => Fails.pure _).mono
      (by simp) (by simp)

theorem lowerReceiver_fails : ∀ receiver : Option Tree.Expr,
    Fails env (env.lowerReceiver receiver) (Tree.Expr.RefersIfAny env.model.Listless receiver)
      (env.optionTypes receiver)
  | none => by
    simp only [lowerReceiver, Tree.Expr.RefersIfAny, optionTypes]
    exact Fails.pure _
  | some e => by
    simp only [lowerReceiver, Tree.Expr.RefersIfAny, optionTypes]
    have h := env.deliverExpr_fails .boxed (lowerNatural_fails e)
    exact (h.bind fun _ => Fails.pure _).mono (by simp) (by simp)

end

theorem lowerExpr_fails (e : Tree.Expr) (form : Form) :
    Fails env (env.lowerExpr e form) (e.Refers env.model.Listless) (env.exprTypes e) :=
  env.deliverExpr_fails form (env.lowerNatural_fails e)

/-! ## Conditions and loops -/

theorem rawSubject_fails (source : String) (subject : Tree.Expr) :
    Fails env (env.rawSubject source subject) (subject.Refers env.model.Listless)
      (subject.ty :: env.exprTypes subject) :=
  ((Fails.fresh _).bind fun _ => (Fails.ofType (.lowerType _ _)).bind fun _ =>
    (env.lowerExpr_fails subject _).bind fun _ => Fails.pure _).mono (by simp) (by simp)

theorem narrow_fails (raw source : String) (t : Ty) :
    Fails env (env.narrow raw source t) False (env.bindingTypes t) := by
  refine ((Fails.fresh source).bind fun synthetic => (Fails.ofType (.lowerType t .boxed)).bind
    fun boxed => (Fails.ofType (env.valueForm_needs t)).bind
      (?_ : ∀ form, Fails env _ False (env.bindingTypes t))).mono (by simp)
        (by simp [bindingTypes])
  intro form
  cases form with
  | raw =>
    exact ((Fails.ofType (.lowerType t .plain)).bind fun _ => (env.unboxValue_fails _ t).bind
      fun _ => Fails.pure _).mono (by simp) (by simp [bindingTypes])
  | boxed => exact Fails.of_pure _
  | asIs => exact Fails.of_pure _

theorem requireSubject_fails (name : String) :
    Fails env (requireSubject name) (name = "") [] := by
  by_cases hname : name = ""
  · subst hname
    refine ⟨fun _ s => ⟨.missingSubjectVariable s.span, rfl⟩, fun _ _ _ _ => rfl, ?_⟩
    intro _ s hrun
    cases hrun
  · have hok : ∀ s, ((requireSubject name).runFrom s).1 = .ok () := by
      intro s
      have hempty : name.isEmpty = false := by simpa using hname
      simp [requireSubject, runFrom_ofRun, hempty]
    exact (Fails.never fun s => ⟨(), hok s⟩).mono (by simp [hname]) (by simp)

theorem lowerCondition_fails (c : Tree.Condition) :
    Fails env (env.lowerCondition c)
      (c.UnnamedTest ∨ c.subject.Refers env.model.Listless)
      (env.conditionTypes c) := by
  cases c with
  | test e =>
    exact ((env.lowerExpr_fails e _).bind fun _ => Fails.pure _).mono
      (by simp [Tree.Condition.unnamedTest_iff, Tree.Condition.subject])
        (by simp [conditionTypes])
  | present e =>
    exact ((env.lowerExpr_fails e _).bind fun _ => Fails.pure _).mono
      (by simp [Tree.Condition.unnamedTest_iff, Tree.Condition.subject])
        (by simp [conditionTypes])
  | presentAs var e =>
    exact ((env.rawSubject_fails _ e).bind fun _ => (env.narrow_fails _ _ var.ty).bind fun _ =>
      Fails.pure _).mono (by simp [Tree.Condition.unnamedTest_iff, Tree.Condition.subject])
        (by simp [conditionTypes, narrowingTypes])
  | isOf name t e =>
    exact ((env.requireSubject_fails name).bind fun _ => (env.rawSubject_fails name e).bind
      fun binding => (env.typeTest_fails binding.1 t).bind fun _ =>
        (env.narrow_fails binding.1 name t).bind fun _ => Fails.pure _).mono
        (by simp [Tree.Condition.unnamedTest_iff, Tree.Condition.subject])
        (by simp [conditionTypes, narrowingTypes])
  | nonempty var e =>
    exact ((env.rawSubject_fails var.name e).bind fun binding =>
      (Fails.ofType (env.nonemptyTest_needs binding.1)).bind fun _ =>
        (env.narrow_fails binding.1 var.name var.ty).bind fun _ => Fails.pure _).mono
        (by simp [Tree.Condition.unnamedTest_iff, Tree.Condition.subject])
        (by simp [conditionTypes, narrowingTypes])

theorem guarded_fails (narrowed : Option Narrowed) {block : Lowering (List Target.Stmt)}
    {defect : Prop} {asked : List Ty} (hblock : Fails env block defect asked) :
    Fails env (guarded narrowed block) defect asked := by
  cases narrowed with
  | none => exact hblock
  | some n =>
    exact ((hblock.withReplacement n.source n.synthetic).bind fun _ => Fails.pure _).mono
      (by simp) (by simp)

theorem loopGuard_fails (needed : Bool) : Fails env (loopGuard needed) False [] := by
  cases needed with
  | false => exact Fails.pure _
  | true => exact ((Fails.fresh _).bind fun _ => Fails.pure _).mono (by simp) (by simp)

theorem loopElement_fails (subject : Tree.Expr) :
    Fails env (env.loopElement subject) False [] := by
  unfold loopElement
  cases env.model.iteratedType? subject.ty with
  | none => exact ((Fails.change _).bind fun _ => Fails.pure _).mono (by simp) (by simp)
  | some element => exact Fails.pure _

theorem eq_of_loopElement {subject : Tree.Expr} {s s' : LowerState} {t : Ty}
    (h : Yields (env.loopElement subject) s t s') :
    t = (env.model.iteratedType? subject.ty).getD .error := by
  unfold loopElement at h
  cases hshape : env.model.iteratedType? subject.ty with
  | none =>
    rw [hshape] at h
    obtain ⟨_, _, _, hpure⟩ := yields_bind.mp h
    exact (yields_pure.mp hpure).1
  | some element =>
    rw [hshape] at h
    exact (yields_pure.mp h).1

theorem bindElement_fails (var : Tree.Variable) (value : Target.Expr) (t : Ty) :
    Fails env (env.bindElement var value t) False (env.bindingTypes var.ty) := by
  have hbind : ∀ seen, Fails env (do
      let form ← env.valueForm var.ty
      let init ← env.convert seen true var.ty form
      let ty ← env.lowerType var.ty .plain
      Pure.pure (Target.Stmt.declareFinal var.name ty init)) False (env.bindingTypes var.ty) :=
    fun seen => ((Fails.ofType (env.valueForm_needs var.ty)).bind fun form =>
      (env.convert_fails seen true var.ty form).bind fun _ =>
        (Fails.ofType (.lowerType var.ty .plain)).bind fun _ => Fails.pure _).mono (by simp)
          (by simp only [bindingTypes, List.mem_append, List.mem_cons]; grind)
  unfold bindElement
  split
  · exact ((Fails.pure value).bind hbind).mono (by simp) (by simp)
  · exact ((Fails.ofType (.lowerType var.ty .boxed)).bind fun _ =>
      (Fails.pure _).bind hbind).mono (by simp) (by simp [bindingTypes])

theorem bindHead_fails (iterator : String) (element : Ty) (binding : Tree.LoopBinding) :
    Fails env (env.bindHead iterator element binding) False
      (match binding with
        | .value var => env.bindingTypes var.ty
        | .keyItem key item => env.bindingTypes key.ty ++ env.bindingTypes item.ty) := by
  cases binding with
  | value var =>
    exact ((env.bindElement_fails var _ _).bind fun _ => Fails.pure _).mono (by simp) (by simp)
  | keyItem key item =>
    exact ((env.bindElement_fails key _ _).bind fun _ => (env.bindElement_fails item _ _).bind
      fun _ => Fails.pure _).mono (by simp) (by simp)

theorem loopHead_fails (binding : Tree.LoopBinding) (subject : Tree.Expr) :
    Fails env (env.loopHead binding subject) (subject.Refers env.model.Listless)
      (env.headTypes binding subject) := by
  have hhead := (env.loopElement_fails subject).bind_of_yields fun s element t helement =>
    (Fails.fresh (binding.first.name ++ Support.iteratorSuffix)).bind fun iterator =>
      (Fails.ofType ((TypeLowering.Needs.lowerType (.iteratorOf element) .typeArgument).mono
        (by rw [env.eq_of_loopElement helement]; exact fun _ h => h))).bind fun iteratorType =>
        (env.lowerExpr_fails subject .boxed).bind fun code =>
          (env.bindHead_fails iterator element binding).bind fun bindings =>
            Fails.pure (⟨iterator, iteratorType, code, bindings⟩ : LoopHead)
  exact hhead.mono (by simp) (by simp [headTypes])

/-! ## Statements -/

theorem lowerInit_fails (form : Form) (init : Option Tree.Expr) :
    Fails env (env.lowerInit form init) (Tree.Expr.RefersIfAny env.model.Listless init)
      (env.optionTypes init) := by
  cases init with
  | none =>
    rw [Tree.Expr.RefersIfAny, optionTypes]
    exact Fails.pure _
  | some e =>
    rw [Tree.Expr.RefersIfAny, optionTypes]
    exact (env.lowerExpr_fails e form).map _

theorem declareLocal_fails (var : Tree.Variable) (init : Option Tree.Expr) (isVariable : Bool) :
    Fails env (env.declareLocal var init isVariable)
      (Tree.Expr.RefersIfAny env.model.Listless init) (var.ty :: env.optionTypes init) :=
  ((Fails.ofType (env.valueForm_needs var.ty)).bind fun form =>
    (Fails.ofType (.lowerType var.ty .plain)).bind fun _ => (env.lowerInit_fails form init).bind
      fun _ => (Fails.change _).bind fun _ => Fails.pure _).mono (by simp) (by simp)

theorem targetForm_fails (target : String) (t : Ty) :
    Fails env (env.targetForm target t) False [t] := by
  refine ((Fails.reads _).bind (?_ : ∀ kept, Fails env _ False [t])).mono (by simp) (by simp)
  intro kept
  cases kept with
  | none => exact Fails.ofType (env.valueForm_needs t)
  | some form => exact Fails.of_pure form

theorem assignTo_fails (name : String) (e : Tree.Expr) :
    Fails env (env.assignTo name e) (e.Refers env.model.Listless) (e.ty :: env.exprTypes e) :=
  ((Fails.reads _).bind fun target => (env.targetForm_fails target e.ty).bind fun form =>
    (env.lowerExpr_fails e form).bind fun _ => Fails.pure _).mono (by simp) (by simp)

theorem returnValue_fails (returns : Option ReturnForm) (value : Option Tree.Expr) :
    Fails env (env.returnValue returns value) (Tree.Expr.RefersIfAny env.model.Listless value)
      (env.optionTypes value) := by
  cases value with
  | none =>
    rw [Tree.Expr.RefersIfAny, optionTypes]
    cases returns with
    | none => exact Fails.pure _
    | some r => exact Fails.pure _
  | some e =>
    rw [Tree.Expr.RefersIfAny, optionTypes]
    cases returns with
    | none => exact (env.lowerExpr_fails e _).map _
    | some r => exact (env.lowerExpr_fails e _).map _

mutual

/-- A statement fails on what is malformed in it. -/
theorem lowerStmt_fails : ∀ stmt : Tree.Stmt,
    Fails env (env.lowerStmt stmt) (stmt.Contains env.model.Listless Tree.Condition.UnnamedTest)
      (env.stmtTypes stmt)
  | .declare span var init isVariable => by
    simp only [lowerStmt, Tree.Stmt.Contains, stmtTypes]
    exact ((Fails.change _).bind fun _ => (env.declareLocal_fails var init isVariable).bind fun _ =>
      Fails.pure _).mono (by simp) (by simp)
  | .assign span target value => by
    simp only [lowerStmt, Tree.Stmt.Contains, stmtTypes]
    exact ((Fails.change _).bind fun _ => (env.assignTo_fails target value).bind fun _ =>
      Fails.pure _).mono (by simp) (by simp)
  | .eval span e => by
    simp only [lowerStmt, Tree.Stmt.Contains, stmtTypes]
    exact ((Fails.change _).bind fun _ => (env.lowerExpr_fails e .asIs).bind fun _ =>
      Fails.pure _).mono (by simp) (by simp)
  | .ret span value => by
    simp only [lowerStmt, Tree.Stmt.Contains, stmtTypes]
    exact ((Fails.change _).bind fun _ => (Fails.reads _).bind fun returns =>
      (env.returnValue_fails returns value).bind fun _ => Fails.pure _).mono (by simp) (by simp)
  | .leave span => by
    simp only [lowerStmt, Tree.Stmt.Contains, stmtTypes]
    exact ((Fails.change _).bind fun _ => (Fails.reads _).bind fun _ => Fails.pure _).mono
      (by simp) (by simp)
  | .branch span test yes no => by
    simp only [lowerStmt, Tree.Stmt.Contains, stmtTypes]
    exact ((Fails.change _).bind fun _ => (env.lowerCondition_fails test).bind fun c =>
      (env.guarded_fails c.narrowed (lowerStmts_fails yes)).bind fun _ =>
        (lowerElse_fails no).bind fun _ => Fails.pure _).mono (by simp) (by simp)
  | .loop span test body => by
    simp only [lowerStmt, Tree.Stmt.Contains, stmtTypes]
    have hinside := (env.lowerCondition_fails test).bind fun c =>
      (env.guarded_fails c.narrowed (lowerStmts_fails body)).bind fun lowered =>
        Fails.pure (c.loop lowered)
    exact ((Fails.change _).bind fun _ => (hinside.withLoopGuard none).bind fun _ =>
      Fails.pure _).mono (by simp) (by simp)
  | .each span binding subject body no => by
    simp only [lowerStmt, Tree.Stmt.Contains, stmtTypes]
    have hinside := (env.loopHead_fails binding subject).bind fun head =>
      (lowerStmts_fails body).bind fun lowered => Fails.pure (head.loop lowered)
    exact ((Fails.change _).bind fun _ => (env.loopGuard_fails _).bind fun guard =>
      (hinside.withLoopGuard guard).bind fun _ => (lowerElse_fails no).bind fun _ =>
        Fails.pure _).mono (by simp [or_assoc]) (by simp)
  | .block span body => by
    simp only [lowerStmt, Tree.Stmt.Contains, stmtTypes]
    exact ((Fails.change _).bind fun _ => (lowerStmts_fails body).bind fun _ =>
      Fails.pure _).mono (by simp) (by simp)

theorem lowerStmts_fails : ∀ body : List Tree.Stmt,
    Fails env (env.lowerStmts body)
      (Tree.Stmt.ContainsAny env.model.Listless Tree.Condition.UnnamedTest body)
      (env.stmtsTypes body)
  | [] => by
    simp only [lowerStmts, Tree.Stmt.ContainsAny, stmtsTypes]
    exact Fails.pure _
  | stmt :: rest => by
    simp only [lowerStmts, Tree.Stmt.ContainsAny, stmtsTypes]
    exact ((lowerStmt_fails stmt).bind fun _ => (lowerStmts_fails rest).bind fun _ =>
      Fails.pure _).mono (by simp) (by simp)

theorem lowerElse_fails : ∀ no : Option (List Tree.Stmt),
    Fails env (env.lowerElse no)
      (Tree.Stmt.ContainsIfAny env.model.Listless Tree.Condition.UnnamedTest no) (env.elseTypes no)
  | none => by
    simp only [lowerElse, Tree.Stmt.ContainsIfAny, elseTypes]
    exact Fails.pure _
  | some body => by
    simp only [lowerElse, Tree.Stmt.ContainsIfAny, elseTypes]
    exact ((lowerStmts_fails body).bind fun _ => Fails.pure _).mono (by simp) (by simp)

end

/-! ## Functions -/

theorem wrapLayers_fails (result : Ty) (body : List Target.Stmt) (lists : List (List Parameter)) :
    Fails env (env.wrapLayers result body lists) False (env.layerTypes result lists) := by
  induction lists with
  | nil => exact Fails.pure _
  | cons list rest ih =>
    exact (ih.bind fun inner => (env.layerCallable_fails
      (.callable (result.curried rest) (Parameter.types list)) list inner).bind fun _ =>
        Fails.pure _).mono (by simp) (by simp [layerTypes])

theorem plainBody_fails (result : Ty) (body : List Tree.Stmt) :
    Fails env (env.plainBody result body)
      (Tree.Stmt.ContainsAny env.model.Listless Tree.Condition.UnnamedTest body)
      (env.stmtsTypes body ++ [result]) := by
  have hplain := (Fails.ofType (env.valueForm_needs result)).bind fun form =>
    ((env.lowerStmts_fails body).withReturns ⟨form, false⟩).bind fun lowered =>
      (Fails.ofType (env.methodResult_needs result)).bind fun ty => Fails.pure (ty, lowered)
  refine hplain.mono (by simp) ?_
  simp only [List.mem_append, List.mem_cons]
  grind

theorem curriedBody_fails (result : Ty) (lists : List (List Parameter))
    (body : List Tree.Stmt) :
    Fails env (env.curriedBody result lists body)
      (Tree.Stmt.ContainsAny env.model.Listless Tree.Condition.UnnamedTest body)
      (env.stmtsTypes body ++ (env.layerTypes result lists ++ [result.curried lists])) :=
  (((env.lowerStmts_fails body).withReturns ⟨.boxed, true⟩).bind fun lowered =>
    (env.wrapLayers_fails result (endWithValue result lowered) lists).bind fun wrapped =>
      (Fails.ofType (.lowerType (result.curried lists) .plain)).bind fun ty =>
        Fails.pure (ty, wrapped)).mono (by simp) (by simp)

/-- A function fails exactly on what is malformed in it. -/
theorem lowerFunction_fails (f : Tree.Function) (result : Ty) :
    Fails env (env.lowerFunction f result) (f.Malformed env.model Tree.Condition.UnnamedTest)
      (env.functionTypes f result) := by
  unfold lowerFunction Tree.Function.Malformed functionTypes
  dsimp only
  cases (env.model.decl f.decl).paramLists with
  | nil =>
    have hfail : Fails env (Lowering.fail (.noParameterLists (env.model.qualifiedName f.decl)) :
        Lowering Target.Method) True [] := Fails.fail nofun
    exact hfail.mono (by simp) (by simp)
  | cons first rest =>
    refine ((Fails.change _).bind fun _ =>
      (Fails.ofType (env.lowerTypeParams_needs (env.model.decl f.decl).typeParams)).bind fun _ =>
        (Fails.ofType (env.methodParams_needs first)).bind (?_ : ∀ params, Fails env _
          (Tree.Stmt.ContainsAny env.model.Listless Tree.Condition.UnnamedTest f.body)
          (env.stmtsTypes f.body ++
            (env.layerTypes result rest ++ [result, result.curried rest])))).mono
        (by simp) (by simp)
    intro params
    split
    · refine ((env.plainBody_fails result f.body).bind fun _ => Fails.pure _).mono (by simp) ?_
      simp only [List.mem_append, List.mem_cons]
      grind
    · refine ((env.curriedBody_fails result rest f.body).bind fun _ => Fails.pure _).mono
        (by simp) ?_
      simp only [List.mem_append, List.mem_cons]
      grind

/-! ## Where the lowering of a function fails -/

end Env

theorem Tree.Function.malformed_unnamed_iff {m : Model} (f : Tree.Function) :
    f.Malformed m Tree.Condition.Unnamed ↔
      f.Malformed m Tree.Condition.UnnamedTest ∨
        Tree.Stmt.ContainsAny (fun _ => False) Tree.Condition.UnnamedPresence f.body := by
  have hrefs : m.Listless = fun d => m.Listless d ∨ False := by
    funext d
    rw [or_false]
  have hconds : Tree.Condition.Unnamed =
      fun c => c.UnnamedTest ∨ c.UnnamedPresence := by
    funext c
    by_cases htest : c.IsTypeTest
    · simp [Tree.Condition.UnnamedTest, Tree.Condition.UnnamedPresence, htest]
    · simp [Tree.Condition.UnnamedTest, Tree.Condition.UnnamedPresence, htest]
  have hbody : Tree.Stmt.ContainsAny m.Listless Tree.Condition.Unnamed f.body ↔
      Tree.Stmt.ContainsAny m.Listless Tree.Condition.UnnamedTest f.body ∨
        Tree.Stmt.ContainsAny (fun _ => False) Tree.Condition.UnnamedPresence f.body := by
    rw [← Tree.Stmt.containsAny_or, ← hrefs, ← hconds]
  unfold Tree.Function.Malformed
  rw [hbody, or_assoc]

namespace Env

open Lowering

variable (env : Env)

/-- A function with something malformed is refused, and one whose lowering ends is
refused for nothing else; it ends wherever the lowering of every type does that it
comes to.  Of the narrowing conditions without a name only the type tests are
refused: without others in the body, exactly the malformed functions are. -/
theorem lowerFunction_refuses_iff (f : Tree.Function) (result : Ty) (s : LowerState) :
    let outcome := ((env.lowerFunction f result).runFrom s).1
    (f.Malformed env.model Tree.Condition.UnnamedTest → ∃ e, outcome = .error e) ∧
      (outcome ≠ .error .endlessType →
        ((∃ e, outcome = .error e) ↔ f.Malformed env.model Tree.Condition.UnnamedTest) ∧
        (¬ Tree.Stmt.ContainsAny (fun _ => False) Tree.Condition.UnnamedPresence f.body →
          ((∃ e, outcome = .error e) ↔ f.Malformed env.model Tree.Condition.Unnamed))) ∧
      ((∀ t ∈ env.functionTypes f result, env.Lowers t) → outcome ≠ .error .endlessType) := by
  have hfails := env.lowerFunction_fails f result
  refine ⟨fun hmalformed => hfails.must hmalformed s, fun hends => ?_,
    fun hlowers => hfails.ends hlowers s⟩
  have hrefused : (∃ e, ((env.lowerFunction f result).runFrom s).1 = .error e) ↔
      f.Malformed env.model Tree.Condition.UnnamedTest := by
    refine ⟨?_, fun hmalformed => hfails.must hmalformed s⟩
    rintro ⟨e, hrun⟩
    refine hfails.only s e hrun fun hendless => hends ?_
    rw [hrun, hendless]
  refine ⟨hrefused, fun hnamed => ?_⟩
  rw [hrefused, f.malformed_unnamed_iff]
  exact (or_iff_left hnamed).symm

/-- A method `probe(x)` of an object. -/
def probing : Model where
  decls := #[
    { Declaration.bare "probe" .method "demo" none with
      ty := some Language.voidTy, paramLists := [[⟨"x", Language.objectTy, none⟩]] }]
  params := #[]

/-- The method with a branch on its argument. -/
def probe (test : Tree.Expr → Tree.Condition) : Tree.Function :=
  let subject : Tree.Expr := .ident ⟨Language.objectTy, false, .dummy⟩ "x"
  ⟨⟨22⟩, [.branch .dummy (test subject) [] none], .dummy⟩

/-- The outcome for such a method. -/
def probed (test : Tree.Expr → Tree.Condition) : Except LowerError Target.Method :=
  (((Env.of probing .standard).lowerFunction (probe test) Language.voidTy).runFrom
    (.start .empty)).1

/-- A branch on a type test is refused without a name, and lowered with one. -/
theorem probed_isOf :
    (∃ e, probed (.isOf "" Language.stringTy) = .error e) ∧
      ¬ (probe (.isOf "s" Language.stringTy)).Malformed probing Tree.Condition.Unnamed ∧
      ¬ ∃ e, probed (.isOf "s" Language.stringTy) = .error e := by
  have hunnamed := lowerFunction_refuses_iff (.of probing .standard)
    (probe (.isOf "" Language.stringTy)) Language.voidTy (.start .empty)
  have hnamed := lowerFunction_refuses_iff (.of probing .standard)
    (probe (.isOf "s" Language.stringTy)) Language.voidTy (.start .empty)
  have hargless : ∀ t ∈ (Env.of probing .standard).functionTypes
      (probe (.isOf "s" Language.stringTy)) Language.voidTy, t.Argless := by decide
  have hends := hnamed.2.2 fun t ht => lowers_of_argless _ (hargless t ht)
  have hpresence : ¬ Tree.Stmt.ContainsAny (fun _ => False) Tree.Condition.UnnamedPresence
      (probe (.isOf "s" Language.stringTy)).body := by
    rintro (((hcond | href) | hyes | hno) | hrest)
    · exact hcond.1 trivial
    · exact href
    · exact hyes
    · exact hno
    · exact hrest
  have hwell : ¬ (probe (.isOf "s" Language.stringTy)).Malformed probing
      Tree.Condition.Unnamed := by
    rintro (hlists | ((hcond | href) | hyes | hno) | hrest)
    · contradiction
    · have hname : "s" = "" := Option.some.inj hcond
      contradiction
    · exact href
    · exact hyes
    · exact hno
    · exact hrest
  refine ⟨hunnamed.1 (.inr (.inl (.inl (.inl ⟨trivial, rfl⟩)))), hwell, ?_⟩
  exact fun hrefused => hwell (((hnamed.2.1 hends).2 hpresence).mp hrefused)

/-- A branch on `exists` that binds its subject to no name is lowered all the
same. -/
theorem probed_presentAs :
    (probe (.presentAs ⟨"", Language.objectTy⟩)).Malformed probing Tree.Condition.Unnamed ∧
      ∃ method, probed (.presentAs ⟨"", Language.objectTy⟩) = .ok method := by
  have hlowered : (probed (.presentAs ⟨"", Language.objectTy⟩)).toOption.isSome = true := by
    decide
  refine ⟨.inr (.inl (.inl (.inl rfl))), ?_⟩
  cases houtcome : probed (.presentAs ⟨"", Language.objectTy⟩) with
  | ok method => exact ⟨method, rfl⟩
  | error e =>
    rw [houtcome] at hlowered
    contradiction

end Env

end TreeLowering
