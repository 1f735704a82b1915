import Mathlib.Data.List.Forall2
import TreeLowering.Lowering.TypeTest
import TreeLowering.Proofs.Behaviour.Conversion
import TreeLowering.Proofs.Behaviour.Tree
import TreeLowering.Proofs.LanguageModule
set_option autoImplicit false

/-!
# Behaviour: type tests

The lowered test for a type reads nothing but the binding that it tests, and its
verdict on a value depends on the value and the type alone.  A test that can be
lowered from one state can be lowered from every state.
-/

namespace TreeLowering.Behaviour

open Lowering (Yields)

variable {machine : Machine} {env : Env} {s s' : LowerState} {raw : String}

/-! ## Verdicts -/

/-- The verdict of the test for a type that is no union, intersection or bottom
type. -/
def leafVerdict (machine : Machine) (env : Env) (v : Value) (t : Ty) : Act Value :=
  if t.withoutHint = Language.voidTy then pure (.bool true)
  else if t.withoutHint = Language.nothingTy then combine .eq v .absent
  else if t.withoutHint = Language.objectTy then combine .ne v .absent
  else if t.withoutHint = Language.identifiableTy then
    machine.send .statics Support.isIdentifiable [v]
  else if t.withoutHint = Language.identifiableObjectTy then
    machine.send .statics Support.isIdentifiableObject [v]
  else
    match (env.lowerType t Env.testPosition).answer? with
    | some cls => machine.instanceTest v cls
    | none => halt .stuck

/-- Verdicts put together by an operator. -/
def combineVerdicts (op : Target.BinaryOp) : List (Act Value) → Act Value
  | [] => pure (.bool (op == .and))
  | a :: as => as.foldl (operate op) a

mutual

/-- The verdict of the test for a type. -/
def verdict (machine : Machine) (env : Env) (v : Value) : Ty → Act Value
  | .union cases => combineVerdicts .or (verdicts machine env v cases)
  | .inter bounds => combineVerdicts .and (verdicts machine env v bounds)
  | .bottom => pure (.bool false)
  | .nominal d as o h => leafVerdict machine env v (.nominal d as o h)
  | .param p => leafVerdict machine env v (.param p)
  | .error => leafVerdict machine env v .error

/-- The verdicts of the tests for several types. -/
def verdicts (machine : Machine) (env : Env) (v : Value) : List Ty → List (Act Value)
  | [] => []
  | t :: ts => verdict machine env v t :: verdicts machine env v ts

end

/-! ## What tests do -/

theorem does_instanceOf {ρ : Locals} {v : Value} (cls : Target.Ty) (h : ρ.read raw = pure v) :
    Does ρ (machine.evalCode (.instanceOf (.ident raw) cls)) (machine.instanceTest v cls) := by
  have hsubject : Does ρ (machine.evalCode (.ident raw)) (pure v) := Machine.does_read h
  have htest := hsubject.bind (fun v => Does.lift (machine.instanceTest v cls))
  rw [pure_bind] at htest
  simp only [Machine.evalCode] at htest ⊢
  exact htest

/-! ## Tests -/

/-- Wherever a test is lowered, it only draws names, it judges the value of its
binding, and it could be lowered from any other state as well. -/
structure IsTest (machine : Machine) (x : String → Lowering Target.Expr)
    (judge : Value → Act Value) : Prop where
  follows : ∀ {raw s code s'}, Yields (x raw) s code s' → s.Follows s'
  does : ∀ {raw s code s'}, Yields (x raw) s code s' → ∀ {ρ : Locals} {v}, ρ.read raw = pure v →
    Does ρ (machine.evalCode code) (judge v)
  anywhere : ∀ {raw s code s'}, Yields (x raw) s code s' →
    ∀ raw' u, ∃ code' u', Yields (x raw') u code' u'

namespace IsTest

/-- A test that is the same everywhere. -/
theorem pure {f : String → Target.Expr} {judge : Value → Act Value}
    (h : ∀ {raw : String} {ρ : Locals} {v : Value}, ρ.read raw = Pure.pure v →
      Does ρ (machine.evalCode (f raw)) (judge v)) :
    IsTest machine (fun raw => Pure.pure (f raw)) judge where
  follows hcode := by
    obtain ⟨_, rfl⟩ := Lowering.yields_pure.mp hcode
    exact .refl _
  does hcode _ _ hread := by
    obtain ⟨rfl, _⟩ := Lowering.yields_pure.mp hcode
    exact h hread
  anywhere _ raw' u := ⟨f raw', u, rfl⟩

/-- Everything has the type of everything. -/
theorem always : IsTest machine (fun raw => do
    let tmp ← Lowering.fresh Support.temporary
    Pure.pure (.letIn [.declareFinal tmp .object (.ident raw)] (.bool true)))
    (fun _ => Pure.pure (.bool true)) where
  follows hcode := by
    obtain ⟨tmp, s₁, hfresh, hcode⟩ := Lowering.yields_bind.mp hcode
    obtain ⟨_, rfl⟩ := Lowering.yields_pure.mp hcode
    exact .fresh hfresh
  does hcode ρ v hread := by
    obtain ⟨tmp, s₁, _, hcode⟩ := Lowering.yields_bind.mp hcode
    obtain ⟨rfl, _⟩ := Lowering.yields_pure.mp hcode
    exact Machine.does_let (f := fun _ => Pure.pure (Value.bool true)) (Machine.does_read hread)
      (fun _ => Machine.does_bool true)
  anywhere _ _ _ := ⟨_, _, rfl⟩

/-- A test against the class that a type is lowered to. -/
theorem instanceOf (x : TypeLowering Target.Ty) : IsTest machine (fun raw => do
    let cls ← x
    Pure.pure (.instanceOf (.ident raw) cls))
    (fun v => match x.answer? with
      | some cls => machine.instanceTest v cls
      | none => halt .stuck) where
  follows hcode := by
    obtain ⟨cls, s₁, hcls, hcode⟩ := Lowering.yields_bind.mp hcode
    obtain ⟨_, rfl⟩ := Lowering.yields_pure.mp hcode
    exact .ofType hcls
  does hcode ρ v hread := by
    obtain ⟨cls, s₁, hcls, hcode⟩ := Lowering.yields_bind.mp hcode
    obtain ⟨rfl, _⟩ := Lowering.yields_pure.mp hcode
    rw [hcls.answer]
    exact does_instanceOf cls hread
  anywhere hcode raw' u := by
    obtain ⟨cls, s₁, hcls, _⟩ := Lowering.yields_bind.mp hcode
    obtain ⟨notes, hanswer, _⟩ := Lowering.yields_ofType.mp hcls
    exact ⟨_, _, Lowering.yields_bind.mpr
      ⟨cls, _, Lowering.yields_ofType.mpr ⟨notes, hanswer, rfl⟩, rfl⟩⟩

end IsTest

theorem leafTest_isTest (t : Ty) :
    IsTest machine (fun raw => env.leafTest raw t) (fun v => leafVerdict machine env v t) := by
  unfold Env.leafTest leafVerdict
  dsimp only
  by_cases hvoid : t.withoutHint = Language.voidTy
  · simp only [if_pos hvoid]
    exact .always
  by_cases hnothing : t.withoutHint = Language.nothingTy
  · simp only [if_neg hvoid, if_pos hnothing]
    exact .pure (fun hread => Machine.does_binary .eq (Machine.does_read hread) Machine.does_null)
  by_cases hobject : t.withoutHint = Language.objectTy
  · simp only [if_neg hvoid, if_neg hnothing, if_pos hobject]
    exact .pure (fun hread => Machine.does_binary .ne (Machine.does_read hread) Machine.does_null)
  by_cases hidentifiable : t.withoutHint = Language.identifiableTy
  · simp only [if_neg hvoid, if_neg hnothing, if_neg hobject, if_pos hidentifiable]
    exact .pure (fun hread => Machine.does_static _ _ _ (Machine.does_read hread))
  by_cases hbase : t.withoutHint = Language.identifiableObjectTy
  · simp only [if_neg hvoid, if_neg hnothing, if_neg hobject, if_neg hidentifiable, if_pos hbase]
    exact .pure (fun hread => Machine.does_static _ _ _ (Machine.does_read hread))
  simp only [if_neg hvoid, if_neg hnothing, if_neg hobject, if_neg hidentifiable, if_neg hbase]
  exact .instanceOf _

/-! ## Tests put together -/

/-- The codes judge the value of their binding, one after the other. -/
structure AreTests (machine : Machine) (x : String → Lowering (List Target.Expr))
    (judge : Value → List (Act Value)) : Prop where
  follows : ∀ {raw s codes s'}, Yields (x raw) s codes s' → s.Follows s'
  does : ∀ {raw s codes s'}, Yields (x raw) s codes s' →
    ∀ {ρ : Locals} {v}, ρ.read raw = pure v →
      List.Forall₂ (fun code a => Does ρ (machine.evalCode code) a) codes (judge v)
  anywhere : ∀ {raw s codes s'}, Yields (x raw) s codes s' →
    ∀ raw' u, ∃ codes' u', Yields (x raw') u codes' u'

theorem does_combineTests (op : Target.BinaryOp) {ρ : Locals} {codes : List Target.Expr}
    {as : List (Act Value)}
    (h : List.Forall₂ (fun code a => Does ρ (machine.evalCode code) a) codes as) :
    Does ρ (machine.evalCode (Env.combineTests op codes)) (combineVerdicts op as) := by
  cases h with
  | nil => exact Machine.does_bool _
  | @cons code a codes as hfirst hrest =>
    unfold Env.combineTests combineVerdicts
    induction hrest generalizing code a with
    | nil => exact hfirst
    | cons hnext _ ih => exact ih (Machine.does_binary op hfirst hnext)

theorem AreTests.combine {x : String → Lowering (List Target.Expr)}
    {judge : Value → List (Act Value)} (op : Target.BinaryOp) (h : AreTests machine x judge) :
    IsTest machine (fun raw => do
      let tests ← x raw
      pure (Env.combineTests op tests)) (fun v => combineVerdicts op (judge v)) where
  follows hcode := by
    obtain ⟨tests, s₁, htests, hcode⟩ := Lowering.yields_bind.mp hcode
    obtain ⟨_, rfl⟩ := Lowering.yields_pure.mp hcode
    exact h.follows htests
  does hcode ρ v hread := by
    obtain ⟨tests, s₁, htests, hcode⟩ := Lowering.yields_bind.mp hcode
    obtain ⟨rfl, _⟩ := Lowering.yields_pure.mp hcode
    exact does_combineTests op (h.does htests hread)
  anywhere hcode raw' u := by
    obtain ⟨tests, s₁, htests, _⟩ := Lowering.yields_bind.mp hcode
    obtain ⟨tests', u', htests'⟩ := h.anywhere htests raw' u
    exact ⟨_, u', Lowering.yields_bind.mpr ⟨tests', u', htests', rfl⟩⟩

theorem AreTests.nil : AreTests machine (fun _ => pure []) (fun _ => []) where
  follows hcodes := by
    obtain ⟨_, rfl⟩ := Lowering.yields_pure.mp hcodes
    exact .refl _
  does hcodes ρ v _ := by
    obtain ⟨rfl, _⟩ := Lowering.yields_pure.mp hcodes
    exact .nil
  anywhere _ _ u := ⟨[], u, rfl⟩

theorem AreTests.cons {x : String → Lowering Target.Expr} {judge : Value → Act Value}
    {xs : String → Lowering (List Target.Expr)} {judges : Value → List (Act Value)}
    (h : IsTest machine x judge) (hs : AreTests machine xs judges) :
    AreTests machine (fun raw => do
      let test ← x raw
      let tests ← xs raw
      pure (test :: tests)) (fun v => judge v :: judges v) where
  follows hcodes := by
    obtain ⟨test, s₁, htest, hcodes⟩ := Lowering.yields_bind.mp hcodes
    obtain ⟨tests, s₂, htests, hcodes⟩ := Lowering.yields_bind.mp hcodes
    obtain ⟨_, rfl⟩ := Lowering.yields_pure.mp hcodes
    exact (h.follows htest).trans (hs.follows htests)
  does hcodes ρ v hread := by
    obtain ⟨test, s₁, htest, hcodes⟩ := Lowering.yields_bind.mp hcodes
    obtain ⟨tests, s₂, htests, hcodes⟩ := Lowering.yields_bind.mp hcodes
    obtain ⟨rfl, _⟩ := Lowering.yields_pure.mp hcodes
    exact .cons (h.does htest hread) (hs.does htests hread)
  anywhere hcodes raw' u := by
    obtain ⟨test, s₁, htest, hcodes⟩ := Lowering.yields_bind.mp hcodes
    obtain ⟨tests, s₂, htests, _⟩ := Lowering.yields_bind.mp hcodes
    obtain ⟨test', u₁, htest'⟩ := h.anywhere htest raw' u
    obtain ⟨tests', u₂, htests'⟩ := hs.anywhere htests raw' u₁
    exact ⟨_, u₂, Lowering.yields_bind.mpr ⟨test', u₁, htest',
      Lowering.yields_bind.mpr ⟨tests', u₂, htests', rfl⟩⟩⟩

mutual

theorem typeTest_isTest : ∀ t : Ty,
    IsTest machine (fun raw => env.typeTest raw t) (fun v => verdict machine env v t)
  | .union cases => by
    simp only [Env.typeTest, verdict]
    exact (typeTests_areTests cases).combine .or
  | .inter bounds => by
    simp only [Env.typeTest, verdict]
    exact (typeTests_areTests bounds).combine .and
  | .bottom => by
    simp only [Env.typeTest, verdict]
    exact .pure (fun _ => Machine.does_bool false)
  | .nominal d as o h => by
    simp only [Env.typeTest, verdict]
    exact leafTest_isTest _
  | .param p => by
    simp only [Env.typeTest, verdict]
    exact leafTest_isTest _
  | .error => by
    simp only [Env.typeTest, verdict]
    exact leafTest_isTest _

theorem typeTests_areTests : ∀ ts : List Ty,
    AreTests machine (fun raw => env.typeTests raw ts) (fun v => verdicts machine env v ts)
  | [] => by
    simp only [Env.typeTests, verdicts]
    exact .nil
  | t :: ts => by
    simp only [Env.typeTests, verdicts]
    exact .cons (typeTest_isTest t) (typeTests_areTests ts)

end

/-- Where a test for a type is lowered, a value has the type when the verdict on
it is true. -/
theorem hasType_eq {t : Ty} {code : Target.Expr} (h : Yields (env.typeTest raw t) s code s')
    (v : Value) :
    machine.hasType env v t = (do truth (← verdict machine env v t)) := by
  have htest : IsTest machine (fun raw => env.typeTest raw t) (fun v => verdict machine env v t) :=
    typeTest_isTest t
  obtain ⟨code', u', hcode⟩ := htest.anywhere h "value" (.start .empty)
  have hdoes : Does [("value", v)] (machine.evalCode code') (verdict machine env v t) :=
    htest.does hcode rfl
  have hrun : (env.typeTest "value" t).runFrom (.start .empty) = (.ok code', u') := hcode
  have heval : machine.evalCode code' [("value", v)] =
      (fun w => (w, [("value", v)])) <$> verdict machine env v t := hdoes
  simp only [Machine.hasType, hrun, heval, bind_map_left]

/-! ## The test for a sequence with an element -/

/-- Only sequences are instances of the class of sequences of a fixed size. -/
theorem isA_fixedSized (v : Value) :
    machine.isA v (languageClass Language.fixedSized) =
      match v with
      | .seq _ => true
      | _ => false := by
  have hclass : sequenceClasses.contains (languageClass Language.fixedSized) = true := by decide
  have hobject : languageClass Language.fixedSized ≠ Support.object := by decide
  cases v with
  | seq vs =>
    simp only [Machine.isA, hclass, Bool.or_true]
  | object id =>
    simp only [Machine.isA, hclass, hobject, decide_false, Bool.not_true, Bool.false_and,
      Bool.or_false]
  | absent | bool _ | int _ | float _ | char _ | text _ | iter _ | entry _ _ | function _
  | statics => rfl

/-- A value is a sequence with an element when it is a sequence and is not
empty. -/
theorem hasElement_eq (v : Value) :
    operate .and (pure (.bool (machine.isA v (languageClass Language.fixedSized))))
      (negate (machine.send v Support.isEmpty [])) = pure (.bool (Machine.hasElement v)) := by
  rw [isA_fixedSized]
  cases v with
  | seq vs => cases vs <;> rfl
  | absent | bool _ | int _ | float _ | char _ | text _ | iter _ | entry _ _ | function _
  | object _ | statics => rfl

/-- The test for a sequence with an element. -/
theorem nonemptyTest_does {code : Target.Expr} (h : (env.nonemptyTest raw).answer? = some code)
    {ρ : Locals} {v : Value} (hread : ρ.read raw = pure v) :
    Does ρ (machine.evalCode code) (pure (.bool (Machine.hasElement v))) := by
  obtain ⟨cls, hcls, h⟩ := TypeLowering.answer?_bind.mp h
  obtain rfl := Option.some.inj ((Env.answer?_fixedSized env).symm.trans hcls)
  cases h
  have hsubject : Does ρ (machine.evalCode (.ident raw)) (pure v) := Machine.does_read hread
  have hempty := Machine.does_get Support.isEmpty
    (Machine.does_cast (.cls (env.model.spelling Language.fixedSized .full)) hsubject)
  have hinstance : Does ρ (machine.evalCode (.instanceOf (.ident raw)
      (.cls (env.model.spelling Language.fixedSized .full)))) _ := does_instanceOf _ hread
  rw [pure_bind] at hempty
  rw [Machine.instanceTest, Model.spelling_language rfl rfl] at hinstance
  rw [Model.spelling_language rfl rfl] at hempty ⊢
  rw [← @hasElement_eq machine]
  exact Machine.does_binary .and hinstance (Machine.does_not hempty)

end TreeLowering.Behaviour
