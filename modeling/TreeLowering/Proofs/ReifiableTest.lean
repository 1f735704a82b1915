import TreeLowering.Lowering.Condition
import TreeLowering.Proofs.Behaviour.Reading
set_option autoImplicit false

/-!
# Proofs: tests against classes

Only a class is known of a value at run time.  A test for a type names one class
for each type inside its unions and intersections that is tested by a class, and
all of them are plain classes unless a type parameter stands for a bound that has
no class, such as another type parameter.

The test for a sequence with an element names one plain class.
-/

namespace TreeLowering

open Lowering (Yields)

/-! ## Leaves -/

namespace Ty

mutual

/-- What a value is tested against one by one is a class, a type parameter or the
erroneous type. -/
theorem leaf_cases {u : Ty} : (t : Ty) → u ∈ t.leaves →
    (∃ d as o h, u = .nominal d as o h) ∨ (∃ p, u = .param p) ∨ u = .error
  | .union cases => leafAll_cases cases
  | .inter bounds => leafAll_cases bounds
  | .bottom => nofun
  | .nominal d as o h => fun hu => .inl ⟨d, as, o, h, List.mem_singleton.mp hu⟩
  | .param p => fun hu => .inr (.inl ⟨p, List.mem_singleton.mp hu⟩)
  | .error => fun hu => .inr (.inr (List.mem_singleton.mp hu))

theorem leafAll_cases {u : Ty} : (ts : List Ty) → u ∈ leavesAll ts →
    (∃ d as o h, u = .nominal d as o h) ∨ (∃ p, u = .param p) ∨ u = .error
  | [] => nofun
  | t :: ts => fun hu => (List.mem_append.mp hu).elim (leaf_cases t) (leafAll_cases ts)

end

end Ty

namespace Model

variable {m : Model}

/-- A class is written for every class. -/
theorem not_classless_nominal (d : DeclId) (as : List Ty) (o : Option Ty) (h : Option Hint) :
    ¬ m.Classless (.nominal d as o h) := by
  have hcases := Ty.simplify_nominal_cases d as o h
  rintro (herror | hhides | ⟨hisParam, _⟩)
  · rw [herror] at hcases
    simp [Language.objectTy, Ty.of] at hcases
  · have hcomposite := hhides.isComposite
    obtain hsimple | hsimple | hsimple := hcases <;> rw [hsimple] at hcomposite <;> contradiction
  · obtain hsimple | hsimple | hsimple := hcases <;> rw [hsimple] at hisParam <;> contradiction

end Model

namespace Behaviour

open Target (Expr)

variable {env : Env} {t u : Ty}

/-- The classes for a leaf are plain unless no class is written for what it
stands for. -/
theorem leafClasses_plain_iff (hu : u ∈ t.leaves) :
    (∀ c ∈ leafClasses env u, c.isPlainClass = true) ↔
      u ≠ .error ∧ ∀ p, u = .param p →
        ¬ env.model.Classless ((env.model.firstBound? p).getD Language.objectTy) := by
  obtain ⟨d, as, o, h, rfl⟩ | ⟨p, rfl⟩ | rfl := Ty.leaf_cases t hu
  · refine iff_of_true (fun c hc => ?_) ⟨nofun, nofun⟩
    unfold leafClasses at hc
    split at hc
    · contradiction
    · obtain rfl := List.mem_singleton.mp hc
      exact Model.isPlainClass_rawClass_iff.mpr (Model.not_classless_nominal d as o h)
  · have hclasses : leafClasses env (.param p) = [env.testedClass (.param p)] := rfl
    have hclass : env.testedClass (.param p) =
        env.model.rawClass ((env.model.firstBound? p).getD Language.objectTy) := rfl
    rw [hclasses, List.forall_mem_singleton, hclass, Model.isPlainClass_rawClass_iff]
    simp
  · have hclasses : leafClasses env .error = [env.model.rawClass .error] := rfl
    rw [hclasses, List.forall_mem_singleton, Model.rawClass_error]
    exact iff_of_false Bool.false_ne_true fun h => h.1 rfl

/-- What is tested for a type are plain classes unless the erroneous type or a
type parameter without a class is among its leaves. -/
theorem testedClasses_plain_iff :
    (∀ c ∈ t.leaves.flatMap (leafClasses env), c.isPlainClass = true) ↔
      .error ∉ t.leaves ∧ ∀ p, .param p ∈ t.leaves →
        ¬ env.model.Classless ((env.model.firstBound? p).getD Language.objectTy) := by
  rw [List.forall_mem_flatMap]
  refine ⟨fun h => ⟨fun herror => ?_, fun p hp => ?_⟩, fun ⟨herror, hparam⟩ u hu => ?_⟩
  · exact ((leafClasses_plain_iff herror).mp (h _ herror)).1 rfl
  · exact ((leafClasses_plain_iff hp).mp (h _ hp)).2 p rfl
  · exact (leafClasses_plain_iff hu).mpr
      ⟨fun h => herror (h ▸ hu), fun p hp => hparam p (hp ▸ hu)⟩

/-- Without arguments nothing but a name is written. -/
theorem leafClasses_cases {c : Target.Ty} (hc : c ∈ t.leaves.flatMap (leafClasses env)) :
    (∃ name, c = .cls name) ∨ (∃ q, c = .var (env.model.param q).name) ∨ c = .erroneous := by
  obtain ⟨u, _, hc⟩ := List.mem_flatMap.mp hc
  unfold leafClasses at hc
  split at hc
  · contradiction
  · obtain rfl := List.mem_singleton.mp hc
    exact Model.rawClass_cases _ _

/-! ## Sequences with an element -/

/-- The test for a sequence with an element names one class. -/
theorem nonemptyTest_tested (env : Env) (raw : String) :
    ∃ test, (env.nonemptyTest raw).answer? = some test ∧
      test.testedClasses = [.cls (env.model.spelling Language.fixedSized .full)] := by
  refine ⟨_, TypeLowering.answer?_bind.mpr ⟨_, env.answer?_fixedSized, rfl⟩, ?_⟩
  simp [Expr.testedClasses, Expr.get, Expr.callOn, Target.Node.tested]

/-! ## Tests -/

/-- There is a test for every type, and it names classes, type variables and the
placeholder only.  They are plain classes exactly where the erroneous type is not
tested and every tested type parameter has a first bound with a class.  The class
in the test for a sequence with an element is plain. -/
theorem typeTest_plain_iff (env : Env) (raw : String) (t : Ty) (s : LowerState) :
    (∃ code s', Yields (env.typeTest raw t) s code s' ∧
      (∀ c ∈ code.testedClasses,
        (∃ name, c = .cls name) ∨ (∃ q, c = .var (env.model.param q).name) ∨ c = .erroneous) ∧
      ((∀ c ∈ code.testedClasses, c.isPlainClass = true) ↔
        .error ∉ t.leaves ∧ ∀ p, .param p ∈ t.leaves →
          ¬ env.model.Classless ((env.model.firstBound? p).getD Language.objectTy))) ∧
    ∃ test, (env.nonemptyTest raw).answer? = some test ∧
      ∀ c ∈ test.testedClasses, c.isPlainClass = true := by
  obtain ⟨_, code, s', hcode, _, hmeans⟩ := typeTest_draws env raw t s
  obtain ⟨test, htest, hclasses⟩ := nonemptyTest_tested env raw
  refine ⟨⟨code, s', hcode, ?_, ?_⟩, test, htest, ?_⟩
  · rw [hmeans.tested]
    exact fun c => leafClasses_cases
  · rw [hmeans.tested]
    exact testedClasses_plain_iff
  · rw [hclasses]
    exact List.forall_mem_singleton.mpr rfl

/-- The test for a parameter below another one names the other one. -/
theorem boundByParam_tested :
    Ty.error ∉ (Ty.param ⟨11⟩).leaves ∧
    ∃ code s', Yields (Env.boundedParams.typeTest "x" (.param ⟨11⟩)) (.start .empty) code s' ∧
      .var "S" ∈ code.testedClasses ∧ Target.Ty.isPlainClass (.var "S") = false := by
  obtain ⟨_, code, s', hcode, _, hmeans⟩ :=
    typeTest_draws Env.boundedParams "x" (.param ⟨11⟩) (.start .empty)
  refine ⟨by decide, code, s', hcode, ?_, rfl⟩
  rw [hmeans.tested]
  decide

end Behaviour

end TreeLowering
