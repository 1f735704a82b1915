import TreeLowering.Lowering.TypeTest
import TreeLowering.Proofs.Placeholder
import TreeLowering.Proofs.RawSpelling
set_option autoImplicit false

/-!
# Proofs: the class that a value is tested against

A test names its class raw.  Nothing is lowered for the arguments of the type,
so there is always an answer, and it is a class by its name, a type variable or
the placeholder: never a primitive type, a wildcard or a type with arguments.

A type parameter stands for its first bound, once.  What the bound is then
written as is no class where it is a type parameter again, the erroneous type or
a union that hides its iterable shape.
-/

namespace TreeLowering

namespace Target.Ty

/-- A class or interface by its name, or a member of one, without arguments. -/
def isPlainClass : Ty → Bool
  | cls _ => true
  | member outer _ => isPlainClass outer
  | _ => false

end Target.Ty

namespace Ty

/-- At most a type parameter comes in place of a type. -/
theorem bareParam_cases (t : Ty) : t.bareParam = t ∨ ∃ p, t.bareParam = .param p := by
  unfold bareParam
  split
  · split
    · exact .inr ⟨_, rfl⟩
    · exact .inl rfl
  · exact .inl rfl

theorem simplify_nominal_cases (d : DeclId) (as : List Ty) (o : Option Ty) (h : Option Hint) :
    (nominal d as o h).simplify = .nominal d as o h ∨
      (nominal d as o h).simplify = Language.objectTy ∨ (nominal d as o h).simplify = .bottom := by
  cases hoptional : (nominal d as o h).isOptional with
  | false => exact .inl (TypeLowering.simplify_nominal hoptional)
  | true =>
    rw [simplify_of_optional hoptional]
    simp only [isOptional, Bool.or_eq_true, beq_iff_eq] at hoptional
    obtain rfl | rfl := hoptional
    · exact .inr (.inr rfl)
    · exact .inr (.inl rfl)

end Ty

namespace Model

variable (m : Model)

/-- The type that stands for a tested type: the first bound of a type parameter,
any other type itself. -/
def testedAs : Ty → Ty
  | .param p => (m.firstBound? p).getD Language.objectTy
  | t => t

/-- The name of a type where arguments are dropped. -/
def rawName : Ty → Target.Ty
  | .nominal d _ _ _ => .cls (m.spelling d .full)
  | .param p => .var (m.param p).name
  | .union _ | .inter _ | .bottom | .error => .erroneous

/-- What is written in a test for a type that stands for itself. -/
def rawClass (t : Ty) : Target.Ty :=
  if m.erasesToObject t then .object
  else if t.simplify.isComposite then m.rawName ((m.iterableShape? t).getD t).simplify
  else if t.erasesToException then .cls Support.throwable
  else if m.isBoolean t && !t.isTypeParameter then m.rawName Language.booleanTy
  else m.rawName t.simplify

end Model

namespace TypeLowering

variable {m : Model} {lower : Ty → TypeLowering Target.Ty} {small : Bool} {t : Ty}

/-! ## The position of a test -/

/-- The position of the class in a test, where numbers may be small. -/
def ofTest (small : Bool) : Context :=
  { noPrimitives := true, raw := true, firstBound := true, small := small }

theorem adjust_testPosition (c : Config) : adjust c Env.testPosition = ofTest c.smallIntegers := by
  unfold adjust
  cases c.smallIntegers <;> rfl

theorem resolveBound_ofTest (m : Model) (t : Ty) :
    resolveBound m (ofTest small) t = m.testedAs t := by
  cases t <;> rfl

theorem answer?_classType_ofTest (t : Ty) :
    (classType m lower (ofTest small) t).answer? = some (m.rawName t.simplify) := by
  have hraw : classType m lower (ofTest small) t = bareType m (ofTest small) t.simplify := rfl
  rw [hraw]
  cases t.simplify <;> rfl

theorem answer?_writtenType_ofTest (herases : m.erasesToObject t = false) :
    (writtenType m lower (ofTest small) t).answer? = some (m.rawClass t) := by
  have hprimitives : (ofTest small).allowsPrimitives = false := rfl
  unfold writtenType Model.rawClass
  simp only [herases, hprimitives, Bool.false_and, Bool.false_eq_true, if_false]
  split
  · exact answer?_classType_ofTest _
  · split
    · rfl
    · split
      · exact answer?_classType_ofTest Language.booleanTy
      · exact answer?_classType_ofTest t

end TypeLowering

namespace Model

variable {m : Model} {t : Ty}

/-! ## Types without a class -/

/-- No class is written for the type: it is a type parameter, the erroneous type
or a union that hides its iterable shape.  An intersection that is a type
parameter below the Boolean type is written as the Boolean class. -/
def Classless (m : Model) (t : Ty) : Prop :=
  t.simplify = .error ∨ m.HidesShape t ∨
    t.simplify.isParam = true ∧ (m.isBoolean t && !t.isTypeParameter) = false

instance (m : Model) (t : Ty) : Decidable (m.Classless t) :=
  inferInstanceAs (Decidable (_ ∨ _ ∨ _))

theorem supertype?_error (target : DeclId) : m.supertype? .error target = none := by
  obtain ⟨up, hup⟩ := m.exists_climb target
  rw [hup, climb]

theorem rawClass_error : m.rawClass .error = .erroneous := by
  simp [rawClass, isBoolean, isSubtypeOf, supertype?_error, erasesToObject, Ty.simplify,
    Ty.isOptional, Ty.collapse, Ty.isComposite, Ty.erasesToException, Ty.withoutHint, rawName,
    Language.exceptionTy, Ty.of]

theorem rawClass_object (h : t.withoutHint = Language.objectTy) : m.rawClass t = .object := by
  cases t with
  | nominal d as o hint =>
    obtain ⟨rfl, rfl, rfl, -⟩ := Ty.nominal.inj h
    have hsimple : (Ty.nominal Language.object [] none hint).simplify =
        .nominal Language.object [] none hint := rfl
    rw [rawClass, erasesToObject, hsimple]
    rfl
  | union _ | inter _ | param _ | bottom | error => contradiction

theorem rawClass_param (m : Model) (p : ParamId) :
    m.rawClass (.param p) = .var (m.param p).name := by
  have hsimple : (Ty.param p).simplify = .param p := rfl
  have hparameter : (Ty.param p).isTypeParameter = true := rfl
  simp [rawClass, erasesToObject, hsimple, hparameter, Ty.isComposite, Ty.erasesToException,
    rawName, Ty.withoutHint, Language.exceptionTy, Ty.of]

/-- The name of a type is a class, a type variable or the placeholder. -/
theorem rawName_cases (m : Model) (t : Ty) :
    (∃ name, m.rawName t = .cls name) ∨ (∃ q, m.rawName t = .var (m.param q).name) ∨
      m.rawName t = .erroneous := by
  cases t with
  | nominal d _ _ _ => exact .inl ⟨_, rfl⟩
  | param p => exact .inr (.inl ⟨p, rfl⟩)
  | union _ | inter _ | bottom | error => exact .inr (.inr rfl)

theorem rawClass_cases (m : Model) (t : Ty) :
    (∃ name, m.rawClass t = .cls name) ∨ (∃ q, m.rawClass t = .var (m.param q).name) ∨
      m.rawClass t = .erroneous := by
  unfold rawClass
  split
  · exact .inl ⟨_, rfl⟩
  · split
    · exact m.rawName_cases _
    · split
      · exact .inl ⟨_, rfl⟩
      · split
        · exact m.rawName_cases _
        · exact m.rawName_cases _

theorem rawName_shape {shape : Ty} (h : m.iterableShape? t = some shape) :
    m.rawName shape.simplify = .cls (m.spelling Language.iterable .full) := by
  obtain ⟨as, o, hint, rfl⟩ := Ty.isOf_iff.mp (iterableShape?_isOf h)
  rw [TypeLowering.simplify_nominal rfl]
  rfl

/-- What is simplified to the erroneous type is no Boolean. -/
theorem isBoolean_of_simplify_error (h : t.simplify = .error) : m.isBoolean t = false := by
  cases hoptional : t.isOptional with
  | true => exact isBoolean_of_optional hoptional
  | false =>
    rw [Ty.simplify_of_not_optional hoptional] at h
    have hsole : t.collapse = .error := by
      obtain hself | ⟨p, hp⟩ := t.collapse.bareParam_cases
      · rw [← hself, h]
      · rw [hp] at h
        contradiction
    have hnone : m.supertype? t Language.boolean = none := by
      rw [← supertype?_collapse, hsole, supertype?_error]
    simp [isBoolean, isSubtypeOf, hnone]

/-- What is written raw is a class exactly for the types that have one. -/
theorem isPlainClass_rawClass_iff : (m.rawClass t).isPlainClass = true ↔ ¬ m.Classless t := by
  have hparam : t.simplify.isParam = true → m.erasesToObject t = false := by
    intro h
    cases hsimple : t.simplify <;> simp_all [Ty.isParam, erasesToObject]
  unfold rawClass
  cases herases : m.erasesToObject t with
  | true =>
    refine iff_of_true rfl ?_
    rintro (herror | hhides | ⟨hisParam, _⟩)
    · simp [erasesToObject, herror] at herases
    · rw [hhides.not_erases] at herases
      contradiction
    · rw [hparam hisParam] at herases
      contradiction
  | false =>
    simp only [Bool.false_eq_true, if_false]
    cases hcomposite : t.simplify.isComposite with
    | true =>
      simp only [if_true]
      cases hshape : m.iterableShape? t with
      | some shape =>
        rw [Option.getD_some, rawName_shape hshape]
        refine iff_of_true rfl ?_
        rintro (herror | hhides | ⟨hisParam, _⟩)
        · rw [herror] at hcomposite
          contradiction
        · rw [hhides.iterableShape?_eq_none] at hshape
          contradiction
        · cases hsimple : t.simplify <;> simp_all [Ty.isParam, Ty.isComposite]
      | none =>
        refine iff_of_false ?_ (not_not_intro (.inr (.inl ?_)))
        · cases hsimple : t.simplify <;> simp_all [Ty.isComposite, rawName, Target.Ty.isPlainClass]
        · exact hidesShape_of_iterableShape?_eq_none hcomposite herases hshape
    | false =>
      simp only [Bool.false_eq_true, if_false]
      have hhides : ¬ m.HidesShape t := fun h => by
        rw [h.isComposite] at hcomposite
        contradiction
      unfold Classless Ty.erasesToException
      cases hsimple : t.simplify with
      | union _ | inter _ =>
        rw [hsimple] at hcomposite
        contradiction
      | bottom => simp [erasesToObject, hsimple] at herases
      | error =>
        have hboolean := isBoolean_of_simplify_error (m := m) hsimple
        simp [hboolean, rawName, Target.Ty.isPlainClass, Ty.withoutHint, Language.exceptionTy,
          Ty.of]
      | nominal d as o h =>
        simp only [hhides, Ty.isParam, reduceCtorEq, false_and, or_self, not_false_eq_true,
          iff_true, Bool.false_eq_true]
        split
        · rfl
        · split <;> rfl
      | param p =>
        cases hboolean : m.isBoolean t && !t.isTypeParameter <;>
          simp [hhides, rawName, Target.Ty.isPlainClass, Ty.withoutHint, Ty.isParam,
            Language.exceptionTy, Language.booleanTy, Ty.of]

end Model

namespace Env

open TypeLowering

variable (env : Env)

/-! ## The class in a test -/

/-- The class in the test for a type. -/
def testedClass (t : Ty) : Target.Ty := env.model.rawClass (env.model.testedAs t.collapse)

/-- The class in a test can always be written. -/
theorem answer?_testedClass (t : Ty) :
    (env.lowerType t testPosition).answer? = some (env.testedClass t) := by
  unfold lowerType lowerType? testedClass
  rw [adjust_testPosition]
  by_cases herror : t.collapse = .error
  · have hself : env.model.testedAs .error = .error := rfl
    rw [step_of_error herror, herror, hself, Model.rawClass_error]
    rfl
  · cases herases : env.model.erasesToObject (env.model.testedAs t.collapse) with
    | true =>
      rw [step_of_erases (by rwa [resolveBound_ofTest]), Model.rawClass, if_pos herases]
      rfl
    | false =>
      rw [step_of_not_erases herror (by rwa [resolveBound_ofTest]), orObject_some,
        resolveBound_ofTest, answer?_writtenType_ofTest herases]

/-- `class C<S, T, U>` with `S` bounded by the integers, `T` by `S` and `U` by the
values that have an identity. -/
def boundedParams : Env :=
  .of {
    decls := #[{ Declaration.bare "C" .cls "demo" none with
      typeParams := [⟨10⟩, ⟨11⟩, ⟨12⟩], extended := some Language.objectTy }]
    params := #[
      ⟨"S", .invariant, [Language.integerTy], ⟨22⟩, false⟩,
      ⟨"T", .invariant, [.param ⟨10⟩], ⟨22⟩, false⟩,
      ⟨"U", .invariant, [Language.identifiableTy], ⟨22⟩, false⟩] } .standard

end Env

end TreeLowering
