import TreeLowering.Proofs.ClauseForm
import TreeLowering.Proofs.CurriedLayers
import TreeLowering.Proofs.TypePart
set_option autoImplicit false

/-!
# Proofs: the header of a function value

The class that a function value extends is given the result of the function, and
its `call` has the result as its type.  The first is an argument of a class that
is created, the second stands in the clause of an extended class, so the two are
written by different rules: an argument is looked at without its absent value
and without its hint, is one of several platform classes for the base exception
type, and has wildcards inside.

So `call` implements what the class declares only for some results.  Where no
argument can be written, the class is raw and `call` yields the root object.
-/

namespace TreeLowering

namespace Ty

variable {t : Ty}

theorem isVoidOrNothing_of_isComposite (h : t.isComposite = true) : t.isVoidOrNothing = false := by
  cases t with
  | union _ | inter _ => rfl
  | nominal _ _ _ _ | param _ | bottom | error => contradiction

theorem withoutHint_of_isComposite (h : t.isComposite = true) : t.withoutHint = t := by
  cases t with
  | union _ | inter _ => rfl
  | nominal _ _ _ _ | param _ | bottom | error => contradiction

theorem eq_nominal (h : t.decl?.isSome = true) : ∃ d as o hint, t = .nominal d as o hint := by
  cases t with
  | nominal d as o hint => exact ⟨d, as, o, hint, rfl⟩
  | union _ | inter _ | param _ | bottom | error => contradiction

theorem Settled.collapse_withoutHint (ht : t.Settled) : t.withoutHint.collapse = t.withoutHint := by
  cases t with
  | nominal _ _ _ _ => rfl
  | union _ | inter _ | param _ | bottom | error => exact ht.sole

/-- Without its absent value and without a hint, a type is simplified to what an
argument is looked at as; a type that does not admit the absent value keeps its
hint. -/
theorem simplify_collapse (ht : t.asArgument.Settled)
    (hvoid : t.asArgument.isVoidOrNothing = false) :
    t.collapse.simplify = t.asArgument.bareParam ∨
      t.collapse.isOptional = true ∧ t.collapse.simplify = t.asArgument.withoutHint.bareParam := by
  unfold asArgument at *
  generalize t.collapse = u at *
  cases hoptional : u.isOptional with
  | false =>
    simp only [hoptional, Bool.and_false, Bool.false_eq_true, if_false] at ht hvoid ⊢
    exact .inl (ht.simplify hvoid)
  | true =>
    by_cases hself : u = Language.voidTy
    · subst hself
      contradiction
    rw [if_pos (by simp [hself, hoptional])] at ht hvoid ⊢
    cases u with
    | nominal d as o h =>
      rw [simplify_of_optional hoptional]
      simp only [isOptional, Bool.or_eq_true, beq_iff_eq] at hoptional
      left
      obtain rfl | rfl := hoptional
      · rfl
      · rfl
    | union cases =>
      cases hpresent : presentCases cases with
      | nil =>
        rw [simplify_of_optional hoptional]
        simp only [nonNull, definite, hpresent]
        exact .inl rfl
      | cons only rest =>
        cases rest with
        | nil =>
          simp only [nonNull, hpresent] at ht hvoid ⊢
          refine .inr ⟨trivial, ?_⟩
          rw [simplify_of_sole hoptional hpresent hvoid, ht.collapse_withoutHint]
        | cons second rest =>
          rw [simplify_of_optional hoptional]
          simp only [nonNull, definite, hpresent]
          exact .inl rfl
    | inter _ | param _ | bottom | error => contradiction

/-- Where no type parameter stands in an intersection, simplification leaves what
an argument is looked at as, at most without its hint. -/
theorem simplify_collapse_bare (ht : t.asArgument.Settled)
    (hbare : t.asArgument.bareParam = t.asArgument)
    (hvoid : t.asArgument.isVoidOrNothing = false) :
    t.collapse.simplify = t.asArgument ∨
      t.collapse.isOptional = true ∧ t.collapse.simplify = t.asArgument.withoutHint := by
  obtain h | ⟨hoptional, h⟩ := simplify_collapse ht hvoid
  · exact .inl (h.trans hbare)
  · refine .inr ⟨hoptional, h.trans ?_⟩
    cases hp : t.asArgument with
    | nominal _ _ _ _ => rfl
    | union _ | inter _ | param _ | bottom | error => rwa [hp] at hbare

theorem asArgument_cases (t : Ty) :
    t.asArgument = t.collapse ∨
      t.collapse.isOptional = true ∧ t.asArgument = t.collapse.nonNull := by
  unfold asArgument
  split
  · rename_i h
    simp only [Bool.and_eq_true] at h
    exact .inr ⟨h.2, rfl⟩
  · exact .inl rfl

/-- What is left of an optional type holds the absent value only when it is the
type of everything. -/
theorem simplify_of_void (hvoid : t.asArgument.isVoidOrNothing = true) :
    t.asArgument = t.collapse ∨ t.collapse.simplify = Language.objectTy := by
  obtain h | ⟨hoptional, h⟩ := t.asArgument_cases
  · exact .inl h
  rw [h] at hvoid ⊢
  generalize t.collapse = u at *
  cases u with
  | nominal d as o hint =>
    rw [nonNull] at hvoid ⊢
    split
    · rename_i hd
      rw [if_pos hd] at hvoid
      contradiction
    · split
      · rename_i hne hd
        rw [if_neg hne, if_pos hd] at hvoid
        contradiction
      · exact .inl rfl
  | union cases =>
    cases hpresent : presentCases cases with
    | nil =>
      simp only [nonNull, hpresent] at hvoid
      contradiction
    | cons only rest =>
      cases rest with
      | nil =>
        simp only [nonNull, hpresent] at hvoid
        have honly : only.isOf Language.nothing = false := by
          have hmem : only ∈ presentCases cases := by simp [hpresent]
          simpa using (List.mem_filter.mp hmem).2
        simp only [isVoidOrNothing, honly, Bool.or_false] at hvoid
        rw [simplify_of_optional hoptional]
        simp only [definite, hpresent, hvoid, if_true]
        exact .inr rfl
      | cons _ _ =>
        simp only [nonNull, hpresent] at hvoid
        contradiction
  | inter _ | param _ | bottom | error => contradiction

end Ty

namespace Model

variable {m : Model}

theorem not_boolean_callable (result : Ty) (params : List Ty) :
    m.isBoolean (.callable result params) = false :=
  isBoolean_eq_false fun fuel =>
    supertypeWithin_eq_none (by decide) (fun t ht => by contradiction) fuel

/-- No iterable shape is a Boolean. -/
theorem widenBoolean_shape {t shape : Ty} (h : m.iterableShape? t = some shape) :
    ArgumentView.widenBoolean m shape = shape := by
  obtain ⟨as, o, hint, rfl⟩ := Ty.isOf_iff.mp (iterableShape?_isOf h)
  have hboolean : m.isBoolean (.nominal Language.iterable as o hint) = false :=
    isBoolean_eq_false fun fuel =>
      supertypeWithin_eq_none (by decide) (fun t ht => by contradiction) fuel
  simp [ArgumentView.widenBoolean, hboolean]

theorem widenBoolean_cases (m : Model) (t : Ty) :
    ArgumentView.widenBoolean m t = t ∨ ArgumentView.widenBoolean m t = Language.booleanTy := by
  unfold ArgumentView.widenBoolean
  split
  · exact .inr rfl
  · exact .inl rfl

/-- Without its absent value, a type erases as before. -/
theorem erasesToObject_asArgument {t : Ty} (ht : t.asArgument.Settled)
    (hbare : t.asArgument.bareParam = t.asArgument) :
    m.erasesToObject t.collapse = m.erasesToObject t.asArgument := by
  cases hvoid : t.asArgument.isVoidOrNothing with
  | true =>
    obtain hself | hobject := Ty.simplify_of_void hvoid
    · rw [hself]
    · obtain ⟨d, hint, hd, heq⟩ := ht.eq_of_isVoidOrNothing hvoid
      have hroot : m.erasesToObject t.asArgument = true := by
        rw [heq]
        obtain rfl | rfl := hd <;> rfl
      rw [hroot]
      exact erasesToObject_congr (u := Language.objectTy) hobject
  | false =>
    have hself : t.asArgument.simplify = t.asArgument := (ht.simplify hvoid).trans hbare
    obtain h | ⟨_, h⟩ := Ty.simplify_collapse_bare ht hbare hvoid
    · exact erasesToObject_congr (h.trans hself.symm)
    · unfold erasesToObject
      rw [h, hself]
      cases t.asArgument <;> rfl

/-- Without its absent value, a type is the base exception type as before. -/
theorem erasesToException_asArgument {t : Ty} (ht : t.asArgument.Settled)
    (hbare : t.asArgument.bareParam = t.asArgument)
    (hvoid : t.asArgument.isVoidOrNothing = false) :
    t.collapse.erasesToException = t.asArgument.erasesToException := by
  have hself : t.asArgument.simplify = t.asArgument := (ht.simplify hvoid).trans hbare
  unfold Ty.erasesToException
  rw [hself]
  obtain h | ⟨_, h⟩ := Ty.simplify_collapse_bare ht hbare hvoid
  · rw [h]
  · rw [h]
    cases t.asArgument <;> rfl

/-- The base exception type does not erase. -/
theorem not_exception_of_erases {t : Ty} (h : m.erasesToObject t = true) :
    t.erasesToException = false := by
  have hroot : Language.exception ∉ rootDecls := by decide
  unfold erasesToObject at h
  unfold Ty.erasesToException
  cases hsimple : t.simplify with
  | nominal d as o hint =>
    rw [hsimple] at h
    simp only [Bool.and_eq_true, List.contains_iff_mem] at h
    have hd : d ≠ Language.exception := fun hd => hroot (hd ▸ h.2)
    simp [Ty.withoutHint, Language.exceptionTy, Ty.of, hd]
  | union _ | inter _ | param _ | bottom | error => rfl

/-- A type that erases or is the base exception type is no Boolean. -/
theorem not_boolean_of_apart {t : Ty} (hsole : t.collapse = t)
    (hsingle : t.simplify.isComposite = false)
    (h : m.erasesToObject t = true ∨ t.erasesToException = true) : m.isBoolean t = false := by
  by_contra hboolean
  rw [Bool.not_eq_false] at hboolean
  obtain ⟨herases, hexception⟩ := kept_of_isBoolean hsole hsingle hboolean
  simp [herases, hexception] at h

/-- No type argument can be written for the type: it is the type of nothing, or
has no type of its own on the target. -/
def isNoArgument (m : Model) (t : Ty) : Bool :=
  t.asArgument == .bottom || t.asArgument.isComposite && (m.iterableShape? t.asArgument).isNone

/-- What is written for an argument is one type of the target. -/
theorem seenArgument_simple {t : Ty} (h : m.isNoArgument t = false) :
    m.seenArgument t ≠ .bottom ∧ (m.seenArgument t).isComposite = false := by
  simp only [isNoArgument, Bool.or_eq_false_iff, beq_eq_false_iff_ne] at h
  obtain ⟨hbottom, hshape⟩ := h
  unfold seenArgument
  cases hcomposite : t.asArgument.isComposite with
  | true =>
    rw [hcomposite, Bool.true_and, Option.isNone_eq_false_iff] at hshape
    obtain ⟨shape, hshape⟩ := Option.isSome_iff_exists.mp hshape
    rw [if_pos rfl, hshape, Option.getD_some, widenBoolean_shape hshape]
    obtain ⟨as, o, hint, rfl⟩ := Ty.isOf_iff.mp (iterableShape?_isOf hshape)
    exact ⟨by simp, rfl⟩
  | false =>
    rw [if_neg (by simp)]
    obtain heq | heq := m.widenBoolean_cases t.asArgument
    · rw [heq]
      exact ⟨hbottom, hcomposite⟩
    · rw [heq]
      exact ⟨by simp [Language.booleanTy, Ty.of], rfl⟩

end Model

namespace TypeLowering

variable {m : Model} {lower : Ty → TypeLowering Target.Ty} {ctx : Context} {small : Bool} {t : Ty}

/-! ## The class that is extended -/

/-- The class that a created object extends. -/
def createdClass (small : Bool) : Context :=
  { extending := true, creating := true, small := small }

theorem adjust_created (c : Config) :
    adjust c (.inExtends ∪ .inCreation) = createdClass c.smallIntegers := by
  unfold adjust
  cases c.smallIntegers <;> rfl

/-- What is written for the result of a callable type, if anything can be. -/
def resultArgument (m : Model) (lower : Ty → TypeLowering Target.Ty) (result : Ty) :
    TypeLowering (Option Target.Ty) :=
  if m.isNoArgument result then pure none
  else if m.seenArgument result = Language.voidTy then pure (some .object)
  else some <$> lower (m.seenArgument result)

/-- What is written for an argument of a created class.  Nothing varies there, and
an argument without a type forces the class raw. -/
theorem argument_creating (hcreating : ctx.creating = true) (owner : Ty) (p : ParamId) (t : Ty) :
    argument m lower ctx owner p (some t) =
      if m.isNoArgument t then pure none
      else if m.seenArgument t = Language.voidTy then
        pure (some (voidArgument ctx (m.param p).variance))
      else some <$> lower (m.seenArgument t) := by
  have hview : m.isNoArgument t = false →
      ArgumentView.of m ctx t = .as (m.seenArgument t) := by
    intro hno
    rw [view_eq, Model.seenArgument]
    split
    · rename_i hcomposite
      cases hshape : m.iterableShape? t.asArgument with
      | some shape => rfl
      | none => simp [Model.isNoArgument, hcomposite, hshape] at hno
    · rfl
  cases hno : m.isNoArgument t with
  | false =>
    obtain ⟨hbottom, hcomposite⟩ := Model.seenArgument_simple hno
    simp only [argument, hview hno, viewedArgument]
    simp [hbottom, hcomposite, wildcard, hcreating]
  | true =>
    simp only [argument, view_eq]
    simp only [Model.isNoArgument, Bool.or_eq_true, beq_iff_eq, Bool.and_eq_true,
      Option.isNone_iff_eq_none] at hno
    obtain hbottom | ⟨hcomposite, hshape⟩ := hno
    · have hself : ArgumentView.widenBoolean m .bottom = .bottom := rfl
      simp [hbottom, hself, Ty.isComposite, viewedArgument, hcreating, Language.voidTy, Ty.of]
    · simp [hcomposite, hshape, hcreating]

theorem argument_created (owner : Ty) (p : ParamId) (result : Ty) :
    argument m lower (createdClass small) owner p (some result) =
      resultArgument m lower result := argument_creating rfl owner p result

/-- A function value's class is given its result, and raw where nothing can be
written for it. -/
theorem classType_callable (result : Ty) (params : List Ty) :
    classType m lower (createdClass small) (.callable result params) =
      (fun a => .applied (.cls Support.abstractCallable) a.toList) <$>
        resultArgument m lower result := by
  have hsimple : (Ty.callable result params).simplify = .callable result params := rfl
  have hlifted : isLifted m (.callable result params) = false := rfl
  have hclass : classType m lower (createdClass small) (.callable result params) =
      segmentType m lower (createdClass small) (Chain.of m (.callable result params)) .erroneous 0
        (.callable result params) := by
    unfold classType
    dsimp only
    rw [hsimple, hlifted]
    exact bind_pure _
  have hcarries : (Chain.of m (.of Language.callable (result :: params))).firstWithArgs ≤ 0 := by
    have hlength : (Ty.of Language.callable (result :: params)).segments.length = 1 := rfl
    simp only [Chain.of, hlength]
    omega
  have hpairs : writtenArguments true
      (segmentArguments m Language.callable (result :: params)) =
        [(Language.callableReturn, some result)] := rfl
  have harguments : ∀ owner, typeArguments m lower (createdClass small) true owner
      (segmentArguments m Language.callable (result :: params)) =
        (Option.map fun a => [a]) <$> resultArgument m lower result := by
    intro owner
    rw [typeArguments, hpairs, arguments, argument_created, map_eq_pure_bind]
    refine bind_congr fun a => ?_
    cases a with
    | none => rfl
    | some a => rfl
  have hcallable : (Ty.of Language.callable (result :: params)).isCallable = true := rfl
  rw [hclass, Ty.callable, Ty.of, segmentType, ← Ty.of, if_pos hcarries, hcallable, harguments,
    bind_map_left, map_eq_pure_bind]
  refine bind_congr fun a => ?_
  cases a with
  | none => rfl
  | some a => rfl

/-! ## One step of a lowering -/

theorem orObject_step_of_error (h : t.collapse = .error) :
    orObject (step m lower ctx t) = pure .erroneous := by
  rw [step_of_error h]
  rfl

theorem orObject_step_of_erases (h : m.erasesToObject t.collapse = true) :
    orObject (step m lower ctx t) = pure .object := by
  rw [step_of_erases (by rwa [resolveBound_of_erases h])]
  cases ctx.satisfies <;> rfl

/-- Where no type parameter stands for its bound and no type is primitive. -/
theorem orObject_step_of_not_erases (hbound : ctx.firstBound = false) (herror : t.collapse ≠ .error)
    (h : m.erasesToObject t.collapse = false) :
    orObject (step m lower ctx t) = writtenType m lower ctx t.collapse := by
  have hself : resolveBound m ctx t.collapse = t.collapse :=
    resolveBound_of_not_param (by simp [hbound])
  rw [step_of_not_erases herror (by rwa [hself]), Env.orObject_some, hself]

/-- A type that is neither composite nor the base exception type is written as
its class. -/
theorem writtenType_class (hprimitives : ctx.allowsPrimitives = false)
    (hcomposite : t.simplify.isComposite = false) (hexception : t.erasesToException = false) :
    writtenType m lower ctx t = classType m lower ctx (ArgumentView.widenBoolean m t) := by
  unfold writtenType ArgumentView.widenBoolean
  simp only [hcomposite, hexception, hprimitives, Bool.false_and, Bool.false_eq_true, if_false]
  split <;> rfl

theorem answer?_classType_boolean (hctx : NamesInFull ctx) :
    (classType m lower ctx Language.booleanTy).answer? =
      some (.cls (m.spelling Language.boolean .full)) := by
  rw [classType_boolean, hctx.spellingIn]
  rfl

/-! ## The result and the argument -/

/-- A type is written alike in the clause of an extended class and among the
arguments of a class. -/
def WrittenAlike (m : Model) (lower : Ty → TypeLowering Target.Ty) (t : Ty) : Prop :=
  StringAlike m t ∧ ∀ x ∈ classPairs m t, AlikeArgument m lower x

/-- The result type of a function value's method is the argument of the class
that it extends. -/
structure ResultAlike (m : Model) (lower : Ty → TypeLowering Target.Ty) (small : Bool) (t : Ty) :
    Prop where
  /-- The base exception type has a platform class for each position. -/
  exception : t.asArgument.erasesToException = false
  shape : t.asArgument.isComposite = true →
    ∀ shape ∈ m.iterableShape? t.asArgument, WrittenAlike m lower shape
  named : t.asArgument.decl?.isSome = true → m.erasesToObject t.asArgument = false →
    m.isBoolean t.asArgument = false → WrittenAlike m lower t.collapse
  /-- A case of the Boolean type is widened to it only where it is not optional. -/
  boolean : t.asArgument.decl?.isSome = true → m.isBoolean t.asArgument = true →
    t.collapse.isOptional = true →
      (classType m lower (extendsClause small) t.collapse).answer? =
        some (.cls (m.spelling Language.boolean .full))

/-- A class other than the base exception type is compared as a case of the
Boolean type, or as it is written. -/
theorem resultAlike_class_iff (hclass : t.asArgument.decl?.isSome = true)
    (hexception : t.asArgument.erasesToException = false) :
    ResultAlike m lower small t ↔
      (m.erasesToObject t.asArgument = false → m.isBoolean t.asArgument = false →
        WrittenAlike m lower t.collapse) ∧
      (m.isBoolean t.asArgument = true → t.collapse.isOptional = true →
        (classType m lower (extendsClause small) t.collapse).answer? =
          some (.cls (m.spelling Language.boolean .full))) := by
  constructor
  · exact fun h => ⟨h.named hclass, h.boolean hclass⟩
  · rintro ⟨hnamed, hboolean⟩
    refine ⟨hexception, fun hcomposite => ?_, fun _ => hnamed, fun _ => hboolean⟩
    obtain ⟨d, as, o, h, hp⟩ := Ty.eq_nominal hclass
    rw [hp] at hcomposite
    contradiction

/-- What is written for an argument that can be written. -/
def seenType (m : Model) (lower : Ty → TypeLowering Target.Ty) (small : Bool) (t : Ty) :
    TypeLowering Target.Ty :=
  if m.seenArgument t = Language.voidTy then pure .object
  else orObject (step m lower (amongArguments small) (m.seenArgument t))

theorem simplify_nominal_simple (d : DeclId) (as : List Ty) (o : Option Ty) (h : Option Hint) :
    (Ty.nominal d as o h).simplify.isComposite = false := by
  cases hoptional : (Ty.nominal d as o h).isOptional with
  | false =>
    rw [simplify_nominal hoptional]
    rfl
  | true =>
    rw [Ty.simplify_of_optional hoptional]
    simp only [Ty.isOptional, Bool.or_eq_true, beq_iff_eq] at hoptional
    obtain rfl | rfl := hoptional <;> rfl

theorem collapse_ne_error (h : t.asArgument ≠ .error) : t.collapse ≠ .error := by
  intro herror
  have hself : t.asArgument = .error := by
    unfold Ty.asArgument
    rw [herror]
    rfl
  contradiction

/-- What erases is given as the root object. -/
theorem result_alike_of_erases (ht : t.asArgument.Settled)
    (hclass : t.asArgument.decl?.isSome = true)
    (herases : m.erasesToObject t.asArgument = true) :
    AlikeIff (ResultAlike m lower small t) (orObject (step m lower (extendsClause small) t))
      (seenType m lower small t) := by
  obtain ⟨d, as, o, h, hp⟩ := Ty.eq_nominal hclass
  have hboolean : m.isBoolean t.asArgument = false :=
    Model.not_boolean_of_apart ht.sole (by rw [hp]; exact simplify_nominal_simple d as o h)
      (.inl herases)
  have hbare : t.asArgument.bareParam = t.asArgument := by rw [hp]; rfl
  have hsimple : t.asArgument.isComposite = false := by rw [hp]; rfl
  have hseen : m.seenArgument t = t.asArgument := by
    simp [Model.seenArgument, ArgumentView.widenBoolean, hsimple, hboolean]
  have halike : ResultAlike m lower small t := by
    simp [resultAlike_class_iff hclass (Model.not_exception_of_erases herases), herases, hboolean]
  have hgiven : orObject (step m lower (extendsClause small) t) = pure .object :=
    orObject_step_of_erases (by rwa [Model.erasesToObject_asArgument ht hbare])
  have hargument : seenType m lower small t = pure .object := by
    unfold seenType
    split
    · rfl
    · rw [hseen]
      exact orObject_step_of_erases (by rwa [ht.sole])
  rw [hgiven, hargument]
  exact .refl halike _

theorem AlikeIff.answer {α : Type} {P : Prop} {x y z : TypeLowering α} (h : AlikeIff P x y)
    (heq : y.answer? = z.answer?) : AlikeIff P x z :=
  fun a b ha hb => h a b ha (heq.trans hb)

theorem simplify_collapse_simple (ht : t.asArgument.Settled)
    (hbare : t.asArgument.bareParam = t.asArgument)
    (hvoid : t.asArgument.isVoidOrNothing = false) :
    t.collapse.simplify.isComposite = t.asArgument.isComposite := by
  obtain h | ⟨_, h⟩ := Ty.simplify_collapse_bare ht hbare hvoid
  · rw [h]
  · rw [h]
    cases t.asArgument <;> rfl

/-- A clause names the platform's base class for the base exception type, and
arguments the class of all that can be thrown. -/
theorem result_alike_of_exception (ht : t.asArgument.Settled)
    (hclass : t.asArgument.decl?.isSome = true)
    (hexception : t.asArgument.erasesToException = true) :
    AlikeIff (ResultAlike m lower small t) (orObject (step m lower (extendsClause small) t))
      (seenType m lower small t) := by
  obtain ⟨d, as, o, h, hp⟩ := Ty.eq_nominal hclass
  have hbare : t.asArgument.bareParam = t.asArgument := by rw [hp]; rfl
  have hsimple : t.asArgument.isComposite = false := by rw [hp]; rfl
  have hkept : m.erasesToObject t.asArgument = false := by
    by_contra hkept
    rw [Bool.not_eq_false] at hkept
    rw [Model.not_exception_of_erases hkept] at hexception
    contradiction
  have hvoid := Model.isVoidOrNothing_of_not_erases ht hkept
  have hboolean : m.isBoolean t.asArgument = false :=
    Model.not_boolean_of_apart ht.sole (by rw [hp]; exact simplify_nominal_simple d as o h)
      (.inr hexception)
  have herror : t.asArgument ≠ .error := by simp [hp]
  have hgiven : orObject (step m lower (extendsClause small) t) =
      pure (.cls Support.baseException) := by
    rw [orObject_step_of_not_erases rfl (collapse_ne_error herror)
      (by rwa [Model.erasesToObject_asArgument ht hbare]), writtenType,
      simplify_collapse_simple ht hbare hvoid, hsimple,
      Model.erasesToException_asArgument ht hbare hvoid, hexception]
    rfl
  have hseen : m.seenArgument t = t.asArgument := by
    simp [Model.seenArgument, ArgumentView.widenBoolean, hsimple, hboolean]
  have hargument : seenType m lower small t = pure (.cls Support.throwable) := by
    have hself : t.asArgument.simplify = t.asArgument := (ht.simplify hvoid).trans hbare
    have hne : t.asArgument ≠ Language.voidTy := by
      intro heq
      rw [heq] at hvoid
      contradiction
    rw [seenType, hseen, if_neg hne, orObject_step_of_not_erases rfl (by rwa [ht.sole])
      (by rwa [ht.sole]), writtenType, ht.sole, hself, hsimple, hexception]
    rfl
  rw [hgiven, hargument]
  rintro a b ⟨⟩ ⟨⟩
  refine iff_of_false (by decide) fun halike => ?_
  rw [halike.exception] at hexception
  contradiction

/-- What is no exception and has a type of its own is written as a class in both
positions; the case of the Boolean type is widened where it is seen. -/
theorem result_of_class (m : Model) (lower : Ty → TypeLowering Target.Ty) (small : Bool)
    (ht : t.asArgument.Settled)
    (hbare : t.asArgument.bareParam = t.asArgument) (hsimple : t.asArgument.isComposite = false)
    (herror : t.asArgument ≠ .error) (hkept : m.erasesToObject t.asArgument = false)
    (hexception : t.asArgument.erasesToException = false) :
    orObject (step m lower (extendsClause small) t) =
        classType m lower (extendsClause small) (ArgumentView.widenBoolean m t.collapse) ∧
      seenType m lower small t =
        classType m lower (amongArguments small) (ArgumentView.widenBoolean m t.asArgument) := by
  have hvoid := Model.isVoidOrNothing_of_not_erases ht hkept
  have hself : t.asArgument.simplify = t.asArgument := (ht.simplify hvoid).trans hbare
  constructor
  · rw [orObject_step_of_not_erases rfl (collapse_ne_error herror)
      (by rwa [Model.erasesToObject_asArgument ht hbare])]
    exact writtenType_class rfl (by rwa [simplify_collapse_simple ht hbare hvoid])
      (by rwa [Model.erasesToException_asArgument ht hbare hvoid])
  · have hseen : m.seenArgument t = ArgumentView.widenBoolean m t.asArgument := by
      simp [Model.seenArgument, hsimple]
    rw [seenType, hseen]
    obtain heq | heq := m.widenBoolean_cases t.asArgument
    · have hne : t.asArgument ≠ Language.voidTy := by
        intro heq
        rw [heq] at hvoid
        contradiction
      rw [heq, if_neg hne, orObject_step_of_not_erases rfl (by rwa [ht.sole]) (by rwa [ht.sole]),
        ht.sole, writtenType_class rfl (by rwa [hself]) hexception, heq]
    · have hboolean : ArgumentView.widenBoolean m Language.booleanTy = Language.booleanTy := by
        simp [ArgumentView.widenBoolean]
      have hne : Language.booleanTy ≠ Language.voidTy := by decide
      rw [heq, if_neg hne, orObject_step_of_not_erases rfl (by decide) rfl,
        writtenType_class rfl rfl rfl]
      exact congrArg _ hboolean

theorem result_alike_param {q : ParamId} (hp : t.asArgument = .param q) :
    AlikeIff (ResultAlike m lower small t) (orObject (step m lower (extendsClause small) t))
      (seenType m lower small t) := by
  have ht : t.asArgument.Settled := by
    rw [hp]
    exact ⟨rfl, rfl, nofun⟩
  have hparam : t.collapse.isTypeParameter = true := by
    obtain h | ⟨_, h⟩ := t.asArgument_cases
    · rw [← h, hp]
      rfl
    · rw [Ty.isTypeParameter, ← h, hp]
      rfl
  have hvar : ∀ ctx, classType m lower ctx (.param q) = pure (.var (m.param q).name) := by
    intro ctx
    have hsimple : (Ty.param q).simplify = .param q := rfl
    simp [classType, hsimple, Ty.segments, Ty.args, bareType]
  have halike : ResultAlike m lower small t := by
    constructor <;> simp [hp, Ty.isComposite, Ty.decl?]
    rfl
  have hsimple : t.collapse.simplify = .param q := by
    obtain h | ⟨_, h⟩ := Ty.simplify_collapse_bare ht (by rw [hp]; rfl) (by rw [hp]; rfl)
    · rw [h, hp]
    · rw [h, hp]
      rfl
  obtain ⟨hgiven, hargument⟩ := result_of_class m lower small ht
    (by rw [hp]; rfl) (by rw [hp]; rfl) (by simp [hp]) (by rw [hp]; rfl) (by rw [hp]; rfl)
  have hwidened : ArgumentView.widenBoolean m t.collapse = t.collapse := by
    simp [ArgumentView.widenBoolean, hparam]
  have hwidened' : ArgumentView.widenBoolean m (.param q) = .param q := by
    simp [ArgumentView.widenBoolean, Ty.isTypeParameter, Ty.nonNull, Ty.isParam]
  have hcongr : classType m lower (extendsClause small) t.collapse =
      classType m lower (extendsClause small) (.param q) :=
    classType_congr hsimple
  rw [hgiven, hargument, hwidened, hp, hwidened', hcongr, hvar, hvar]
  exact .refl halike _

theorem result_alike_error (hp : t.asArgument = .error) :
    AlikeIff (ResultAlike m lower small t) (orObject (step m lower (extendsClause small) t))
      (seenType m lower small t) := by
  have ht : t.asArgument.Settled := by
    rw [hp]
    exact ⟨rfl, rfl, nofun⟩
  have hbare : t.asArgument.bareParam = t.asArgument := by rw [hp]; rfl
  have hvoid : t.asArgument.isVoidOrNothing = false := by rw [hp]; rfl
  have halike : ResultAlike m lower small t := by
    constructor <;> simp [hp, Ty.isComposite, Ty.decl?]
    rfl
  have hseen : seenType m lower small t = pure .erroneous := by
    have hboolean : m.isBoolean .error = false := by
      have hbasic := m.isBasic_error
      simp only [Model.isBasic, Bool.or_eq_false_iff] at hbasic
      exact hbasic.1.1.1.2
    have hself : m.seenArgument t = .error := by
      simp [Model.seenArgument, hp, Ty.isComposite, ArgumentView.widenBoolean, hboolean]
    rw [seenType, hself, if_neg (by decide)]
    exact orObject_step_of_error rfl
  have hgiven : orObject (step m lower (extendsClause small) t) = pure .erroneous := by
    obtain heq | ⟨hoptional, _⟩ := t.asArgument_cases
    · exact orObject_step_of_error (heq.symm.trans hp)
    · have herror : t.collapse ≠ .error := by
        intro herror
        rw [herror] at hoptional
        contradiction
      have hsimple : t.collapse.simplify = .error := by
        obtain h | ⟨_, h⟩ := Ty.simplify_collapse_bare ht hbare hvoid <;> rw [h, hp]
        rfl
      have hwidened : ArgumentView.widenBoolean m t.collapse = t.collapse := by
        simp [ArgumentView.widenBoolean, Model.isBoolean_of_optional hoptional]
      rw [orObject_step_of_not_erases rfl herror
          (by rw [Model.erasesToObject_asArgument ht hbare, hp]; rfl),
        writtenType_class rfl (by rw [hsimple]; rfl)
          (by rw [Model.erasesToException_asArgument ht hbare hvoid, hp]; rfl), hwidened,
        classType_of_no_class (by rw [hsimple]; rfl) (by rw [hsimple]; rfl)]
  rw [hgiven, hseen]
  exact .refl halike _

/-- A class that is no case of the Boolean type is written as it is in both
positions. -/
theorem result_alike_of_named (hlower : ∀ t u, (lower t).answer? = some u → u.isWildcard = false)
    (ht : t.asArgument.Settled) (hclass : t.asArgument.decl?.isSome = true)
    (hkept : m.erasesToObject t.asArgument = false)
    (hexception : t.asArgument.erasesToException = false)
    (hboolean : m.isBoolean t.asArgument = false) :
    AlikeIff (ResultAlike m lower small t) (orObject (step m lower (extendsClause small) t))
      (seenType m lower small t) := by
  obtain ⟨d, as, o, h, hp⟩ := Ty.eq_nominal hclass
  have hbare : t.asArgument.bareParam = t.asArgument := by rw [hp]; rfl
  have hsimple : t.asArgument.isComposite = false := by rw [hp]; rfl
  have hvoid := Model.isVoidOrNothing_of_not_erases ht hkept
  have hgiven : ArgumentView.widenBoolean m t.collapse = t.collapse := by
    have hnone : m.isBoolean t.collapse = false := by
      obtain heq | ⟨hoptional, _⟩ := t.asArgument_cases
      · rwa [← heq]
      · exact Model.isBoolean_of_optional hoptional
    simp [ArgumentView.widenBoolean, hnone]
  have hseen : ArgumentView.widenBoolean m t.asArgument = t.asArgument := by
    simp [ArgumentView.widenBoolean, hboolean]
  -- The argument is looked at without the absent value, which may take its hint along.
  have hargument : (classType m lower (amongArguments small) t.collapse).answer? =
      (classType m lower (amongArguments small) t.asArgument).answer? := by
    have hself : t.asArgument.simplify = t.asArgument := (ht.simplify hvoid).trans hbare
    obtain heq | ⟨_, heq⟩ := Ty.simplify_collapse_bare ht hbare hvoid
    · rw [classType_congr (heq.trans hself.symm)]
    · have hpresent : (Ty.nominal d as o h).isOptional = false := by
        by_contra hoptional
        rw [hp, erases_of_isOptional (by simpa using hoptional)] at hkept
        contradiction
      rw [hp] at heq ⊢
      have hnone : (Ty.nominal d as o none).isOptional = false := hpresent
      have hhint : t.collapse.simplify = (Ty.nominal d as o none).simplify :=
        heq.trans (simplify_nominal hnone).symm
      rw [classType_congr hhint]
      exact answer?_classType_hint hpresent
  have halike : WrittenAlike m lower t.collapse ↔ ResultAlike m lower small t := by
    simp [resultAlike_class_iff hclass hexception, hkept, hboolean]
  obtain ⟨hresult, hargument'⟩ := result_of_class m lower small ht hbare hsimple (by simp [hp])
    hkept hexception
  rw [hresult, hargument', hgiven, hseen]
  exact ((classType_alike hlower t.collapse).congr halike).answer hargument

/-- A case of the Boolean type is written as that type, except for a result that
may be absent. -/
theorem result_alike_of_boolean (ht : t.asArgument.Settled)
    (hclass : t.asArgument.decl?.isSome = true) (hkept : m.erasesToObject t.asArgument = false)
    (hexception : t.asArgument.erasesToException = false)
    (hboolean : m.isBoolean t.asArgument = true) :
    AlikeIff (ResultAlike m lower small t) (orObject (step m lower (extendsClause small) t))
      (seenType m lower small t) := by
  obtain ⟨d, as, o, h, hp⟩ := Ty.eq_nominal hclass
  have hbare : t.asArgument.bareParam = t.asArgument := by rw [hp]; rfl
  have hsimple : t.asArgument.isComposite = false := by rw [hp]; rfl
  have hseen : ArgumentView.widenBoolean m t.asArgument = Language.booleanTy := by
    have hparam : t.asArgument.isTypeParameter = false := by
      rw [hp, Ty.isTypeParameter, Ty.nonNull]
      split
      · rfl
      · split <;> rfl
    simp [ArgumentView.widenBoolean, hboolean, hparam]
  have halike : (t.collapse.isOptional = true →
      (classType m lower (extendsClause small) t.collapse).answer? =
        some (.cls (m.spelling Language.boolean .full))) ↔ ResultAlike m lower small t := by
    simp [resultAlike_class_iff hclass hexception, hboolean]
  obtain ⟨hresult, hargument⟩ := result_of_class m lower small ht hbare hsimple (by simp [hp])
    hkept hexception
  rw [hresult, hargument, hseen]
  refine AlikeIff.congr (fun a b ha hb => ?_) halike
  have hamong : NamesInFull (amongArguments small) := ⟨rfl, rfl, rfl⟩
  have hclause : NamesInFull (extendsClause small) := ⟨rfl, rfl, rfl⟩
  rw [answer?_classType_boolean hamong] at hb
  cases hb
  cases hoptional : t.collapse.isOptional with
  | false =>
    have hself : t.asArgument = t.collapse :=
      t.asArgument_cases.resolve_right (by simp [hoptional])
    rw [← hself, hseen, answer?_classType_boolean hclause] at ha
    cases ha
    simp
  | true =>
    have hwidened : ArgumentView.widenBoolean m t.collapse = t.collapse := by
      simp [ArgumentView.widenBoolean, Model.isBoolean_of_optional hoptional]
    rw [hwidened] at ha
    simp [ha]

/-- A result that is a union or intersection is written as its iterable shape. -/
theorem result_of_shape (ht : t.asArgument.Settled) (hbare : t.asArgument.bareParam = t.asArgument)
    (hcomposite : t.asArgument.isComposite = true) {shape : Ty}
    (hshape : m.iterableShape? t.asArgument = some shape) :
    orObject (step m lower (extendsClause small) t) =
      classType m lower (extendsClause small) shape := by
  have hvoid := Ty.isVoidOrNothing_of_isComposite hcomposite
  have hself : t.asArgument.simplify = t.asArgument := (ht.simplify hvoid).trans hbare
  have hsimple : t.collapse.simplify = t.asArgument := by
    obtain h | ⟨_, h⟩ := Ty.simplify_collapse_bare ht hbare hvoid
    · exact h
    · exact h.trans (Ty.withoutHint_of_isComposite hcomposite)
  have hkept : m.erasesToObject t.collapse = false := by
    rw [Model.erasesToObject_asArgument ht hbare,
      Model.erasesToObject_of_isComposite (by rwa [hself]), hself, hshape]
    rfl
  have hshape' : m.iterableShape? t.collapse = some shape := by
    rw [Model.iterableShape?_eq_of_isComposite (by rwa [hsimple]), hsimple, ← hshape,
      Model.iterableShape?_eq_of_isComposite (by rwa [hself]), hself]
  have herror : t.asArgument ≠ .error := by
    intro herror
    rw [herror] at hcomposite
    contradiction
  rw [orObject_step_of_not_erases rfl (collapse_ne_error herror) hkept,
    writtenType_of_shape (by rwa [hsimple]) hshape']

/-- An argument that is a union or intersection is written as its iterable
shape. -/
theorem seenType_of_shape (hcomposite : t.asArgument.isComposite = true) {shape : Ty}
    (hshape : m.iterableShape? t.asArgument = some shape) :
    seenType m lower small t = classType m lower (amongArguments small) shape := by
  have hseen : m.seenArgument t = shape := by
    simp [Model.seenArgument, hcomposite, hshape, Model.widenBoolean_shape hshape]
  obtain ⟨as, o, hint, hiterable⟩ := Ty.isOf_iff.mp (Model.iterableShape?_isOf hshape)
  have hshown : shape.simplify = .nominal Language.iterable as o hint := by
    rw [hiterable]
    exact simplify_nominal rfl
  have hnames : Language.iterable ≠ Language.void ∧ Language.iterable ≠ Language.exception ∧
      Language.iterable ∉ Model.rootDecls := by
    decide
  have hcollapse : shape.collapse = shape := by rw [hiterable]; rfl
  have hne : shape ≠ Language.voidTy := by
    rw [hiterable]
    exact fun heq => hnames.1 (Ty.nominal.inj heq).1
  have hkept : m.erasesToObject shape = false := by
    simp [Model.erasesToObject, hshown, hnames.2.2]
  have hother : shape.erasesToException = false := by
    simp [Ty.erasesToException, hshown, Ty.withoutHint, Language.exceptionTy, Ty.of, hnames.2.1]
  have herror : shape.collapse ≠ .error := by
    rw [hcollapse, hiterable]
    simp
  rw [seenType, hseen, if_neg hne, orObject_step_of_not_erases rfl herror
    (by rwa [hcollapse]), hcollapse, writtenType_class rfl (by rw [hshown]; rfl) hother,
    Model.widenBoolean_shape hshape]

/-- A union or intersection is compared as its iterable shape is written. -/
theorem resultAlike_shape_iff (ht : t.asArgument.Settled)
    (hbare : t.asArgument.bareParam = t.asArgument) (hcomposite : t.asArgument.isComposite = true)
    {shape : Ty} (hshape : m.iterableShape? t.asArgument = some shape) :
    ResultAlike m lower small t ↔ WrittenAlike m lower shape := by
  have hself : t.asArgument.simplify = t.asArgument :=
    (ht.simplify (Ty.isVoidOrNothing_of_isComposite hcomposite)).trans hbare
  have hclass : t.asArgument.decl?.isSome = false := by
    by_contra hclass
    rw [Bool.not_eq_false] at hclass
    obtain ⟨d, as, o, h, hp⟩ := Ty.eq_nominal hclass
    rw [hp] at hcomposite
    contradiction
  have hexception : t.asArgument ≠ Language.exceptionTy := by
    intro hexception
    rw [hexception] at hcomposite
    contradiction
  constructor
  · exact fun halike => halike.shape hcomposite shape hshape
  · intro halike
    constructor
    · simpa [Ty.erasesToException, hself, Ty.withoutHint_of_isComposite hcomposite] using hexception
    · intro _ other hother
      rw [hshape] at hother
      cases hother
      exact halike
    · simp [hclass]
    · simp [hclass]

/-- Where something can be written for the result of a function value, the result
type of its method is just that exactly under the condition. -/
theorem result_alike (hlower : ∀ t u, (lower t).answer? = some u → u.isWildcard = false)
    (ht : t.asArgument.Settled) (hbare : t.asArgument.bareParam = t.asArgument)
    (hsome : m.isNoArgument t = false) :
    AlikeIff (ResultAlike m lower small t) (orObject (step m lower (extendsClause small) t))
      (seenType m lower small t) := by
  simp only [Model.isNoArgument, Bool.or_eq_false_iff, beq_eq_false_iff_ne] at hsome
  cases hp : t.asArgument with
  | nominal d as o h =>
    have hclass : t.asArgument.decl?.isSome = true := by rw [hp]; rfl
    cases herases : m.erasesToObject t.asArgument with
    | true => exact result_alike_of_erases ht hclass herases
    | false =>
      cases hexception : t.asArgument.erasesToException with
      | true => exact result_alike_of_exception ht hclass hexception
      | false =>
        cases hboolean : m.isBoolean t.asArgument with
        | true => exact result_alike_of_boolean ht hclass herases hexception hboolean
        | false => exact result_alike_of_named hlower ht hclass herases hexception hboolean
  | param q => exact result_alike_param hp
  | error => exact result_alike_error hp
  | bottom => exact absurd hp hsome.1
  | union _ | inter _ =>
    have hcomposite : t.asArgument.isComposite = true := by rw [hp]; rfl
    obtain ⟨shape, hshape⟩ : ∃ shape, m.iterableShape? t.asArgument = some shape := by
      simpa [hcomposite, Option.isNone_eq_false_iff, Option.isSome_iff_exists] using hsome.2
    rw [result_of_shape ht hbare hcomposite hshape, seenType_of_shape hcomposite hshape]
    exact (classType_alike hlower shape).congr
      (resultAlike_shape_iff ht hbare hcomposite hshape).symm

/-- Where nothing can be written for the result of a function value, its method
yields the root object. -/
theorem result_of_isNoArgument (ht : t.asArgument.Settled)
    (hbare : t.asArgument.bareParam = t.asArgument) (hno : m.isNoArgument t = true) :
    orObject (step m lower (extendsClause small) t) = pure .object := by
  refine orObject_step_of_erases ?_
  rw [Model.erasesToObject_asArgument ht hbare]
  simp only [Model.isNoArgument, Bool.or_eq_true, beq_iff_eq, Bool.and_eq_true] at hno
  obtain hbottom | ⟨hcomposite, hnone⟩ := hno
  · rw [hbottom]
    rfl
  · have hvoid := Ty.isVoidOrNothing_of_isComposite hcomposite
    have hself : t.asArgument.simplify = t.asArgument := (ht.simplify hvoid).trans hbare
    rw [Model.erasesToObject_of_isComposite (by rwa [hself]), hself, hnone]

end TypeLowering

/-! ## The header -/

namespace Target

/-- A method with the result type implements the `call` of the class: the class
of function values is given that type, or is raw and its `call` yields the root
object. -/
def Implements (base callResult : Ty) : Prop :=
  base = .cls Support.abstractCallable ∧ callResult = .object ∨
    base = .apply (.cls Support.abstractCallable) [callResult]

instance (base callResult : Ty) : Decidable (Implements base callResult) :=
  inferInstanceAs (Decidable (_ ∨ _))

end Target

namespace Env

open TypeLowering

variable {env : Env}

/-- An argument with an answer is lowered by one step over arguments of its own
depth. -/
theorem answer?_argumentType {t : Ty} {u : Target.Ty}
    (h : (argumentType env env.depth t).answer? = some u) :
    (orObject (step env.model (argumentType env env.depth)
      (amongArguments env.config.smallIntegers) t)).answer? = some u := by
  have hdeeper : argumentType env (env.depth + 1) t = argumentType env env.depth t :=
    env.argumentType_mono (Nat.le_succ _) (by rw [answers, h]; rfl)
  rwa [← adjust_typeArgument, ← argumentType_succ, hdeeper]

theorem argumentType_not_wildcard {t : Ty} {u : Target.Ty}
    (h : (argumentType env env.depth t).answer? = some u) : u.isWildcard = false :=
  have hplaced := (argumentType_ensures (placedAt_formation _ .never) env.depth
    fun v _ => writes_placedAt env.model v).answer h
  Target.Ty.isWildcard_of_fitsAt (Target.Ty.placedAt_iff.mp (hplaced .whole)).1

theorem lowerType_callable (env : Env) (result : Ty) (params : List Ty) :
    env.lowerType (.callable result params) (.inExtends ∪ .inCreation) =
      (fun a => .applied (.cls Support.abstractCallable) a.toList) <$>
        resultArgument env.model (argumentType env env.depth) result := by
  have hkept : env.model.erasesToObject (.callable result params) = false := rfl
  have hwidened : ArgumentView.widenBoolean env.model (.callable result params) =
      .callable result params := by
    simp [ArgumentView.widenBoolean, Model.not_boolean_callable]
  have hcollapse : (Ty.callable result params).collapse = .callable result params := rfl
  rw [lowerType, lowerType?, adjust_created,
    orObject_step_of_not_erases rfl (by intro h; cases h) hkept, hcollapse,
    writtenType_class rfl rfl rfl, hwidened, classType_callable]

/-- A function value without a result looks at none of the types of its
parameters. -/
theorem answer?_buildCallable_void (env : Env) (params : List Ty) (arity : Nat)
    (body : List Target.Stmt) :
    (env.buildCallable (.callable Language.voidTy params) arity body).answer? =
      some (.functionObject (.apply (.cls Support.abstractCallable) [.object])
        (env.model.display (.callable Language.voidTy params)) .object arity body) := by
  have hargument : resultArgument env.model (argumentType env env.depth) Language.voidTy =
      pure (some .object) := by
    have hseen : env.model.seenArgument Language.voidTy = Language.voidTy := by
      have hboolean : env.model.isBoolean Language.voidTy = false :=
        Model.isBoolean_eq_false Model.not_boolean_void
      have hself : Language.voidTy.asArgument = Language.voidTy := rfl
      have hsimple : Language.voidTy.isComposite = false := rfl
      simp [Model.seenArgument, ArgumentView.widenBoolean, hself, hsimple, hboolean]
    have hsome : env.model.isNoArgument Language.voidTy = false := rfl
    rw [resultArgument, hsome, if_neg (by simp), if_pos hseen]
  refine answer?_buildCallable.mpr ⟨.object, _, ?_, ?_, rfl⟩
  · have hobject : env.lowerType Language.voidTy .inExtends = pure .object :=
      orObject_step_of_erases rfl
    rw [Model.callableResult?_callable, Option.getD_some, hobject]
    rfl
  · rw [lowerType_callable, hargument]
    rfl

/-- The class that a function value extends, and the result type of its `call`:
the class is raw exactly when nothing can be written for the result, and the one
implements the other exactly when the result is written alike in both. -/
theorem buildCallable_implements_iff (env : Env) (result : Ty) (params : List Ty) (arity : Nat)
    (body : List Target.Stmt) (hsettled : result.asArgument.Settled)
    (hbare : result.asArgument.bareParam = result.asArgument) {code : Target.Expr}
    (h : (env.buildCallable (.callable result params) arity body).answer? = some code) :
    ∃ base callResult,
      code = .functionObject base (env.model.display (.callable result params)) callResult arity
        body ∧
      (base = .cls Support.abstractCallable ↔ env.model.isNoArgument result = true) ∧
      (Target.Implements base callResult ↔
        (env.model.isNoArgument result = false →
          ResultAlike env.model (argumentType env env.depth) env.config.smallIntegers result)) := by
  obtain ⟨callResult, base, hresult, hbase, hcode⟩ := answer?_buildCallable.mp h
  refine ⟨base, callResult, hcode, ?_⟩
  rw [Model.callableResult?_callable, Option.getD_some, lowerType, lowerType?,
    adjust_inExtends] at hresult
  rw [lowerType_callable, answer?_map, Option.map_eq_some_iff] at hbase
  obtain ⟨argument, hargument, rfl⟩ := hbase
  unfold resultArgument at hargument
  cases hno : env.model.isNoArgument result with
  | true =>
    rw [hno, if_pos rfl] at hargument
    cases hargument
    rw [result_of_isNoArgument hsettled hbare hno] at hresult
    cases hresult
    simp [Target.Implements, Target.Ty.applied]
  | false =>
    rw [hno, if_neg (by simp)] at hargument
    obtain ⟨seen, rfl, hseen⟩ : ∃ seen, argument = some seen ∧
        (seenType env.model (argumentType env env.depth) env.config.smallIntegers
          result).answer? = some seen := by
      unfold seenType
      split at hargument
      · rename_i hvoid
        cases hargument
        rw [if_pos hvoid]
        exact ⟨_, rfl, rfl⟩
      · rename_i hvoid
        rw [answer?_map, Option.map_eq_some_iff] at hargument
        obtain ⟨seen, hseen, rfl⟩ := hargument
        rw [if_neg hvoid]
        exact ⟨seen, rfl, answer?_argumentType hseen⟩
    have halike := result_alike (fun _ _ => argumentType_not_wildcard) hsettled hbare hno _ _
      hresult hseen
    simp [Target.Implements, Target.Ty.applied, ← halike, eq_comm]

/-- The call of a function that yields an array of numbers or nothing implements
its class. -/
theorem optionalArray_implemented :
    ∃ base callResult,
      ((Env.of .new .standard).buildCallable
          (.callable (.optional (.of Language.array [Language.integerTy])) []) 0 []).answer? =
        some (.functionObject base
          (Model.new.display (.callable (.optional (.of Language.array [Language.integerTy])) []))
          callResult 0 []) ∧
      Target.Implements base callResult := by
  have hemitted : ((Env.of .new .standard).buildCallable
      (.callable (.optional (.of Language.array [Language.integerTy])) []) 0 []).answer? =
        some _ :=
    answer?_buildCallable.mpr ⟨.apply (.cls "vela.language.Array") [.cls "vela.language.Integer"],
      .apply (.cls Support.abstractCallable)
        [.apply (.cls "vela.language.Array") [.cls "vela.language.Integer"]],
      by decide, by decide, rfl⟩
  obtain ⟨base, callResult, hcode, _, hiff⟩ :=
    buildCallable_implements_iff (Env.of .new .standard)
      (.optional (.of Language.array [Language.integerTy])) [] 0 [] (by decide) (by decide) hemitted
  have hpairs : classPairs Model.new (.optional (.of Language.array [Language.integerTy])) =
      [(Language.arrayElement, some Language.integerTy)] := by decide
  have hstring : (Ty.optional (.of Language.array [Language.integerTy])).isBarePlatformString =
      false := by decide
  have hargument : ∀ lower, AlikeArgument Model.new lower
      (Language.arrayElement, some Language.integerTy) := by
    intro lower t ht
    cases ht
    have hseen : Model.new.seenArgument Language.integerTy = Language.integerTy := by decide
    rw [hseen, AlikeAs, if_neg (by decide)]
    exact ⟨by decide, by decide, fun h => by contradiction⟩
  refine ⟨base, callResult, hcode ▸ hemitted, hiff.mpr fun _ => ⟨by decide, ?_, ?_, ?_⟩⟩
  · exact fun h => absurd h (by decide)
  · refine fun _ _ _ => ⟨fun h => absurd (hstring.symm.trans h) (by decide), ?_⟩
    intro x hx
    have hx : x ∈ classPairs Model.new (.optional (.of Language.array [Language.integerTy])) := hx
    rw [hpairs, List.mem_singleton] at hx
    exact hx ▸ hargument _
  · exact fun _ h => absurd h (by decide)

/-- Whatever object is made for a function value with the result, its `call`
implements the class. -/
def CallImplements (env : Env) (result : Ty) (params : List Ty) : Prop :=
  ∀ arity body base callResult,
    (env.buildCallable (.callable result params) arity body).answer? =
        some (.functionObject base (env.model.display (.callable result params)) callResult arity
          body) →
      Target.Implements base callResult

theorem not_callImplements {result : Ty} {params : List Ty} (callResult base : Target.Ty)
    (hresult : (env.lowerType result .inExtends).answer? = some callResult)
    (hbase : (env.lowerType (.callable result params) (.inExtends ∪ .inCreation)).answer? =
      some base)
    (h : ¬ Target.Implements base callResult) : ¬ env.CallImplements result params := by
  intro himplements
  refine h (himplements 0 [] base callResult (answer?_buildCallable.mpr ?_))
  refine ⟨callResult, base, ?_, hbase, rfl⟩
  rwa [Model.callableResult?_callable]

/-- A platform string is the platform's own class as a result and a string of the
language as an argument, the base exception type has a class for each, and the
argument of an iterable type or of a function value again is a wildcard inside
the argument only. -/
theorem functionResults_not_implemented :
    ¬ (Env.of .new .standard).CallImplements
        (.nominal Language.string [] none (some .platformString)) [] ∧
      ¬ (Env.of .new .standard).CallImplements Language.exceptionTy [] ∧
      ¬ (Env.of .new .standard).CallImplements (.of Language.iterable [Language.stringTy]) [] ∧
      ¬ (Env.of .new .standard).CallImplements (.callable Language.stringTy []) [] := by
  refine ⟨?hinted, ?exception, ?iterable, ?callable⟩
  case hinted =>
    exact not_callImplements (.cls "java.lang.String")
      (.apply (.cls Support.abstractCallable) [.cls "vela.language.String"])
      (by decide) (by decide) (by decide)
  case exception =>
    exact not_callImplements (.cls "vela.language.Exception")
      (.apply (.cls Support.abstractCallable) [.cls "java.lang.Throwable"])
      (by decide) (by decide) (by decide)
  case iterable =>
    exact not_callImplements (.apply (.cls "vela.language.Iterable") [.cls "vela.language.String"])
      (.apply (.cls Support.abstractCallable)
        [.apply (.cls "vela.language.Iterable") [.subtypeOf (.cls "vela.language.String")]])
      (by decide) (by decide) (by decide)
  case callable =>
    exact not_callImplements (.apply (.cls "vela.language.Callable") [.cls "vela.language.String"])
      (.apply (.cls Support.abstractCallable)
        [.apply (.cls "vela.language.Callable") [.subtypeOf (.cls "vela.language.String")]])
      (by decide) (by decide) (by decide)

end Env

end TreeLowering
