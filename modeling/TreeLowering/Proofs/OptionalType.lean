import TreeLowering.Proofs.ErasureTotality
set_option autoImplicit false

/-!
# Proofs: optional types

Where a type has no raw form, its optional type is lowered as the type itself,
provided that every decision sees the two alike.  Three decisions look at a type
before its absent case is taken off, or take off one absent case only: the bound
that stands for a type parameter, the Boolean type that stands for its
subtypes, and the simplification of a type that is optional already.
-/

namespace TreeLowering

namespace Ty

variable {t : Ty}

/-- What is optional, without its absent case, is written as it is. -/
theorem simplify_optional_of_collapse (hhint : t.hint? = none)
    (h : t.collapse.isVoidOrNothing = false) : t.optional.simplify = t.collapse.bareParam := by
  have hvoid : t.isVoidOrNothing = false := by
    rcases t.eq_or_sole with ht | ht | ht
    · rwa [← ht] at h
    · rw [ht]; rfl
    · rw [ht]; rfl
  have hwithout : t.withoutHint = t := by
    cases t <;> simp_all [withoutHint, hint?]
  rw [simplify_optional hvoid, hwithout]

/-- An optional type is a platform string only through the hint of what is
optional. -/
theorem not_isPlatformString_optional (hhint : t.hint? = none) :
    t.optional.isPlatformString = false := by
  unfold isPlatformString
  cases hnothing : t.isOf Language.nothing with
  | true =>
    obtain ⟨as, o, hint, rfl⟩ := isOf_iff.mp hnothing
    rfl
  | false =>
    have hpresent : presentCases [Language.nothingTy, t] = [t] := by
      simp only [presentCases, List.filter_cons, hnothing]
      rfl
    simp only [optional, nonNull, hpresent, hhint]
    rfl

end Ty

namespace Model

variable {m : Model} {t : Ty}

/-! ## Decisions about optional types -/

theorem not_isBoolean_optional : m.isBoolean t.optional = false := by
  have hnone : m.supertype? t.optional Language.boolean = none :=
    supertype?_of_hasAbsentCase rfl (by decide)
  simp only [isBoolean, isSubtypeOf, hnone, Option.isSome_none, Bool.and_false]

/-- An optional type erases with the type itself, where that is settled. -/
theorem erasesToObject_optional (hhint : t.hint? = none) (h : t.collapse.Settled) :
    m.erasesToObject t.optional = m.erasesToObject t.collapse := by
  cases hvoid : t.collapse.isVoidOrNothing with
  | true =>
    obtain ⟨hsole, _, hoptional⟩ := erasesToObject_of_isVoidOrNothing (m := m) h hvoid
    rw [hsole, hoptional]
  | false =>
    refine erasesToObject_congr ?_
    rw [Ty.simplify_optional_of_collapse hhint hvoid, h.simplify hvoid]

/-- A type that is optional already and erases does so with one more absent
case. -/
theorem erasesToObject_optional_of_hasAbsentCase (hhint : t.hint? = none)
    (h : t.collapse.hasAbsentCase = true) (herases : m.erasesToObject t.collapse = true) :
    m.erasesToObject t.optional = true := by
  have hshape := iterableShape?_of_erases herases
  generalize hu : t.collapse = u at h hshape
  cases u with
  | union cases =>
    have hsimple : t.optional.simplify = .union cases := by
      rw [Ty.simplify_optional_of_collapse hhint (by rw [hu]; rfl), hu]
      rfl
    rw [erasesToObject_of_isComposite (by rw [hsimple]; rfl), hsimple, hshape]
    rfl
  | nominal _ _ _ _ | inter _ | param _ | bottom | error => contradiction

end Model

namespace TypeLowering

variable {m : Model} {lower : Ty → TypeLowering Target.Ty} {ctx : Context} {t u : Ty}

/-! ## What decides how a type is written -/

/-- A class type is written from its simplification. -/
theorem classType_congr (h : t.simplify = u.simplify) :
    classType m lower ctx t = classType m lower ctx u := by
  unfold classType
  rw [h]

/-- A type without a raw form has none in any size. -/
theorem rawForm?_of_not_canUnbox (h : m.canUnbox t = false) (small : Bool) :
    rawForm? m small t = none := by
  simp only [Model.canUnbox, Model.isBasic, Bool.or_eq_false_iff] at h
  simp [rawForm?, h]

/-- A type that is optional, and no platform string, is never raw and never a
Boolean, and neither is one that is given as such. -/
theorem writtenType_of_not_raw (hcomposite : t.simplify.isComposite = false)
    (hraw : (ctx.allowsPrimitives && (!t.isOptional || t.isPlatformString)) = true →
      m.canUnbox t = false)
    (hboolean : m.isBoolean t = true → t.isTypeParameter = true ∨ t = Language.booleanTy) :
    writtenType m lower ctx t =
      if t.erasesToException then pure (.cls (exceptionClass ctx))
      else classType m lower ctx t := by
  unfold writtenType
  rw [if_neg (by simp [hcomposite])]
  split
  · rfl
  · split
    · rename_i hallowed
      rw [rawForm?_of_not_canUnbox (hraw hallowed)]
    · split
      · rename_i hcollapses
        simp only [Bool.and_eq_true, Bool.not_eq_true'] at hcollapses
        rcases hboolean hcollapses.1 with hparam | hself
        · rw [hparam] at hcollapses
          simp at hcollapses
        · rw [hself]
      · rfl

/-- An optional type has no raw form unless it is a platform string. -/
theorem not_raw_optional (hhint : t.hint? = none)
    (h : (ctx.allowsPrimitives && (!t.optional.isOptional || t.optional.isPlatformString)) = true) :
    m.canUnbox t.optional = false := by
  have hoptional : t.optional.isOptional = true := rfl
  simp [Ty.not_isPlatformString_optional hhint, hoptional] at h

theorem not_boolean_optional (h : m.isBoolean t.optional = true) :
    t.optional.isTypeParameter = true ∨ t.optional = Language.booleanTy := by
  rw [Model.not_isBoolean_optional] at h
  contradiction

/-- A union or intersection with an iterable shape is written as that shape. -/
theorem writtenType_of_shape {shape : Ty} (hcomposite : t.simplify.isComposite = true)
    (hshape : m.iterableShape? t = some shape) :
    writtenType m lower ctx t = classType m lower ctx shape := by
  unfold writtenType
  rw [if_pos hcomposite, hshape]
  rfl

theorem writtenType_optional_of_error (hhint : t.hint? = none) (herror : t.collapse = .error) :
    writtenType m lower ctx t.optional = pure .erroneous := by
  have hsimple : t.optional.simplify = .error := by
    rw [Ty.simplify_optional_of_collapse hhint (by rw [herror]; rfl), herror]
    rfl
  rw [writtenType_of_not_raw (by rw [hsimple]; rfl),
    classType_of_no_class (by rw [hsimple]; rfl) (by rw [hsimple]; rfl), Ty.erasesToException,
    hsimple]
  · rfl
  · exact not_raw_optional hhint
  · exact not_boolean_optional

/-- What is optional, and does not erase, is written alike with and without its
absent case. -/
theorem writtenType_optional (hhint : t.hint? = none) (hsettled : t.collapse.Settled)
    (herases : m.erasesToObject t.collapse = false)
    (hraw : ctx.allowsPrimitives = true → m.canUnbox t.collapse = false)
    (hboolean : m.isBoolean t.collapse = true → t.collapse.isTypeParameter = true ∨
      t.collapse = Language.booleanTy ∨ t.collapse.simplify.isComposite = true) :
    writtenType m lower ctx t.optional = writtenType m lower ctx t.collapse := by
  have hvoid : t.collapse.isVoidOrNothing = false := by
    cases hvoid : t.collapse.isVoidOrNothing with
    | false => rfl
    | true =>
      rw [(Model.erasesToObject_of_isVoidOrNothing hsettled hvoid).1] at herases
      contradiction
  have hsimple : t.optional.simplify = t.collapse.simplify := by
    rw [Ty.simplify_optional_of_collapse hhint hvoid, hsettled.simplify hvoid]
  cases hcomposite : t.collapse.simplify.isComposite with
  | true =>
    have hpresent : t.collapse.simplify.hasAbsentCase = false := by
      rw [hsettled.simplify hvoid] at hcomposite ⊢
      rw [Ty.bareParam_eq_self hcomposite]
      exact hsettled.present
    obtain ⟨shape, hshape⟩ := Option.isSome_iff_exists.mp
      (Model.isSome_iterableShape?_of_not_erases hcomposite hpresent herases)
    have hoptional : m.iterableShape? t.optional = some shape := by
      rw [Model.iterableShape?_eq_of_isComposite (hsimple ▸ hcomposite), hsimple,
        ← Model.iterableShape?_eq_of_isComposite hcomposite, hshape]
    rw [writtenType_of_shape (hsimple ▸ hcomposite) hoptional,
      writtenType_of_shape hcomposite hshape]
  | false =>
    rw [writtenType_of_not_raw (hsimple ▸ hcomposite), writtenType_of_not_raw hcomposite,
      classType_congr hsimple, Ty.erasesToException, Ty.erasesToException, hsimple]
    · exact fun hallowed => hraw (by simp_all)
    · exact fun h => (hboolean h).imp_right fun h => h.resolve_right (by simp [hcomposite])
    · exact not_raw_optional hhint
    · exact not_boolean_optional

end TypeLowering

namespace Env

open TypeLowering

/-- A type that has no raw form in the position is lowered as its optional type,
with the same notes and for the same arguments, unless one of the decisions
sees the absent case: a bound that stands for a type parameter, the Boolean type
that stands for a subtype, and the simplification of a type that is a union or
intersection of one or optional already.  What is optional already still erases
if it did. -/
theorem lowerType?_optional (env : Env) (ctx : Context) (t : Ty) (hhint : t.hint? = none)
    (hraw : ctx.allowsPrimitives = true → env.model.canUnbox t.collapse = false)
    (hbound : ctx.firstBound = true → t.collapse.isParam = false)
    (hboolean : env.model.isBoolean t.collapse = true →
      t.collapse.isTypeParameter = true ∨ t.collapse = Language.booleanTy ∨
        t.collapse.simplify.isComposite = true)
    (hsettled : t.collapse.Settled ∨
      t.collapse.hasAbsentCase = true ∧ env.model.erasesToObject t.collapse = true) :
    env.lowerType? t.optional ctx = env.lowerType? t ctx := by
  have hoptional : resolveBound env.model ctx t.optional.collapse = t.optional :=
    resolveBound_of_not_param fun _ => rfl
  have hresolve := resolveBound_of_not_param (m := env.model) hbound
  unfold lowerType?
  by_cases herror : t.collapse = .error
  · have hsettled : t.collapse.Settled := by rw [herror]; decide
    have herases : env.model.erasesToObject t.optional = false := by
      rw [Model.erasesToObject_optional hhint hsettled, herror]
      rfl
    rw [step_of_error herror, step_of_not_erases (by intro h; cases h)
        (by rw [resolveBound_adjust, hoptional, herases]),
      resolveBound_adjust, hoptional, writtenType_optional_of_error hhint herror]
    rfl
  · cases herases : env.model.erasesToObject t.collapse with
    | true =>
      have herases' : env.model.erasesToObject t.optional = true := by
        rcases hsettled with hsettled | ⟨habsent, _⟩
        · rw [Model.erasesToObject_optional hhint hsettled, herases]
        · exact Model.erasesToObject_optional_of_hasAbsentCase hhint habsent herases
      rw [step_of_erases (by rw [resolveBound_adjust, hoptional, herases']),
        step_of_erases (by rw [resolveBound_adjust, hresolve, herases])]
    | false =>
      have hsettled : t.collapse.Settled := hsettled.resolve_right (by simp [herases])
      have herases' : env.model.erasesToObject t.optional = false := by
        rw [Model.erasesToObject_optional hhint hsettled, herases]
      rw [step_of_not_erases (by intro h; cases h)
          (by rw [resolveBound_adjust, hoptional, herases']),
        step_of_not_erases herror (by rw [resolveBound_adjust, hresolve, herases]),
        resolveBound_adjust, resolveBound_adjust, hoptional, hresolve,
        writtenType_optional hhint hsettled herases (by rwa [(adjust_flags env.config ctx).2.2])
          hboolean]

/-- Sequences of strings or iterables of numbers, optional or not, where bounds
stand for type parameters. -/
theorem iterableUnion_optional :
    (Ty.union [.of Language.sequence [Language.stringTy],
        .of Language.iterable [Language.integerTy]]).collapse.Settled ∧
      (Env.of .new .standard).lowerType? (.optional (.union [.of Language.sequence
          [Language.stringTy], .of Language.iterable [Language.integerTy]])) .rawBound =
        (Env.of .new .standard).lowerType? (.union [.of Language.sequence [Language.stringTy],
          .of Language.iterable [Language.integerTy]]) .rawBound :=
  have hsettled : (Ty.union [.of Language.sequence [Language.stringTy],
      .of Language.iterable [Language.integerTy]]).collapse.Settled := by decide
  ⟨hsettled, lowerType?_optional (Env.of .new .standard) .rawBound _ rfl (fun _ => by decide)
    (fun _ => rfl) (fun h => absurd h (by decide)) (.inl hsettled)⟩

/-- A twice optional iterable type, which has no raw form, is not lowered as the
optional one.  Nor is an optional case of the Boolean type where nothing is
primitive, or an optional type parameter where its bound stands for it. -/
theorem nestedOptional_lowered_apart :
    (Model.new.canUnbox (.optional (.of Language.iterable [Language.stringTy])) = false ∧
      ((Env.of .new .standard).lowerType?
          (.optional (.optional (.of Language.iterable [Language.stringTy]))) .plain).answer? ≠
        ((Env.of .new .standard).lowerType?
          (.optional (.of Language.iterable [Language.stringTy])) .plain).answer?) ∧
    (Context.inExtends.allowsPrimitives = false ∧
      ((Env.of .new .standard).lowerType?
          (.optional (.of Language.trueObject [])) .inExtends).answer? ≠
        ((Env.of .new .standard).lowerType? (.of Language.trueObject []) .inExtends).answer?) ∧
    Model.new.canUnbox (.param Language.entryKey) = false ∧
      ((Env.of .new .standard).lowerType?
          (.optional (.param Language.entryKey)) .rawBound).answer? ≠
        ((Env.of .new .standard).lowerType? (.param Language.entryKey) .rawBound).answer? := by
  decide

end Env

end TreeLowering
