import TreeLowering.Lowering.TypeExpr
import TreeLowering.Proofs.Simplification
set_option autoImplicit false

/-!
# Proofs: what is lowered to the root object

A type is lowered to the root object, or left out of a clause of satisfied
types, exactly when it erases once a union or intersection of one is taken off
it.  The erasure of the type as it is given says the same of every type that is
no union or intersection of one, and of one whose sole member is settled.

Where the sole member is an optional type, the two differ: the given type is
then simplified to that optional type, which is a union, while the lowering
goes on with what is optional.
-/

namespace TreeLowering

namespace TypeLowering

variable {m : Model} {lower : Ty → TypeLowering Target.Ty} {ctx : Context} {given : Ty}

/-! ## One step -/

/-- Nothing but the placeholder is written for what is no class, no interface
and no type parameter. -/
theorem classType_of_no_class {t : Ty} (hclass : t.simplify.decl? = none)
    (hparam : t.simplify.isParam = false) : classType m lower ctx t = pure .erroneous := by
  unfold classType
  cases hsimple : t.simplify with
  | nominal _ _ _ _ => simp [hsimple, Ty.decl?] at hclass
  | param _ => simp [hsimple, Ty.isParam] at hparam
  | union _ | inter _ | bottom | error => simp [Ty.segments, Ty.args, bareType]

/-- How a type that does not erase is written: as its iterable shape, a platform
class, a raw form, or a class type. -/
def writtenType (m : Model) (lower : Ty → TypeLowering Target.Ty) (ctx : Context) (t : Ty) :
    TypeLowering Target.Ty :=
  if t.simplify.isComposite then classType m lower ctx ((m.iterableShape? t).getD t)
  else if t.erasesToException then pure (.cls (exceptionClass ctx))
  else if ctx.allowsPrimitives && (!t.isOptional || t.isPlatformString) then
    match rawForm? m ctx.small t with
    | some raw => pure raw
    | none => classType m lower ctx t
  else if m.isBoolean t && !t.isTypeParameter then classType m lower ctx Language.booleanTy
  else classType m lower ctx t

theorem step_of_error (h : given.collapse = .error) :
    step m lower ctx given = pure (some .erroneous) := by
  unfold step
  exact if_pos h

theorem resolveBound_error : resolveBound m ctx .error = .error := by
  unfold resolveBound
  split <;> rfl

/-- The erroneous type does not erase, whatever it stands for. -/
theorem collapse_ne_error_of_erases
    (h : m.erasesToObject (resolveBound m ctx given.collapse) = true) :
    given.collapse ≠ .error := by
  intro herror
  rw [herror, resolveBound_error] at h
  contradiction

theorem step_of_erases (h : m.erasesToObject (resolveBound m ctx given.collapse) = true) :
    step m lower ctx given = pure (if ctx.satisfies then none else some .object) := by
  unfold step
  dsimp only
  rw [if_neg (collapse_ne_error_of_erases h), if_pos h]

theorem step_of_not_erases (herror : given.collapse ≠ .error)
    (h : m.erasesToObject (resolveBound m ctx given.collapse) = false) :
    step m lower ctx given =
      some <$> writtenType m lower ctx (resolveBound m ctx given.collapse) := by
  unfold step writtenType
  dsimp only
  rw [if_neg herror, if_neg (by simp [h])]
  split
  · rfl
  · split
    · rfl
    · split
      · cases rawForm? m ctx.small (resolveBound m ctx given.collapse) <;> rfl
      · split <;> rfl

/-- Only a type that erases is left out, and only where satisfied types are
listed. -/
theorem answer?_step_eq_none_iff :
    (step m lower ctx given).answer? = some none ↔
      ctx.satisfies = true ∧ m.erasesToObject (resolveBound m ctx given.collapse) = true := by
  cases herases : m.erasesToObject (resolveBound m ctx given.collapse) with
  | true =>
    rw [step_of_erases herases, answer?_pure]
    simp
  | false =>
    by_cases herror : given.collapse = .error
    · rw [step_of_error herror, answer?_pure]
      simp
    · rw [step_of_not_erases herror herases, answer?_map]
      simp

/-! ## Positions -/

theorem adjust_flags (c : Config) (ctx : Context) :
    (adjust c ctx).satisfies = ctx.satisfies ∧ (adjust c ctx).firstBound = ctx.firstBound ∧
      (adjust c ctx).allowsPrimitives = ctx.allowsPrimitives := by
  rcases Env.adjust_eq c ctx with h | h <;> rw [h]
  · exact ⟨rfl, rfl, rfl⟩
  · simp [Context.allowsPrimitives, Union.union, Context.union, Context.smallNumbers]

theorem resolveBound_adjust (c : Config) (t : Ty) :
    resolveBound m (adjust c ctx) t = resolveBound m ctx t := by
  unfold resolveBound
  rw [(adjust_flags c ctx).2.1]

/-- A bound stands for a type parameter only. -/
theorem resolveBound_of_not_param {t : Ty} (h : ctx.firstBound = true → t.isParam = false) :
    resolveBound m ctx t = t := by
  unfold resolveBound
  split
  · rename_i hbound
    cases t with
    | param p => exact absurd (h hbound) (by simp [Ty.isParam])
    | nominal _ _ _ _ | union _ | inter _ | bottom | error => rfl
  · rfl

/-- A type that erases is no type parameter. -/
theorem resolveBound_of_erases {t : Ty} (h : m.erasesToObject t = true) :
    resolveBound m ctx t = t := by
  refine resolveBound_of_not_param fun _ => ?_
  cases t with
  | param p => contradiction
  | nominal _ _ _ _ | union _ | inter _ | bottom | error => rfl

end TypeLowering

/-! ## Erasure of a sole member -/

namespace Model

variable {m : Model} {t : Ty}

/-- The types of the absent value erase, as the sole member of a union or
intersection too, and with one more absent case. -/
theorem erasesToObject_of_isVoidOrNothing (h : t.collapse.Settled)
    (hvoid : t.collapse.isVoidOrNothing = true) :
    m.erasesToObject t.collapse = true ∧ m.erasesToObject t = true ∧
      m.erasesToObject t.optional = true := by
  generalize hu : t.collapse = u at h hvoid ⊢
  obtain ⟨d, hint, hd, rfl⟩ := h.eq_of_isVoidOrNothing hvoid
  rcases t.eq_or_sole with ht | ht | ht <;> rw [hu] at ht <;> subst ht <;>
    rcases hd with rfl | rfl <;> exact ⟨rfl, rfl, rfl⟩

theorem isVoidOrNothing_of_not_erases (ht : t.Settled) (h : m.erasesToObject t = false) :
    t.isVoidOrNothing = false := by
  cases hvoid : t.isVoidOrNothing with
  | false => rfl
  | true =>
    have herases := (erasesToObject_of_isVoidOrNothing (m := m) (t := t)
      (ht.sole.symm ▸ ht) (ht.sole.symm ▸ hvoid)).2.1
    rw [herases] at h
    contradiction

/-- A union or intersection of one settled type erases when that type does. -/
theorem erasesToObject_collapse (h : t.collapse = t ∨ t.collapse.Settled) :
    m.erasesToObject t.collapse = m.erasesToObject t := by
  rcases h with h | hsettled
  · rw [h]
  · cases hvoid : t.collapse.isVoidOrNothing with
    | true =>
      obtain ⟨hsole, hgiven, _⟩ := erasesToObject_of_isVoidOrNothing (m := m) hsettled hvoid
      rw [hsole, hgiven]
    | false =>
      refine erasesToObject_congr ?_
      rw [hsettled.simplify hvoid]
      generalize hu : t.collapse = u at hsettled hvoid ⊢
      rcases t.eq_or_sole with ht | ht | ht <;> rw [hu] at ht <;> subst ht
      · exact (hsettled.simplify hvoid).symm
      · exact (hsettled.simplify_union hvoid).symm
      · rfl

end Model

namespace Env

open TypeLowering

/-- A type is lowered to the root object in every position, and left out where
satisfied types are listed, exactly when it erases once a union or intersection
of one is taken off; that is to say, when it erases itself, unless the sole
member is one that simplifies further.  No other type is left out anywhere. -/
theorem lowerType?_erasure (env : Env) (t : Ty) :
    (env.model.erasesToObject t.collapse = true ↔
        ∀ ctx, env.lowerType? t ctx = pure (if ctx.satisfies then none else some .object)) ∧
      (t.collapse = t ∨ t.collapse.Settled →
        env.model.erasesToObject t.collapse = env.model.erasesToObject t) ∧
      ∀ ctx, (env.lowerType? t ctx).answer? = some none ↔
        ctx.satisfies = true ∧
          env.model.erasesToObject (resolveBound env.model ctx t.collapse) = true := by
  have hnone : ∀ ctx, (env.lowerType? t ctx).answer? = some none ↔
      ctx.satisfies = true ∧
        env.model.erasesToObject (resolveBound env.model ctx t.collapse) = true := by
    intro ctx
    unfold lowerType?
    rw [answer?_step_eq_none_iff, (adjust_flags env.config ctx).1, resolveBound_adjust]
  refine ⟨⟨fun herases ctx => ?_, fun hall => ?_⟩, Model.erasesToObject_collapse, hnone⟩
  · unfold lowerType?
    rw [step_of_erases (by rwa [resolveBound_of_erases herases]),
      (adjust_flags env.config ctx).1]
  · have hleft := (hnone .inSatisfies).mp (by rw [hall .inSatisfies]; rfl)
    exact hleft.2

/-- A type whose sole member is the union of two optional types erases, and is
lowered so. -/
theorem soleUnion_erased :
    (Ty.inter [.union [.optional Language.integerTy,
        .optional Language.stringTy]]).collapse.Settled ∧
      ∀ ctx, (Env.of .new .standard).lowerType?
          (.inter [.union [.optional Language.integerTy, .optional Language.stringTy]]) ctx =
        pure (if ctx.satisfies then none else some .object) :=
  have hsettled : (Ty.inter [.union [.optional Language.integerTy,
      .optional Language.stringTy]]).collapse.Settled := by decide
  have herasure := lowerType?_erasure (Env.of .new .standard)
    (.inter [.union [.optional Language.integerTy, .optional Language.stringTy]])
  ⟨hsettled, herasure.1.mp ((herasure.2.1 (.inr hsettled)).trans (by decide))⟩

/-- The union of one optional number erases and is lowered to the number's
class. -/
theorem soleOptional_erases_not_lowered_so :
    Model.new.erasesToObject (.union [.optional Language.integerTy]) = true ∧
      ((Env.of .new .standard).lowerType? (.union [.optional Language.integerTy]) .plain).answer? =
        some (some (.cls "vela.language.Integer")) := by
  decide

end Env

end TreeLowering
