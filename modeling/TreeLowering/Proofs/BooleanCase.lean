import TreeLowering.Proofs.SegmentPlan
import TreeLowering.Proofs.SoleMember
import TreeLowering.Proofs.TypeForm
set_option autoImplicit false

/-!
# Proofs: cases of the Boolean type

A class or object below the Boolean type is lowered as the Boolean type, by
itself and as an argument of another type, where it may be optional as well.
So instantiations of a class for it and for the Boolean type are lowered alike,
provided that both or neither are below the Boolean type themselves.

An optional case is not lowered as the optional Boolean type: the question
whether a type is below the Boolean type is asked of the type with its absent
case, which is below no class.  It is written as its own class.
-/

namespace TreeLowering

namespace Model

variable {m : Model} {t : Ty} {target : DeclId}

/-- A class or object below the Boolean type, the type itself included, without a
hint about its representation. -/
structure BooleanCase (m : Model) (t : Ty) : Prop where
  nominal : t.decl?.isSome = true
  plain : t.hint? = none
  below : m.isSubtypeOf t Language.boolean = true

theorem booleanCase_boolean (m : Model) : m.BooleanCase Language.booleanTy where
  nominal := rfl
  plain := rfl
  below := by
    obtain ⟨up, hup⟩ := m.exists_climb Language.boolean
    rw [isSubtypeOf, hup, Language.booleanTy, Ty.of, climb, if_pos rfl]
    rfl

namespace BooleanCase

variable (h : m.BooleanCase t)

include h

theorem eq_nominal : ∃ d as o, t = .nominal d as o none := by
  obtain ⟨hnominal, hplain, -⟩ := h
  cases t with
  | nominal d as o hint =>
    obtain rfl : hint = none := hplain
    exact ⟨d, as, o, rfl⟩
  | union _ | inter _ | param _ | bottom | error => contradiction

theorem isBoolean : m.isBoolean t = true := by
  obtain ⟨d, as, o, rfl⟩ := h.eq_nominal
  simp [Model.isBoolean, h.below]

theorem present : t.isOptional = false :=
  not_optional_of_isBasic (isBasic_iff.mpr (.inl h.isBoolean))

theorem not_isVoidOrNothing : t.isVoidOrNothing = false := by
  have hpresent := h.present
  obtain ⟨d, as, o, rfl⟩ := h.eq_nominal
  simpa [Ty.isVoidOrNothing, Ty.isOf, Ty.decl?, Ty.isOptional, and_comm] using hpresent

theorem settled : t.Settled := by
  have hvoid := h.not_isVoidOrNothing
  obtain ⟨d, as, o, rfl⟩ := h.eq_nominal
  exact ⟨rfl, rfl, fun h => absurd h (by simp [hvoid])⟩

theorem simplify : t.simplify = t := by
  have hpresent := h.present
  obtain ⟨d, as, o, rfl⟩ := h.eq_nominal
  exact TypeLowering.simplify_eq hpresent

theorem nonNull : t.nonNull = t := by
  have hpresent := h.present
  obtain ⟨d, as, o, rfl⟩ := h.eq_nominal
  exact TypeLowering.nonNull_nominal hpresent

theorem not_isComposite : t.isComposite = false := by
  obtain ⟨d, as, o, rfl⟩ := h.eq_nominal
  rfl

theorem not_isParam : t.isParam = false := by
  obtain ⟨d, as, o, rfl⟩ := h.eq_nominal
  rfl

theorem bareParam : t.bareParam = t := by
  obtain ⟨d, as, o, rfl⟩ := h.eq_nominal
  rfl

theorem not_isTypeParameter : t.isTypeParameter = false := by
  rw [Ty.isTypeParameter, h.nonNull, h.not_isParam]

theorem not_isString : t.isString = false := by
  refine (Ty.not_scalar ?_).1
  rw [Bool.eq_false_iff]
  intro hscalar
  have hboolean := h.isBoolean
  rw [isBoolean_of_isScalar hscalar] at hboolean
  contradiction

theorem not_isPlatformString : t.isPlatformString = false := by
  rw [Ty.isPlatformString, h.nonNull, h.plain]
  rfl

theorem kept : m.erasesToObject t = false ∧ t.erasesToException = false :=
  kept_of_isBoolean h.settled.sole (by rw [h.simplify, h.not_isComposite]) h.isBoolean

theorem widenBoolean : ArgumentView.widenBoolean m t = Language.booleanTy := by
  simp [ArgumentView.widenBoolean, h.isBoolean, h.not_isTypeParameter]

end BooleanCase

/-! ## Instantiations below a class -/

/-- Where declared supertypes are classes or interfaces, a search from a class
finds something whatever its arguments are. -/
theorem isSome_supertypeWithin_congr
    (hm : ∀ d, ∀ s ∈ (m.decl d).supertypes, s.decl?.isSome = true) (fuel : Nat) (d : DeclId)
    (as bs : List Ty) (o o' : Option Ty) (h h' : Option Hint) :
    (m.supertypeWithin target fuel (.nominal d as o h)).isSome =
      (m.supertypeWithin target fuel (.nominal d bs o' h')).isSome := by
  induction fuel generalizing d as bs o o' h h' with
  | zero =>
    rw [supertypeWithin_zero, supertypeWithin_zero, climb, climb]
    by_cases hd : d = target
    · rw [if_pos hd, if_pos hd, Option.isSome_some, Option.isSome_some]
    · simp [hd, List.isSome_findSome?]
  | succ fuel ih =>
    rw [supertypeWithin_succ, supertypeWithin_succ, climb, climb]
    by_cases hd : d = target
    · rw [if_pos hd, if_pos hd, Option.isSome_some, Option.isSome_some]
    · rw [if_neg hd, if_neg hd, List.isSome_findSome?, List.isSome_findSome?, Bool.eq_iff_iff,
        List.any_eq_true, List.any_eq_true]
      refine exists_congr fun s => and_congr_right fun hs => ?_
      have hnominal := hm d s hs
      cases s with
      | nominal e as' o' hint =>
        rw [Ty.subst, Ty.subst, Ty.replace, Ty.replace, ih]
      | union _ | inter _ | param _ | bottom | error => contradiction

theorem isBoolean_congr (hm : ∀ d, ∀ s ∈ (m.decl d).supertypes, s.decl?.isSome = true)
    (d : DeclId) (as bs : List Ty) (o : Option Ty) (h : Option Hint) :
    m.isBoolean (.nominal d as o h) = m.isBoolean (.nominal d bs o h) := by
  simp only [isBoolean, isSubtypeOf, supertype?,
    isSome_supertypeWithin_congr hm m.climbLimit d as bs o o h h]
  rfl

end Model

namespace TypeLowering

variable {m : Model} {lower : Ty → TypeLowering Target.Ty} {ctx : Context} {t : Ty}

/-! ## A case by itself -/

theorem step_booleanCase (h : m.BooleanCase t) :
    step m lower ctx t = some <$>
      (if ctx.allowsPrimitives then pure (.primitive .boolean)
      else .cls <$> declName m Language.boolean (spellingIn ctx)) := by
  have hresolve : resolveBound m ctx t.collapse = t := by
    rw [h.settled.sole]
    exact resolveBound_of_not_param fun _ => h.not_isParam
  have herror : t.collapse ≠ .error := by
    rw [h.settled.sole]
    rintro rfl
    exact absurd h.nominal (by simp [Ty.decl?])
  have hraw : rawForm? m ctx.small t = some (.primitive .boolean) := by
    simp [rawForm?, h.not_isString, h.not_isPlatformString, h.isBoolean]
  rw [step_of_not_erases herror (by rw [hresolve, h.kept.1]), hresolve, writtenType, h.simplify,
    h.not_isComposite, h.kept.2, h.present, hraw, h.isBoolean, h.not_isTypeParameter,
    classType_boolean]
  simp

/-! ## An optional case -/

/-- The Boolean type does not stand for an optional case. -/
theorem step_optional_booleanCase (h : m.BooleanCase t) :
    step m lower ctx t.optional = some <$> classType m lower ctx t := by
  have hvoid : t.collapse.isVoidOrNothing = false := by
    rw [h.settled.sole, h.not_isVoidOrNothing]
  have hsimple : t.optional.simplify = t.simplify := by
    rw [Ty.simplify_optional_of_collapse h.plain hvoid, h.settled.sole, h.bareParam, h.simplify]
  have hresolve : resolveBound m ctx t.optional.collapse = t.optional :=
    resolveBound_of_not_param fun _ => rfl
  have herases : m.erasesToObject t.optional = false := by
    rw [Model.erasesToObject_congr hsimple, h.kept.1]
  have hexception : t.optional.erasesToException = false := by
    rw [Ty.erasesToException, hsimple]
    exact h.kept.2
  rw [step_of_not_erases (by intro heq; cases heq) (by rw [hresolve, herases]), hresolve,
    writtenType_of_not_raw (by rw [hsimple, h.simplify, h.not_isComposite])
      (not_raw_optional h.plain) not_boolean_optional,
    hexception, classType_congr hsimple]
  rfl

/-- Without arguments to write, an optional case is written as the class that it
is. -/
theorem answer?_step_optional_booleanCase (h : m.BooleanCase t) {d : DeclId} (hd : t.decl? = some d)
    (hbare : ctx.raw = true ∨ ∀ s ∈ t.segments, s.args = []) :
    (step m lower ctx t.optional).answer? = some (some (.cls (m.spelling d (spellingIn ctx)))) := by
  have hpresent := h.present
  rw [step_optional_booleanCase h]
  obtain ⟨d, as, o, rfl⟩ := h.eq_nominal
  cases hd
  rw [classType_eq_bareType hpresent hbare, bareType, if_neg (by simp)]
  rfl

/-! ## A case as an argument -/

theorem view_booleanCase (h : m.BooleanCase t) :
    ArgumentView.of m ctx t = .as Language.booleanTy := by
  have hseen : t.asArgument = t := by
    simp [Ty.asArgument, h.settled.sole, h.present]
  rw [view_eq, hseen, h.not_isComposite, h.widenBoolean]
  rfl

/-- An argument is looked at without its absent case. -/
theorem view_optional_booleanCase (h : m.BooleanCase t) :
    ArgumentView.of m ctx t.optional = .as Language.booleanTy := by
  have hseen : t.optional.asArgument = t := by
    have hcollapse : t.optional.collapse = t.optional := rfl
    have hoptional : t.optional.isOptional = true := rfl
    have hvoid : t.optional ≠ Language.voidTy := by
      intro heq
      cases heq
    have hpresent : Ty.presentCases [Language.nothingTy, t] = [t] := by
      simp only [Ty.presentCases, List.filter_cons,
        (Ty.isVoidOrNothing_eq_false h.not_isVoidOrNothing).2]
      rfl
    rw [Ty.asArgument, hcollapse, if_pos (by simp [hvoid, hoptional])]
    simp only [Ty.optional, Ty.nonNull, hpresent]
  rw [view_eq, hseen, h.not_isComposite, h.widenBoolean]
  rfl

/-! ## Instantiations of a class -/

section

variable {d : DeclId} {a : Ty} {as bs : List Ty} {o : Option Ty} {hint : Option Hint}

/-- What holds the absent value erases, whatever arguments it is given. -/
theorem erases_of_optional (hoptional : (Ty.nominal d as o hint).isOptional = true) :
    m.erasesToObject (.nominal d bs o hint) = true := by
  simp only [Ty.isOptional, Bool.or_eq_true, beq_iff_eq] at hoptional
  rcases hoptional with rfl | rfl <;> rfl

theorem not_isExactly_of_args {c : DeclId} :
    (Ty.nominal d (a :: as) o hint).isExactly (.of c []) = false := by
  rw [Bool.eq_false_iff]
  intro hexactly
  obtain ⟨_, heq⟩ := Ty.isExactly_iff.mp hexactly
  cases heq

/-- With arguments, a class has a raw form as a platform string or as a Boolean. -/
theorem rawForm?_of_args (hoptional : (Ty.nominal d (a :: as) o hint).isOptional = false)
    (small : Bool) : rawForm? m small (.nominal d (a :: as) o hint) =
      if hint = some .platformString then some (.cls Support.platformString)
      else if m.isBoolean (.nominal d (a :: as) o hint) then some (.primitive .boolean)
      else none := by
  simp [rawForm?, Ty.isString, Ty.isInteger, Ty.isFloat, Ty.isCharacter, Ty.isPlatformString,
    nonNull_nominal hoptional, Ty.hint?, Language.stringTy, Language.integerTy, Language.floatTy,
    Language.characterTy, not_isExactly_of_args]

/-- With arguments, a class neither erases nor is it the base exception type. -/
theorem kept_of_args (hoptional : (Ty.nominal d (a :: as) o hint).isOptional = false) :
    m.erasesToObject (.nominal d (a :: as) o hint) = false ∧
      (Ty.nominal d (a :: as) o hint).erasesToException = false := by
  unfold Model.erasesToObject Ty.erasesToException
  rw [simplify_eq hoptional]
  simp [Ty.withoutHint, Language.exceptionTy, Ty.of]

/-- What is written of a class with arguments. -/
theorem writtenType_of_args (hoptional : (Ty.nominal d (a :: as) o hint).isOptional = false) :
    writtenType m lower ctx (.nominal d (a :: as) o hint) =
      if ctx.allowsPrimitives && hint = some .platformString then
        pure (.cls Support.platformString)
      else if m.isBoolean (.nominal d (a :: as) o hint) then
        if ctx.allowsPrimitives then pure (.primitive .boolean)
        else classType m lower ctx Language.booleanTy
      else classType m lower ctx (.nominal d (a :: as) o hint) := by
  have hparam : (Ty.nominal d (a :: as) o hint).isTypeParameter = false := by
    rw [Ty.isTypeParameter, nonNull_nominal hoptional]
    rfl
  unfold writtenType
  rw [simplify_eq hoptional, (kept_of_args (m := m) hoptional).2, hoptional,
    rawForm?_of_args hoptional, hparam]
  cases hallowed : ctx.allowsPrimitives with
  | true =>
    by_cases hhint : hint = some .platformString
    · simp [hhint, Ty.isComposite]
    · cases m.isBoolean (.nominal d (a :: as) o hint) <;> simp [hhint, Ty.isComposite]
  | false => simp [Ty.isComposite]

/-- Instantiations of one class whose arguments are seen alike are lowered alike,
where both or neither are below the Boolean type. -/
theorem answer?_step_congr (hargs : List.Forall₂ (SeenAlike m) as bs)
    (hboolean : m.isBoolean (.nominal d as o hint) = m.isBoolean (.nominal d bs o hint)) :
    (step m lower ctx (.nominal d as o hint)).answer? =
      (step m lower ctx (.nominal d bs o hint)).answer? := by
  cases hargs with
  | nil => rfl
  | @cons a b as bs hfirst hrest =>
    have hresolve : ∀ cs, resolveBound m ctx (Ty.nominal d cs o hint).collapse =
        .nominal d cs o hint := fun cs => resolveBound_of_not_param fun _ => rfl
    cases hoptional : (Ty.nominal d (a :: as) o hint).isOptional with
    | true =>
      rw [step_of_erases (by rw [hresolve, erases_of_optional hoptional]),
        step_of_erases (by rw [hresolve, erases_of_optional hoptional])]
    | false =>
      have hoptional' : (Ty.nominal d (b :: bs) o hint).isOptional = false := hoptional
      have hclass : (classType m lower ctx (.nominal d (a :: as) o hint)).answer? =
          (classType m lower ctx (.nominal d (b :: bs) o hint)).answer? :=
        answer?_classType_congr hoptional (.cons hfirst hrest) rfl
      rw [step_of_not_erases (by intro heq; cases heq)
          (by rw [hresolve, (kept_of_args hoptional).1]),
        step_of_not_erases (by intro heq; cases heq)
          (by rw [hresolve, (kept_of_args hoptional').1]),
        hresolve, hresolve, answer?_map, answer?_map, writtenType_of_args hoptional,
        writtenType_of_args hoptional', hboolean]
      split
      · rfl
      · split
        · rfl
        · rw [hclass]

end

end TypeLowering

namespace Env

open TypeLowering

variable {env : Env} {t : Ty}

theorem spellingIn_adjust (c : Config) (ctx : Context) :
    spellingIn (adjust c ctx) = spellingIn ctx := by
  rw [adjust_with_small]
  rfl

theorem lowerType?_eq_of_booleanCase (ht : env.model.BooleanCase t) (ctx : Context) :
    env.lowerType? t ctx = some <$>
      (if ctx.allowsPrimitives then pure (.primitive .boolean)
      else .cls <$> declName env.model Language.boolean (spellingIn ctx)) := by
  rw [lowerType?, step_booleanCase ht, (adjust_flags env.config ctx).2.2, spellingIn_adjust]

/-- Lowering the two types has the same answer in every position. -/
def LoweredAlike (env : Env) (s t : Ty) : Prop :=
  ∀ ctx, (env.lowerType? s ctx).answer? = (env.lowerType? t ctx).answer?

/-- No class type is written as a primitive type. -/
theorem classType_not_primitive {depth : Nat} {ctx : Context} {u : Target.Ty}
    (h : (classType env.model (argumentType env depth) ctx t).answer? = some u) :
    u.isPrimitive = false := by
  have hforms : Formation (fun _ => False) (fun u => u.isPrimitive = false) (fun _ => True) := {
    toExcuse := .never
    cls := fun _ => rfl
    member := fun _ _ _ => rfl
    apply := fun _ _ _ _ _ _ => rfl
    argument := fun _ _ => trivial
    anyType := trivial
    subtypeOf := fun _ _ => trivial
    supertypeOf := fun _ _ => trivial
    missing := fun _ _ => .inl trivial }
  have hleaves : ∀ v, Leaves (fun u => u.isPrimitive = false) env.model v :=
    fun _ => ⟨fun _ _ => rfl, .inr rfl⟩
  have hlower : ∀ v, Ensures (fun _ => False) (fun u => u.isPrimitive = false)
      (argumentType env depth v) := fun v =>
    argumentType_ensures hforms depth fun w _ => ⟨fun _ => rfl, fun _ _ _ => hleaves _⟩
  exact (hforms.classType hlower (hleaves _)).answer h

section

variable {d : DeclId} {a : Ty} {as bs : List Ty} {o : Option Ty}

/-- With arguments, a class is lowered to the primitive Boolean type just when it
is below the Boolean type. -/
theorem lowerType?_args_eq_boolean_iff :
    (env.lowerType? (.nominal d (a :: as) o none) .plain).answer? =
        some (some (.primitive .boolean)) ↔
      env.model.isBoolean (.nominal d (a :: as) o none) = true := by
  have hresolve : resolveBound env.model (adjust env.config .plain)
      (Ty.nominal d (a :: as) o none).collapse = .nominal d (a :: as) o none :=
    resolveBound_of_not_param fun _ => rfl
  have hallowed : (adjust env.config .plain).allowsPrimitives = true :=
    (adjust_flags env.config .plain).2.2
  unfold lowerType?
  cases hoptional : (Ty.nominal d (a :: as) o none).isOptional with
  | true =>
    have herases : env.model.erasesToObject (.nominal d (a :: as) o none) = true :=
      erases_of_optional hoptional
    rw [step_of_erases (by rw [hresolve, herases]), Model.isBoolean_of_optional hoptional]
    refine iff_of_false (fun heq => ?_) Bool.false_ne_true
    split at heq <;> cases heq
  | false =>
    rw [step_of_not_erases (by intro heq; cases heq)
      (by rw [hresolve, (kept_of_args hoptional).1]), hresolve, answer?_map,
      writtenType_of_args hoptional, hallowed]
    cases hboolean : env.model.isBoolean (.nominal d (a :: as) o none) with
    | true => exact iff_of_true rfl rfl
    | false =>
      refine iff_of_false (fun heq => ?_) Bool.false_ne_true
      simp only [Option.map_eq_some_iff, Option.some.injEq] at heq
      obtain ⟨u, hu, rfl⟩ := heq
      exact absurd (classType_not_primitive (by simpa using hu)) (by decide)

/-- Instantiations of one class whose arguments are seen alike are lowered alike
just when both or neither are below the Boolean type. -/
theorem loweredAlike_iff (d : DeclId) (o : Option Ty)
    (hargs : List.Forall₂ (SeenAlike env.model) as bs) :
    env.LoweredAlike (.nominal d as o none) (.nominal d bs o none) ↔
      env.model.isBoolean (.nominal d as o none) = env.model.isBoolean (.nominal d bs o none) := by
  refine ⟨fun halike => ?_, fun hboolean ctx => answer?_step_congr hargs hboolean⟩
  cases hargs with
  | nil => rfl
  | cons hfirst hrest =>
    rw [Bool.eq_iff_iff, ← lowerType?_args_eq_boolean_iff, ← lowerType?_args_eq_boolean_iff,
      halike .plain]

end

/-- A class or object below the Boolean type is lowered as the Boolean type, with
the same notes, so that it is never written by its own name.  As an argument,
optional or not, it is taken for the Boolean type: instantiations of a class for
the two are lowered alike just when both or neither are below the Boolean type,
which holds of every class if declared supertypes are classes or interfaces.  But
an optional case by itself is written as a class type, by its own name where
there are no arguments to write. -/
theorem lowerType?_booleanCase (env : Env) {t : Ty} (ht : env.model.BooleanCase t) :
    (∀ ctx, env.lowerType? t ctx = env.lowerType? Language.booleanTy ctx ∧
      (env.lowerType? t ctx).answer? = some (some
        (if ctx.allowsPrimitives then .primitive .boolean
        else .cls (env.model.spelling Language.boolean (spellingIn ctx))))) ∧
    (∀ a, a = t ∨ a = t.optional → ∀ d before after o,
      (env.LoweredAlike (.nominal d (before ++ a :: after) o none)
          (.nominal d (before ++ Language.booleanTy :: after) o none) ↔
        env.model.isBoolean (.nominal d (before ++ a :: after) o none) =
          env.model.isBoolean (.nominal d (before ++ Language.booleanTy :: after) o none)) ∧
      ((∀ e, ∀ s ∈ (env.model.decl e).supertypes, s.decl?.isSome = true) →
        env.LoweredAlike (.nominal d (before ++ a :: after) o none)
          (.nominal d (before ++ Language.booleanTy :: after) o none))) ∧
    (∀ ctx, env.lowerType? t.optional ctx =
      some <$> classType env.model (argumentType env env.depth) (adjust env.config ctx) t) ∧
    ∀ ctx, ∀ d ∈ t.decl?, ctx.raw = true ∨ (∀ s ∈ t.segments, s.args = []) →
      (env.lowerType? t.optional ctx).answer? =
        some (some (.cls (env.model.spelling d (spellingIn ctx)))) := by
  refine ⟨fun ctx => ⟨?_, ?_⟩, fun a ha d before after o => ?_,
    fun ctx => step_optional_booleanCase ht, fun ctx d hd hbare => ?_⟩
  · rw [lowerType?_eq_of_booleanCase ht,
      lowerType?_eq_of_booleanCase env.model.booleanCase_boolean]
  · rw [lowerType?_eq_of_booleanCase ht, answer?_map]
    split <;> rfl
  · have hseen : SeenAlike env.model a Language.booleanTy := by
      intro ctx
      rw [view_booleanCase env.model.booleanCase_boolean]
      rcases ha with rfl | rfl
      · exact view_booleanCase ht
      · exact view_optional_booleanCase ht
    have hargs : List.Forall₂ (SeenAlike env.model) (before ++ a :: after)
        (before ++ Language.booleanTy :: after) :=
      List.rel_append (List.forall₂_same.mpr fun x _ => .refl _ x)
        (.cons hseen (List.forall₂_same.mpr fun x _ => .refl _ x))
    have halike := env.loweredAlike_iff d o hargs
    exact ⟨halike, fun hm => halike.mpr (Model.isBoolean_congr hm d _ _ o none)⟩
  · rw [lowerType?, answer?_step_optional_booleanCase ht hd, spellingIn_adjust]
    rwa [adjust_with_small]

/-- The object `true` is lowered as the Boolean type, and an iterable of it as one of
Booleans. -/
theorem trueObject_lowered :
    Model.new.BooleanCase (.of Language.trueObject []) ∧
      (Env.of .new .standard).lowerType? (.of Language.trueObject []) .inExtends =
        (Env.of .new .standard).lowerType? Language.booleanTy .inExtends ∧
      (Env.of .new .standard).LoweredAlike
        (.of Language.iterable [.optional (.of Language.trueObject [])])
        (.of Language.iterable [Language.booleanTy]) ∧
      ((Env.of .new .standard).lowerType?
          (.optional (.of Language.trueObject [])) .plain).answer? =
        some (some (.cls "vela.language.true")) := by
  have hcase : Model.new.BooleanCase (.of Language.trueObject []) := ⟨rfl, rfl, by decide⟩
  obtain ⟨hlowered, hargument, -, hoptional⟩ :=
    lowerType?_booleanCase (Env.of .new .standard) hcase
  have hiterable := hargument _ (.inr rfl) Language.iterable [] [] none
  exact ⟨hcase, (hlowered .inExtends).1, hiterable.1.mpr (by decide),
    hoptional .plain Language.trueObject rfl (.inr (by decide))⟩

/-- The optional types of `true` and of the Boolean type are told apart, wherever
nothing is primitive and elsewhere. -/
theorem optional_trueObject_apart :
    Model.new.isSubtypeOf (.of Language.trueObject []) Language.boolean = true ∧
      ((Env.of .new .standard).lowerType?
          (.optional (.of Language.trueObject [])) .plain).answer? ≠
        ((Env.of .new .standard).lowerType? (.optional Language.booleanTy) .plain).answer? ∧
      ((Env.of .new .standard).lowerType?
          (.optional (.of Language.trueObject [])) .boxed).answer? ≠
        ((Env.of .new .standard).lowerType? (.optional Language.booleanTy) .boxed).answer? := by
  decide

end Env

end TreeLowering
