import TreeLowering.Proofs.ValueArrival
import TreeLowering.Proofs.Behaviour.Conversion
set_option autoImplicit false

/-!
# Proofs: conversions between raw and boxed form

A value is boxed by a call of the factory of its class and made raw by an
accessor, and which of these there is depends on the type of the value alone.
Two chains of questions about the type decide, one for each direction, and the
types whose values are kept raw are a third notion.  All three coincide as far as
nothing of a type is hidden and it does not admit the absent value; a raw string
that may be absent has an accessor and no factory.
-/

namespace TreeLowering

/-- The declarations that raw values are boxed into. -/
def boxedDecls : List DeclId :=
  [Language.integer, Language.float, Language.string, Language.character, Language.boolean,
    Language.array]

/-- Code that stands for a value where the value of `e` is present, and is absent
elsewhere; `tmp` names the value of `e`. -/
def Target.Expr.guarded (tmp : String) (ty : Target.Ty) (e present : Target.Expr) : Target.Expr :=
  .letIn [.declareFinal tmp ty e] (.cond (.binary .ne (.ident tmp) .null) present .null)

namespace Env

open Lowering
open Behaviour (Act Does Locals Machine Value)

variable {env : Env} {s s' : LowerState} {e code : Target.Expr} {t : Ty}

/-- The second code is the first one under a boxing conversion: a call of the
factory of a boxed class, or, for a value of the type of everything, nothing at
all after the value is dropped. -/
inductive BoxedAs (env : Env) (e : Target.Expr) : Target.Expr → Prop where
  | factory {d : DeclId} (hd : d ∈ boxedDecls) (typeArgs : List Target.Ty) :
    BoxedAs env e (.callStatic (.cls (env.model.spelling d .full)) typeArgs Support.box [e])
  | dropped : BoxedAs env e (.letIn [.exec e] .null)

/-- Raw values of the type are boxed by a conversion. -/
def boxes (env : Env) (t : Ty) : Bool :=
  env.model.isBasic t || env.model.isArray t || decide (t = Language.voidTy)

/-! ## Boxing -/

/-- No conversion leaves the code as it is. -/
theorem BoxedAs.ne (h : env.BoxedAs e code) : code ≠ e := by
  cases h with
  | factory hd typeArgs =>
    -- A call is larger than its argument.
    intro heq
    have hsize := congrArg sizeOf heq
    simp [Target.Expr.callStatic] at hsize
    omega
  | dropped => exact Target.Expr.letIn_exec_ne e _

theorem isSome_boxClass? (env : Env) (t : Ty) :
    (env.boxClass? t).isSome = env.model.isBasic t := by
  unfold boxClass? Model.isBasic
  repeat' split
  all_goals simp_all

theorem boxClass?_eq_none_iff : env.boxClass? t = none ↔ env.model.isBasic t = false := by
  rw [← isSome_boxClass?, Option.isSome_eq_false_iff, Option.isNone_iff_eq_none]

theorem mem_boxedDecls {d : DeclId} (h : env.boxClass? t = some d) : d ∈ boxedDecls := by
  unfold boxClass? at h
  repeat' split at h
  all_goals first
    | (obtain rfl := Option.some.inj h; decide)
    | contradiction

theorem boxedAs_boxInto {d : DeclId} {typeArgs : List Target.Ty} (hd : d ∈ boxedDecls)
    (h : (env.boxInto d typeArgs e).answer? = some code) : env.BoxedAs e code := by
  rw [answer?_boxInto] at h
  obtain rfl := Option.some.inj h
  exact .factory hd typeArgs

/-- A raw value is boxed exactly when its type is one that raw values are converted
for, and stays as it is otherwise. -/
theorem boxedAs_of_boxValue (h : (env.boxValue e t).answer? = some code) :
    (env.boxes t = true ∧ env.BoxedAs e code) ∨ (env.boxes t = false ∧ code = e) := by
  cases hclass : env.boxClass? t with
  | some d =>
    rw [boxValue_of_boxClass hclass] at h
    have hbasic : env.model.isBasic t = true := by rw [← isSome_boxClass?, hclass]; rfl
    exact .inl ⟨by simp [boxes, hbasic], boxedAs_boxInto (mem_boxedDecls hclass) h⟩
  | none =>
    have hbasic := boxClass?_eq_none_iff.mp hclass
    cases harray : env.model.isArray t with
    | true =>
      unfold boxValue at h
      simp only [hclass, harray, if_true] at h
      obtain ⟨element, -, h⟩ := TypeLowering.answer?_bind.mp h
      exact .inl ⟨by simp [boxes, harray], boxedAs_boxInto (by decide) h⟩
    | false =>
      by_cases hvoid : t = Language.voidTy
      · rw [boxValue_eq_letIn hclass harray hvoid] at h
        obtain rfl := Option.some.inj h
        exact .inl ⟨by simp [boxes, hvoid], .dropped⟩
      · rw [boxValue_eq_pure hclass harray hvoid] at h
        obtain rfl := Option.some.inj h
        exact .inr ⟨by simp [boxes, hbasic, harray, hvoid], rfl⟩

/-- Boxing gives an answer unless the element type of an array has none. -/
theorem exists_boxValue (e : Target.Expr)
    (helement : env.model.isBasic t = false → env.model.isArray t = true →
      ∃ element, (env.lowerType (env.arrayElement t) .typeArgument).answer? = some element) :
    ∃ code, (env.boxValue e t).answer? = some code := by
  cases hclass : env.boxClass? t with
  | some d => exact ⟨_, by rw [boxValue_of_boxClass hclass, answer?_boxInto]⟩
  | none =>
    cases harray : env.model.isArray t with
    | true =>
      obtain ⟨element, helement⟩ := helement (boxClass?_eq_none_iff.mp hclass) harray
      unfold boxValue
      simp only [hclass, harray, if_true]
      exact ⟨_, TypeLowering.answer?_bind.mpr ⟨element, helement, answer?_boxInto ..⟩⟩
    | false =>
      by_cases hvoid : t = Language.voidTy
      · exact ⟨_, by rw [boxValue_eq_letIn hclass harray hvoid, TypeLowering.answer?_pure]⟩
      · exact ⟨_, by rw [boxValue_eq_pure hclass harray hvoid, TypeLowering.answer?_pure]⟩

/-! ## Unboxing -/

/-- No conversion but that of a string literal leaves the code as it is. -/
theorem unboxedAs_ne (hliteral : e.isStringLiteral = false) (h : e.UnboxedAs code) : code ≠ e := by
  rintro rfl
  rw [Target.Expr.unboxedAs_self_iff.mp h] at hliteral
  contradiction

/-- A boxed value of a type that none is converted for stays as it is. -/
theorem unboxValue_eq_self (h : Yields (env.unboxValue e t) s code s')
    (ht : env.converts t = false) : code = e := by
  rw [converts_eq] at ht
  simp only [Bool.or_eq_false_iff, Option.isSome_eq_false_iff, Option.isNone_iff_eq_none] at ht
  obtain ⟨⟨hstring, hmethod⟩, hoptional⟩ := ht
  rw [unboxValue_eq_pure hstring hmethod hoptional] at h
  exact (yields_pure.mp h).1

theorem answer?_boxedString (env : Env) :
    ∃ ty, (env.lowerType Language.stringTy .boxed).answer? = some ty :=
  ⟨_, @lowerType_boxed_string env _ none rfl rfl (Model.isBoolean_of_isScalar (by decide))⟩

/-- Unboxing always gives code. -/
theorem exists_unboxValue (env : Env) (e : Target.Expr) (t : Ty) (s : LowerState) :
    ∃ code s', Yields (env.unboxValue e t) s code s' := by
  have hpure : ∀ c : Target.Expr, ∃ code s', Yields (pure c) s code s' :=
    fun c => ⟨c, s, yields_pure.mpr ⟨rfl, rfl⟩⟩
  unfold unboxValue
  split
  · exact hpure _
  · split
    · exact hpure _
    · split
      · unfold unboxOptionalString
        split
        · exact hpure _
        · obtain ⟨ty, hty⟩ := env.answer?_boxedString
          obtain ⟨s', hlower⟩ := exists_yields_of_answer hty
            { s with names := (s.names.fresh Support.temporary).2 }
          exact ⟨_, s', yields_bind.mpr ⟨_, _, yields_fresh.mpr ⟨rfl, rfl⟩,
            yields_bind.mpr ⟨ty, s', hlower, yields_pure.mpr ⟨rfl, rfl⟩⟩⟩⟩
      · exact hpure _

/-! ## Values that may be absent -/

/-- An optional type is none of those that are boxed into a class. -/
theorem boxes_of_optional (hoptional : t.isOptional = true) (hvoid : t ≠ Language.voidTy) :
    env.boxes t = false := by
  have hbasic : env.model.isBasic t = false := by
    cases hbasic : env.model.isBasic t with
    | false => rfl
    | true =>
      rw [Model.not_optional_of_isBasic hbasic] at hoptional
      contradiction
  simp [boxes, hbasic, Model.isArray_of_optional hoptional, hvoid]

/-- Boxed values of an optional type are converted when it is a string's. -/
theorem converts_of_optional (hoptional : t.isOptional = true) :
    env.converts t = t.definite.isString := by
  simp [converts, hoptional, Ty.not_scalar_of_optional hoptional,
    Model.isBoolean_of_optional hoptional, Model.isArray_of_optional hoptional]

/-- A boxed value of an optional type is made raw only where it is present. -/
theorem unboxValue_of_optional (h : Yields (env.unboxValue e t) s code s')
    (hliteral : e.isStringLiteral = false) (hoptional : t.isOptional = true)
    (hconverts : env.converts t = true) :
    ∃ tmp ty, code = .guarded tmp ty e ((Target.Expr.ident tmp).get Support.unboxString) := by
  rw [converts_of_optional hoptional] at hconverts
  rw [unboxValue_of_optional_string (by simp [hoptional, hconverts]), unboxOptionalString,
    if_neg (by simp [hliteral])] at h
  obtain ⟨tmp, s₁, _, h⟩ := yields_bind.mp h
  obtain ⟨ty, s₂, _, h⟩ := yields_bind.mp h
  obtain ⟨rfl, _⟩ := yields_pure.mp h
  exact ⟨tmp, ty, rfl⟩

/-- Guarded code evaluates the value once, and the code for where it is present
only there. -/
theorem does_guarded {machine : Machine} {ρ : Locals} {a : Act Value} {tmp : String}
    {ty : Target.Ty} {present : Target.Expr} {b : Value → Act Value}
    (h : Does ρ (machine.evalCode e) a)
    (hpresent : ∀ v, Does ((tmp, v) :: ρ) (machine.evalCode present) (b v)) :
    Does ρ (machine.evalCode (.guarded tmp ty e present))
      (a >>= fun v => if v.isAbsent then pure .absent else b v) := by
  refine Machine.does_let h fun v => ?_
  have hread : Locals.read tmp ((tmp, v) :: ρ) = pure v := by simp [Locals.read]
  have hident : Does ((tmp, v) :: ρ) (machine.evalCode (.ident tmp)) (pure v) :=
    Machine.does_read hread
  have htest : Does ((tmp, v) :: ρ)
      (machine.evalCode (.binary .ne (.ident tmp) .null)) (pure (.bool (!v.isAbsent))) := by
    have hne := Machine.does_binary .ne hident Machine.does_null
    simp only [Behaviour.operate, pure_bind, Behaviour.combine, Value.same_absent] at hne
    exact hne
  have hcond := htest.bind fun t => (Does.lift (Behaviour.truth t)).bind
    fun present => Does.ite present (hpresent v) (@Machine.does_null machine _)
  simp only [pure_bind, Behaviour.truth] at hcond
  rw [Machine.evalCode]
  -- The test is decided by which kind of value it is.
  cases v with
  | absent => exact hcond
  | bool _ | int _ | float _ | char _ | text _ | seq _ | iter _ | entry _ _ | function _
  | object _ | statics => exact hcond

/-! ## Types whose values are kept raw -/

theorem isBasic_eq (env : Env) (t : Ty) :
    env.model.isBasic t = (t.isScalar || env.model.isBoolean t) := by
  simp only [Model.isBasic, Ty.isScalar]
  cases t.isString <;> cases env.model.isBoolean t <;> simp

/-- Raw values are boxed by a conversion exactly when boxed values are made raw by
one, unless the type admits the absent value. -/
theorem boxes_of_present (hoptional : t.isOptional = false) : env.boxes t = env.converts t := by
  have hvoid : t ≠ Language.voidTy := by
    rintro rfl
    contradiction
  simp [boxes, converts, isBasic_eq, hvoid, hoptional]

theorem ne_void_of_raw (hraw : (env.valueForm t).answer? = some .raw) : t ≠ Language.voidTy := by
  rintro rfl
  have hkept := (valueForm_raw_iff.mp hraw).kept
  contradiction

/-- A type that is kept raw is basic or an optional string, as far as nothing of it
is hidden. -/
theorem basic_of_evident (h : env.model.Evident t) (hraw : (env.valueForm t).answer? = some .raw) :
    env.model.isBasic t = true ∨ t.isOptional = true := by
  have hunbox := (keptRaw_iff_canUnbox h).mp (valueForm_raw_iff.mp hraw)
  obtain hbasic | hplatform := (Bool.or_eq_true _ _).mp hunbox
  · exact .inl hbasic
  · cases hoptional : t.isOptional with
    | true => exact .inr rfl
    | false =>
      have hstring := Ty.isString_of_nonNull h.sole hoptional (h.string hplatform)
      exact .inl (by simp [Model.isBasic, hstring])

/-- Of a type that is kept raw, raw values are converted exactly when boxed ones are
and the type does not admit the absent value. -/
theorem boxes_of_raw (hraw : (env.valueForm t).answer? = some .raw) :
    env.boxes t = (!t.isOptional && env.converts t) := by
  cases hoptional : t.isOptional with
  | true => exact boxes_of_optional hoptional (ne_void_of_raw hraw)
  | false => exact boxes_of_present hoptional

/-- Of a type that is kept raw, boxing gives code as far as nothing of the type is
hidden: no array is kept raw. -/
theorem exists_boxValue_of_evident (h : env.model.Evident t)
    (hraw : (env.valueForm t).answer? = some .raw) (e : Target.Expr) :
    ∃ code, (env.boxValue e t).answer? = some code := by
  refine exists_boxValue e fun hbasic harray => ?_
  rcases basic_of_evident h hraw with htrue | hoptional
  · rw [htrue] at hbasic
    contradiction
  · rw [Model.isArray_of_optional hoptional] at harray
    contradiction

/-- Values of a type that is kept raw are converted as their type is one that
conversions exist for.  Unboxing always gives code, and boxing does as far as
nothing of the type is hidden; then boxed values are always converted.  Raw values
are converted when boxed ones are and the type does not admit the absent value.
What a conversion does is what the value does, so that the value is evaluated
once; and where a boxed value is absent, no accessor is asked for it. -/
theorem convert_rawForm (env : Env) {t : Ty} (hraw : (env.valueForm t).answer? = some .raw)
    {e : Target.Expr} (he : e.isStringLiteral = false) :
    (∀ s, ∃ code s', Yields (env.convert e true t .raw) s code s') ∧
    (∀ s code s', Yields (env.convert e true t .raw) s code s' →
      if env.converts t then e.UnboxedAs code ∧ code ≠ e else code = e) ∧
    (∀ s code s', Yields (env.convert e false t .boxed) s code s' →
      if env.boxes t then env.BoxedAs e code ∧ code ≠ e else code = e) ∧
    env.boxes t = (!t.isOptional && env.converts t) ∧
    (env.model.Evident t → env.converts t = true ∧
      ∀ s, ∃ code s', Yields (env.convert e false t .boxed) s code s') ∧
    (∀ isBoxed form s code s', Yields (env.convert e isBoxed t form) s code s' →
      ∀ (machine : Machine) (ρ : Locals) (a : Act Value),
        Does ρ (machine.evalCode e) a → Does ρ (machine.evalCode code) a) ∧
    (t.isOptional = true → env.converts t = true → ∀ s code s',
      Yields (env.convert e true t .raw) s code s' →
        ∃ tmp ty, code = .guarded tmp ty e ((Target.Expr.ident tmp).get Support.unboxString) ∧
          ∀ (machine : Machine) (ρ : Locals) (a : Act Value) (b : Value → Act Value)
            (present : Target.Expr), Does ρ (machine.evalCode e) a →
              (∀ v, Does ((tmp, v) :: ρ) (machine.evalCode present) (b v)) →
                Does ρ (machine.evalCode (.guarded tmp ty e present))
                  (a >>= fun v => if v.isAbsent then pure .absent else b v)) := by
  refine ⟨env.exists_unboxValue e t, fun s code s' h => ?_, fun s code s' h => ?_,
    boxes_of_raw hraw,
    fun hevident => ⟨converts_of_evident hevident hraw, fun s => ?_⟩,
    fun isBoxed form s code s' h machine ρ a ha => ?_,
    fun hoptional hconverts s code s' h => ?_⟩
  · have hunbox : Yields (env.unboxValue e t) s code s' := h
    cases hconverts : env.converts t with
    | true =>
      have hunboxed := (unboxedAs_unboxValue_iff hunbox).mpr (.inr hconverts)
      exact ⟨hunboxed, unboxedAs_ne he hunboxed⟩
    | false => exact unboxValue_eq_self hunbox hconverts
  · have hbox : Yields (liftM (env.boxValue e t)) s code s' := h
    rcases boxedAs_of_boxValue hbox.answer with ⟨htrue, hboxed⟩ | ⟨hfalse, hself⟩
    · rw [if_pos htrue]
      exact ⟨hboxed, hboxed.ne⟩
    · rwa [if_neg (by simp [hfalse])]
  · obtain ⟨code, hcode⟩ := exists_boxValue_of_evident hevident hraw e
    obtain ⟨s', h⟩ := exists_yields_of_answer hcode s
    exact ⟨code, s', h⟩
  · exact Behaviour.does_convert h (fun _ => ne_void_of_raw hraw) ha
  · obtain ⟨tmp, ty, rfl⟩ := unboxValue_of_optional h he hoptional hconverts
    exact ⟨tmp, ty, rfl, fun machine ρ a b present => does_guarded⟩

/-- A number is converted both ways, and of an optional string that stays a
platform string the boxed value is made raw where it is present. -/
theorem integer_converts_both_ways :
    ((Env.of .new .standard).valueForm Language.integerTy).answer? = some .raw ∧
      (∀ s code s', Yields ((Env.of .new .standard).convert (.ident "x") true Language.integerTy
        .raw) s code s' → (Target.Expr.ident "x").UnboxedAs code) ∧
      (∀ s code s', Yields ((Env.of .new .standard).convert (.ident "x") false Language.integerTy
        .boxed) s code s' → (Env.of .new .standard).BoxedAs (.ident "x") code) ∧
      ∀ s code s', Yields ((Env.of .new .standard).convert (.ident "x") true
        (.optional (Language.stringTy.withHint .platformString)) .raw) s code s' →
          ∃ tmp ty, code = .guarded tmp ty (.ident "x")
            ((Target.Expr.ident tmp).get Support.unboxString) := by
  have hraw : ((Env.of .new .standard).valueForm Language.integerTy).answer? = some .raw := by
    decide
  have hinteger := convert_rawForm (Env.of .new .standard) hraw (e := .ident "x") rfl
  have hstring := convert_rawForm (Env.of .new .standard)
    (t := .optional (Language.stringTy.withHint .platformString)) (by decide) (e := .ident "x") rfl
  refine ⟨hraw, fun s code s' h => ?_, fun s code s' h => ?_, fun s code s' h => ?_⟩
  · have hunboxed := hinteger.2.1 s code s' h
    rw [if_pos (by decide)] at hunboxed
    exact hunboxed.1
  · have hboxed := hinteger.2.2.1 s code s' h
    rw [if_pos (by decide)] at hboxed
    exact hboxed.1
  · obtain ⟨tmp, ty, hcode, -⟩ := hstring.2.2.2.2.2.2 (by decide) (by decide) s code s' h
    exact ⟨tmp, ty, hcode⟩

/-- A raw string that may be absent is boxed as it is.  A raw number whose type is a
union of one is boxed as it is, and a boxed one made raw as it is. -/
theorem optionalPlatformString_stays_raw :
    ((Env.of .new .standard).valueForm
        (.optional (Language.stringTy.withHint .platformString))).answer? = some .raw ∧
      (∀ s, Yields ((Env.of .new .standard).convert (.ident "x") false
        (.optional (Language.stringTy.withHint .platformString)) .boxed) s (.ident "x") s) ∧
      ((Env.of .new .standard).valueForm (.union [Language.integerTy])).answer? = some .raw ∧
      (∀ s, Yields ((Env.of .new .standard).convert (.ident "x") false
        (.union [Language.integerTy]) .boxed) s (.ident "x") s) ∧
      ∀ s, Yields ((Env.of .new .standard).convert (.ident "x") true
        (.union [Language.integerTy]) .raw) s (.ident "x") s := by
  have hstays : ∀ {t : Ty}, (Env.of .new .standard).boxClass? t = none →
      Model.new.isArray t = false → t ≠ Language.voidTy → ∀ s,
        Yields ((Env.of .new .standard).convert (.ident "x") false t .boxed) s (.ident "x") s :=
    fun hclass harray hvoid s =>
      yields_ofType.mpr ⟨[], boxValue_eq_pure hclass harray hvoid (.ident "x"), rfl⟩
  refine ⟨by decide, hstays (by decide) (by decide) (by decide), by decide,
    hstays (by decide) (by decide) (by decide), fun s => ?_⟩
  have hunbox : (Env.of .new .standard).unboxValue (.ident "x") (.union [Language.integerTy]) =
      pure (.ident "x") := unboxValue_eq_pure (by decide) (by decide) (by decide) _
  rw [convert, if_pos rfl, hunbox]
  exact yields_pure.mpr ⟨rfl, rfl⟩

end Env

end TreeLowering
