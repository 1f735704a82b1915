import TreeLowering.Proofs.OptionalType
set_option autoImplicit false

/-!
# Proofs: types with a raw form

Two decisions tell which types have a raw form.  The form that the values of a
type are kept in comes from lowering the type twice, as it stands and where
nothing is primitive; the form that a call is taken to return comes from the
type as it is given.

The first looks through a union or intersection of one and erases what has no
class of its own; the second does neither.  So they part at the union of one
number, which is kept raw and said to have no raw form, and at the union of both
cases of the Boolean type, which is an object and said to have one.
-/

namespace TreeLowering

/-! ## Basic types -/

namespace Ty

variable {t : Ty}

theorem isExactly_iff {d : DeclId} :
    t.isExactly (.of d []) = true ↔ ∃ hint, t = .nominal d [] none hint := by
  unfold isExactly
  rw [beq_iff_eq]
  constructor
  · intro h
    cases t with
    | nominal d' as o hint =>
      obtain ⟨rfl, rfl, rfl⟩ : d' = d ∧ as = [] ∧ o = none := by simpa [withoutHint, of] using h
      exact ⟨hint, rfl⟩
    | union _ | inter _ | param _ | bottom | error => contradiction
  · rintro ⟨hint, rfl⟩
    rfl

/-- The hint makes the type a platform string where it is written without
arguments. -/
def isBarePlatformString (t : Ty) : Bool :=
  t.simplify.hint? == some .platformString && t.simplify.segments.all (·.args.isEmpty)

/-- What does not admit the absent value loses no case without it. -/
theorem nonNull_of_not_optional (hoptional : t.isOptional = false) :
    t.nonNull = t ∨ t = union [t.nonNull] ∨ t = union [] := by
  cases t with
  | nominal d _ _ _ =>
    simp only [isOptional, Bool.or_eq_false_iff, beq_eq_false_iff_ne] at hoptional
    left
    simp [nonNull, hoptional]
  | union cases =>
    have hpresent := presentCases_eq_self (hasAbsentCase_of_not_optional hoptional)
    rcases cases with _ | ⟨only, _ | ⟨second, rest⟩⟩
    · exact .inr (.inr rfl)
    · right; left
      simp only [nonNull, hpresent]
    · left
      simp only [nonNull, hpresent]
  | inter _ | param _ | bottom | error => exact .inl rfl

end Ty

namespace Model

variable {m : Model} {t : Ty} {target : DeclId}

mutual

/-- What admits the absent value is of none but root classes. -/
theorem climb_of_optional {up : Ty → Option Ty}
    (hup : ∀ t, m.supertype? t target = m.climb up target t) (htarget : target ∉ rootDecls) :
    ∀ t : Ty, t.isOptional = true → m.climb up target t = none
  | .nominal d as o hint, h => by
    have hroot : d ∈ rootDecls := by
      simp only [Ty.isOptional, Bool.or_eq_true, beq_iff_eq] at h
      rcases h with rfl | rfl <;> decide
    rw [← hup]
    exact supertypeWithin_root htarget hroot _
  | .union cases, h => by
    rw [climb, climbEach_of_optional hup htarget cases (by simpa [Ty.isOptional] using h)]
    rfl
  | .inter _, h | .param _, h | .bottom, h | .error, h => by simp [Ty.isOptional] at h

theorem climbEach_of_optional {up : Ty → Option Ty}
    (hup : ∀ t, m.supertype? t target = m.climb up target t) (htarget : target ∉ rootDecls) :
    ∀ cases : List Ty, Ty.anyOptional cases = true → m.climbEach up target cases = none
  | [], h => by simp [Ty.anyOptional] at h
  | t :: ts, h => by
    simp only [Ty.anyOptional, Bool.or_eq_true] at h
    rcases h with h | h
    · have hbottom : t ≠ .bottom := by
        rintro rfl
        simp [Ty.isOptional] at h
      rw [climbEach, if_neg hbottom, climb_of_optional hup htarget t h]
    · rw [climbEach, climbEach_of_optional hup htarget ts h]
      cases m.climb up target t <;> simp

end

theorem supertype?_of_optional (h : t.isOptional = true) (htarget : target ∉ rootDecls) :
    m.supertype? t target = none := by
  obtain ⟨up, hup⟩ := m.exists_climb target
  rw [hup, climb_of_optional hup htarget t h]

theorem isBoolean_of_optional (h : t.isOptional = true) : m.isBoolean t = false := by
  simp [isBoolean, isSubtypeOf, supertype?_of_optional h (by decide : Language.boolean ∉ rootDecls)]

/-- The declarations of the basic types. -/
def basicDecls : List DeclId :=
  [Language.string, Language.integer, Language.float, Language.character]

/-- A basic type is a Boolean or one of four classes. -/
theorem isBasic_iff :
    m.isBasic t = true ↔
      m.isBoolean t = true ∨ ∃ d ∈ basicDecls, ∃ hint, t = .nominal d [] none hint := by
  have hexact : t.isString = true ∨ t.isInteger = true ∨ t.isFloat = true ∨
      t.isCharacter = true ↔ ∃ d ∈ basicDecls, ∃ hint, t = .nominal d [] none hint := by
    simp only [Ty.isString, Ty.isInteger, Ty.isFloat, Ty.isCharacter, Language.stringTy,
      Language.integerTy, Language.floatTy, Language.characterTy, Ty.isExactly_iff, basicDecls,
      List.mem_cons, List.not_mem_nil, or_false, exists_eq_or_imp, exists_eq_left]
  rw [← hexact, or_left_comm]
  simp only [isBasic, Bool.or_eq_true, or_assoc]

theorem isBasic_error : m.isBasic .error = false := by
  obtain ⟨up, hup⟩ := m.exists_climb Language.boolean
  have hboolean : m.isBoolean .error = false := by
    simp [isBoolean, isSubtypeOf, hup, climb]
  simp only [isBasic, hboolean]
  decide

theorem not_optional_of_isBasic (h : m.isBasic t = true) : t.isOptional = false := by
  rcases isBasic_iff.mp h with h | ⟨d, hd, hint, rfl⟩
  · cases hoptional : t.isOptional with
    | false => rfl
    | true =>
      rw [isBoolean_of_optional hoptional] at h
      contradiction
  · have hnone : ∀ c ∈ basicDecls, (c == Language.nothing || c == Language.void) = false := by
      decide
    exact hnone d hd

/-- The base exception type is no Boolean. -/
theorem not_boolean_exception (hint : Option Hint) (fuel : Nat) :
    m.supertypeWithin Language.boolean fuel (.nominal Language.exception [] none hint) = none := by
  refine supertypeWithin_eq_none (by decide) (fun u hu fuel => ?_) fuel
  obtain rfl : u = Language.identifiableObjectTy := List.mem_singleton.mp hu
  exact supertypeWithin_root (by decide) (by decide) fuel

/-- The classes of the basic types are not the platform's string class. -/
theorem spelling_basic_ne {d : DeclId} (h : d = Language.boolean ∨ d ∈ basicDecls) :
    m.spelling d .full ≠ Support.platformString := by
  have hsame : m.spelling d .full = Model.new.spelling d .full := by
    rcases h with rfl | h
    · exact spelling_language rfl rfl _
    · simp only [basicDecls, List.mem_cons, List.not_mem_nil, or_false] at h
      rcases h with rfl | rfl | rfl | rfl <;> exact spelling_language rfl rfl _
  have hapart : ∀ c ∈ Language.boolean :: basicDecls,
      Model.new.spelling c .full ≠ Support.platformString := by decide
  rw [hsame]
  exact hapart d (List.mem_cons.mpr h)

end Model

/-! ## Class types, boxed or not -/

namespace TypeLowering

variable {m : Model} {lower : Ty → TypeLowering Target.Ty} {ctx : Context} {t u : Ty}

/-- The position where nothing is primitive, otherwise alike. -/
def boxedIn (ctx : Context) : Context := { ctx with noPrimitives := true }

theorem arguments_boxedIn (owner : Ty) (pairs : List (ParamId × Option Ty)) :
    arguments m lower (boxedIn ctx) owner pairs = arguments m lower ctx owner pairs := by
  induction pairs with
  | nil => rfl
  | cons pair rest ih =>
    obtain ⟨p, arg⟩ := pair
    have hargument : argument m lower (boxedIn ctx) owner p arg =
        argument m lower ctx owner p arg := by
      cases arg <;> rfl
    simp only [arguments, hargument, ih]

theorem segmentType_boxedIn (c : Chain) (around : Target.Ty) (position : Nat) (segment : Ty) :
    segmentType m lower (boxedIn ctx) c around position segment =
      segmentType m lower ctx c around position segment := by
  cases segment with
  | nominal d as o hint =>
    simp only [segmentType, typeArguments, arguments_boxedIn]
    rfl
  | union _ | inter _ | param _ | bottom | error => rfl

theorem chainType_boxedIn (c : Chain) (segments : List Ty) :
    ∀ (position : Nat) (around : Target.Ty),
      chainType m lower (boxedIn ctx) c position around segments =
        chainType m lower ctx c position around segments := by
  induction segments with
  | nil => exact fun _ _ => rfl
  | cons segment rest ih =>
    intro position around
    simp only [chainType, segmentType_boxedIn, ih]

/-- Nothing but a platform string is written in another way where nothing is
primitive. -/
theorem classType_boxedIn (hraw : ctx.raw = false) (h : t.isBarePlatformString = false) :
    classType m lower (boxedIn ctx) t = classType m lower ctx t := by
  have hbare : t.simplify.segments.any (fun s => !s.args.isEmpty) = false →
      bareType m (boxedIn ctx) t.simplify = bareType m ctx t.simplify := by
    intro hargs
    have hall : t.simplify.segments.all (·.args.isEmpty) = true := by
      simpa [List.any_eq_false, List.all_eq_true] using hargs
    simp only [Ty.isBarePlatformString, hall, Bool.and_true, beq_eq_false_iff_ne] at h
    cases hsimple : t.simplify with
    | nominal d as o hint =>
      rw [hsimple] at h
      have hhint : hint ≠ some .platformString := h
      simp [bareType, hhint, spellingIn, boxedIn]
    | union _ | inter _ | param _ | bottom | error => rfl
  unfold classType
  dsimp only
  cases hargs : t.simplify.segments.any (fun s => !s.args.isEmpty) with
  | false =>
    rw [if_neg (by simp), if_neg (by simp), hbare hargs]
  | true =>
    have hraw' : (boxedIn ctx).raw = false := hraw
    have hname : (boxedIn ctx).simpleName = ctx.simpleName := rfl
    have hlifted : liftedType m lower (boxedIn ctx) t.simplify =
        liftedType m lower ctx t.simplify := by
      simp only [liftedType, typeArguments, arguments_boxedIn]
      rfl
    simp only [hraw, hraw', hname, hlifted, segmentType_boxedIn, chainType_boxedIn, Bool.not_false,
      Bool.and_true, if_true]

/-- A platform string without arguments is written as its class where nothing is
primitive. -/
theorem classType_of_bare (hsatisfies : ctx.satisfies = false)
    (hprimitives : ctx.noPrimitives = false) (h : t.isBarePlatformString = true) :
    classType m lower ctx t = pure (.cls Support.platformString) := by
  simp only [Ty.isBarePlatformString, Bool.and_eq_true, beq_iff_eq] at h
  obtain ⟨hhint, hall⟩ := h
  have hargs : t.simplify.segments.any (fun s => !s.args.isEmpty) = false := by
    simpa [List.any_eq_false, List.all_eq_true] using hall
  unfold classType
  dsimp only
  rw [hargs, if_neg (by simp)]
  cases hsimple : t.simplify with
  | nominal d as o hint =>
    rw [hsimple] at hhint
    have hhint : hint = some .platformString := hhint
    simp [bareType, hhint, hsatisfies, hprimitives]
  | union _ | inter _ | param _ | bottom | error => rw [hsimple] at hhint; contradiction

/-! ## What is written, boxed or not -/

/-- No particular position, where numbers may be small. -/
def natural (small : Bool) : Context := { small := small }

theorem adjust_plain (c : Config) : adjust c .plain = natural c.smallIntegers := by
  unfold adjust
  cases c.smallIntegers <;> rfl

theorem adjust_boxed (c : Config) : adjust c .boxed = boxedIn (natural c.smallIntegers) := by
  unfold adjust
  cases c.smallIntegers <;> rfl

/-- The shape of a union or intersection has an argument. -/
theorem not_bare_of_shape {shape : Ty} (h : m.iterableShape? t = some shape) :
    shape.isBarePlatformString = false := by
  have hargs : shape.args.head?.any (· ≠ .bottom) = true :=
    (Option.filter_eq_some_iff.mp h).2
  cases shape with
  | nominal d as o hint =>
    match as with
    | [] => contradiction
    | a :: as =>
      cases hoptional : (Ty.nominal d (a :: as) o hint).isOptional with
      | false =>
        unfold Ty.isBarePlatformString
        rw [simplify_nominal hoptional]
        simp [Ty.segments, Ty.args]
      | true =>
        unfold Ty.isBarePlatformString
        rw [Ty.simplify_of_optional hoptional]
        simp only [Ty.isOptional, Bool.or_eq_true, beq_iff_eq] at hoptional
        rcases hoptional with rfl | rfl <;> rfl
  | union _ | inter _ | param _ | bottom | error => contradiction

/-- What is no class is no platform string. -/
theorem not_bare_of_isComposite (h : t.simplify.isComposite = true) :
    t.isBarePlatformString = false := by
  unfold Ty.isBarePlatformString
  cases hsimple : t.simplify with
  | union _ | inter _ => rfl
  | nominal _ _ _ _ | param _ | bottom | error => rw [hsimple] at h; contradiction

/-- A type without a raw form is written as a class type in either position. -/
theorem writtenType_of_not_canUnbox (hcomposite : t.simplify.isComposite = false)
    (hexception : t.erasesToException = false) (h : m.canUnbox t = false) :
    writtenType m lower ctx t = classType m lower ctx t := by
  have hboolean : m.isBoolean t = false := by
    simp only [Model.canUnbox, Model.isBasic, Bool.or_eq_false_iff] at h
    simp [h]
  rw [writtenType_of_not_raw hcomposite (fun _ => h) (by simp [hboolean]), hexception]
  rfl

/-- A raw form is the platform's string class or a primitive type. -/
theorem exists_rawForm (h : m.canUnbox t = true) (small : Bool) :
    ∃ raw, rawForm? m small t = some raw ∧
      (raw = .cls Support.platformString ∨ ∃ p, raw = .primitive p) := by
  unfold rawForm?
  split
  · exact ⟨_, rfl, .inl rfl⟩
  · rename_i hstring
    repeat' split
    · exact ⟨_, rfl, .inr ⟨_, rfl⟩⟩
    · exact ⟨_, rfl, .inr ⟨_, rfl⟩⟩
    · exact ⟨_, rfl, .inr ⟨_, rfl⟩⟩
    · exact ⟨_, rfl, .inr ⟨_, rfl⟩⟩
    · simp_all [Model.canUnbox, Model.isBasic]

/-- A type with a raw form is written so where it may be primitive. -/
theorem writtenType_of_canUnbox {raw : Target.Ty} {small : Bool}
    (hcomposite : t.simplify.isComposite = false) (hexception : t.erasesToException = false)
    (h : m.canUnbox t = true) (hraw : rawForm? m small t = some raw) :
    writtenType m lower (natural small) t = pure raw := by
  have hallowed : ((natural small).allowsPrimitives && (!t.isOptional || t.isPlatformString)) =
      true := by
    simp only [Model.canUnbox, Bool.or_eq_true] at h
    rcases h with h | h
    · rw [Model.not_optional_of_isBasic h]
      rfl
    · rw [h, Bool.or_true]
      rfl
  have hsmall : (natural small).small = small := rfl
  unfold writtenType
  rw [if_neg (by simp [hcomposite]), if_neg (by simp [hexception]), if_pos hallowed, hsmall, hraw]

/-- The class of a basic type, where nothing is primitive. -/
theorem classType_basic {d : DeclId} {hint : Option Hint} {small : Bool}
    (hd : d = Language.boolean ∨ d ∈ Model.basicDecls) :
    (classType m lower (boxedIn (natural small)) (.nominal d [] none hint)).answer? =
      some (.cls (m.spelling d .full)) := by
  have hpresent : ∀ c ∈ Language.boolean :: Model.basicDecls,
      (c == Language.nothing || c == Language.void) = false := by decide
  unfold classType
  rw [simplify_nominal (hpresent d (List.mem_cons.mpr hd))]
  rfl

/-- A basic type is written as a class of its own, or as a type variable, where
nothing is primitive. -/
theorem exists_boxed_basic {small : Bool} (hcomposite : t.simplify.isComposite = false)
    (hexception : t.erasesToException = false) (h : m.isBasic t = true) :
    ∃ b, (writtenType m lower (boxedIn (natural small)) t).answer? = some b ∧
      b ≠ .cls Support.platformString ∧ ∀ p, b ≠ .primitive p := by
  have hnamed : ∀ {d : DeclId}, d = Language.boolean ∨ d ∈ Model.basicDecls →
      Target.Ty.cls (m.spelling d .full) ≠ .cls Support.platformString ∧
        ∀ p, Target.Ty.cls (m.spelling d .full) ≠ .primitive p := by
    intro d hd
    refine ⟨fun heq => ?_, fun p heq => by contradiction⟩
    exact Model.spelling_basic_ne hd (Target.Ty.cls.inj heq)
  have hprimitives : (boxedIn (natural small)).allowsPrimitives = false := rfl
  unfold writtenType
  rw [if_neg (by simp [hcomposite]), if_neg (by simp [hexception]), hprimitives, if_neg (by simp)]
  split
  · exact ⟨_, classType_basic (.inl rfl), hnamed (.inl rfl)⟩
  · rename_i hself
    rcases Model.isBasic_iff.mp h with hboolean | ⟨d, hd, hint, rfl⟩
    · -- a type parameter below the Boolean type
      have hparam : t.nonNull.isParam = true := by simpa [hboolean, Ty.isTypeParameter] using hself
      obtain ⟨p, hp⟩ : ∃ p, t.nonNull = .param p := by
        cases hpresent : t.nonNull with
        | param p => exact ⟨p, rfl⟩
        | nominal _ _ _ _ | union _ | inter _ | bottom | error =>
          rw [hpresent] at hparam
          contradiction
      have hoptional := Model.not_optional_of_isBasic h
      have hsimple : t.simplify = .param p := by
        rcases Ty.nonNull_of_not_optional hoptional with hsame | hsole | hempty
        · rw [← hsame, hp]
          rfl
        · rw [Ty.simplify_of_not_optional hoptional, hsole, hp]
          rfl
        · rw [hempty] at hp
          contradiction
      refine ⟨.var (m.param p).name, ?_, by simp, by simp⟩
      unfold classType
      rw [hsimple]
      rfl
    · exact ⟨_, classType_basic (.inr hd), hnamed (.inr hd)⟩

/-- The type is written in two ways, as it stands and where nothing is
primitive. -/
def Differs (m : Model) (lower : Ty → TypeLowering Target.Ty) (small : Bool) (t : Ty) : Prop :=
  ∃ n b, (writtenType m lower (natural small) t).answer? = some n ∧
    (writtenType m lower (boxedIn (natural small)) t).answer? = some b ∧ n ≠ b

theorem not_differs_of_eq {small : Bool}
    (h : writtenType m lower (boxedIn (natural small)) t = writtenType m lower (natural small) t) :
    ¬Differs m lower small t := by
  rintro ⟨n, b, hn, hb, hne⟩
  rw [h, hn] at hb
  exact hne (Option.some.inj hb)

theorem differs_iff_of_natural {small : Bool} {n : Target.Ty}
    (h : writtenType m lower (natural small) t = pure n) :
    Differs m lower small t ↔
      ∃ b, (writtenType m lower (boxedIn (natural small)) t).answer? = some b ∧ b ≠ n := by
  have hn : (writtenType m lower (natural small) t).answer? = some n := by rw [h, answer?_pure]
  constructor
  · rintro ⟨n', b, hn', hb, hne⟩
    rw [hn] at hn'
    exact ⟨b, hb, fun heq => hne (heq ▸ (Option.some.inj hn').symm)⟩
  · rintro ⟨b, hb, hne⟩
    exact ⟨n, b, hn, hb, hne.symm⟩

/-- What has one way to be written only: a union or intersection, and the base
exception type. -/
theorem not_differs {small : Bool}
    (h : t.simplify.isComposite = true ∨ t.erasesToException = true) :
    ¬Differs m lower small t := by
  refine not_differs_of_eq ?_
  unfold writtenType
  cases hcomposite : t.simplify.isComposite with
  | true =>
    rw [if_pos rfl, if_pos rfl, classType_boxedIn rfl]
    cases hshape : m.iterableShape? t with
    | none => exact not_bare_of_isComposite hcomposite
    | some shape => exact not_bare_of_shape hshape
  | false =>
    have hexception : t.erasesToException = true := h.resolve_left (by simp [hcomposite])
    simp only [hexception, Bool.false_eq_true, if_false, if_true]
    rfl

/-- A type with a raw form is written in two ways if it is basic, or if the class
it is boxed into is not the platform's string class. -/
theorem differs_iff_of_canUnbox {small : Bool} (hcomposite : t.simplify.isComposite = false)
    (hexception : t.erasesToException = false) (h : m.canUnbox t = true) :
    Differs m lower small t ↔
      m.isBasic t = true ∨
        ∃ b, (writtenType m lower (boxedIn (natural small)) t).answer? = some b ∧
          b ≠ .cls Support.platformString := by
  obtain ⟨raw, hraw, hform⟩ := exists_rawForm h small
  have hnatural : writtenType m lower (natural small) t = pure raw :=
    writtenType_of_canUnbox hcomposite hexception h hraw
  rw [differs_iff_of_natural hnatural]
  cases hbasic : m.isBasic t with
  | true =>
    obtain ⟨b, hb, hstring, hprimitive⟩ :
        ∃ b, (writtenType m lower (boxedIn (natural small)) t).answer? = some b ∧
          b ≠ .cls Support.platformString ∧ ∀ p, b ≠ .primitive p :=
      exists_boxed_basic hcomposite hexception hbasic
    have hne : b ≠ raw := by
      rcases hform with rfl | ⟨p, rfl⟩
      · exact hstring
      · exact hprimitive p
    simp only [true_or, iff_true]
    exact ⟨b, hb, hne⟩
  | false =>
    have hplatform : t.isPlatformString = true := by simpa [Model.canUnbox, hbasic] using h
    obtain rfl : Target.Ty.cls Support.platformString = raw := by
      simpa [rawForm?, hplatform] using hraw
    simp

/-- A type without a raw form is written in two ways if simplification brings a
platform string to light. -/
theorem differs_iff_of_not_canUnbox {small : Bool} (hcomposite : t.simplify.isComposite = false)
    (hexception : t.erasesToException = false) (h : m.canUnbox t = false) :
    Differs m lower small t ↔
      t.isBarePlatformString = true ∧
        ∃ b, (writtenType m lower (boxedIn (natural small)) t).answer? = some b ∧
          b ≠ .cls Support.platformString := by
  have hnatural : writtenType m lower (natural small) t = classType m lower (natural small) t :=
    writtenType_of_not_canUnbox hcomposite hexception h
  have hboxed : writtenType m lower (boxedIn (natural small)) t =
      classType m lower (boxedIn (natural small)) t :=
    writtenType_of_not_canUnbox hcomposite hexception h
  cases hbare : t.isBarePlatformString with
  | true =>
    rw [classType_of_bare rfl rfl hbare] at hnatural
    rw [differs_iff_of_natural hnatural]
    simp
  | false =>
    have hsame : ¬Differs m lower small t :=
      not_differs_of_eq (by rw [hnatural, hboxed, classType_boxedIn rfl hbare])
    simp [hsame]

/-- Which types are written in two ways: the basic ones, and those whose hint
asks for a platform string where the class they are written as otherwise is
another one. -/
theorem differs_iff {small : Bool} :
    Differs m lower small t ↔
      t.simplify.isComposite = false ∧ t.erasesToException = false ∧
        (m.isBasic t = true ∨
          (t.isPlatformString = true ∨ t.isBarePlatformString = true) ∧
            ∃ b, (writtenType m lower (boxedIn (natural small)) t).answer? = some b ∧
              b ≠ .cls Support.platformString) := by
  cases hcomposite : t.simplify.isComposite with
  | true => simp [not_differs (.inl hcomposite)]
  | false =>
    cases hexception : t.erasesToException with
    | true => simp [not_differs (.inr hexception)]
    | false =>
      simp only [true_and]
      cases hunbox : m.canUnbox t with
      | true =>
        rw [differs_iff_of_canUnbox hcomposite hexception hunbox]
        cases hbasic : m.isBasic t with
        | true => simp
        | false =>
          have hplatform : t.isPlatformString = true := by
            simpa [Model.canUnbox, hbasic] using hunbox
          simp [hplatform]
      | false =>
        have hnone : m.isBasic t = false ∧ t.isPlatformString = false := by
          simpa [Model.canUnbox] using hunbox
        rw [differs_iff_of_not_canUnbox hcomposite hexception hunbox]
        simp [hnone]

end TypeLowering

/-! ## The two decisions -/

namespace Env

open TypeLowering

variable {env : Env} {t : Ty}

/-- Values are kept raw when the type is lowered to one thing as it stands and
to another where nothing is primitive. -/
theorem answer?_valueForm_eq_raw :
    (env.valueForm t).answer? = some .raw ↔
      ∃ n b, (env.lowerType t .plain).answer? = some n ∧
        (env.lowerType t .boxed).answer? = some b ∧ n ≠ b := by
  unfold valueForm
  simp only [answer?_bind, answer?_pure, Option.some.injEq]
  constructor
  · rintro ⟨n, hn, b, hb, hform⟩
    refine ⟨n, b, hn, hb, fun heq => ?_⟩
    rw [if_pos heq] at hform
    contradiction
  · rintro ⟨n, b, hn, hb, hne⟩
    exact ⟨n, hn, b, hb, if_neg hne⟩

theorem valueForm_ne_raw_of_same {x : Option Target.Ty}
    (h : ∀ ctx : Context, ctx.satisfies = false → env.lowerType? t ctx = pure x) :
    (env.valueForm t).answer? ≠ some .raw := by
  rw [Ne, answer?_valueForm_eq_raw]
  rintro ⟨n, b, hn, hb, hne⟩
  unfold lowerType at hn hb
  rw [h _ rfl] at hn hb
  rw [hn] at hb
  exact hne (Option.some.inj hb)

theorem lowerType_of_not_erases {ctx : Context} (hbound : ctx.firstBound = false)
    (herror : t.collapse ≠ .error) (herases : env.model.erasesToObject t.collapse = false) :
    env.lowerType t ctx =
      writtenType env.model (argumentType env env.depth) (adjust env.config ctx) t.collapse := by
  have hresolve : resolveBound env.model ctx t.collapse = t.collapse :=
    resolveBound_of_not_param fun h => by rw [hbound] at h; contradiction
  unfold lowerType lowerType? orObject
  rw [step_of_not_erases herror (by rw [resolveBound_adjust, hresolve, herases]),
    resolveBound_adjust, hresolve, Functor.map_map]
  exact id_map _

/-- What it takes for the values of a type to be kept raw.  All of it is asked
of the type once a union or intersection of one is taken off. -/
structure KeptRaw (env : Env) (t : Ty) : Prop where
  kept : env.model.erasesToObject t.collapse = false
  single : t.collapse.simplify.isComposite = false
  ordinary : t.collapse.erasesToException = false
  /-- The type is basic, or its hint asks for a platform string and the class it
  is boxed into is another one. -/
  raw : env.model.isBasic t.collapse = true ∨
    (t.collapse.isPlatformString = true ∨ t.collapse.isBarePlatformString = true) ∧
      ∃ b, (env.lowerType t .boxed).answer? = some b ∧ b ≠ .cls Support.platformString

theorem valueForm_raw_iff : (env.valueForm t).answer? = some .raw ↔ env.KeptRaw t := by
  by_cases herror : t.collapse = .error
  · have hform : (env.valueForm t).answer? ≠ some .raw :=
      valueForm_ne_raw_of_same fun ctx _ => step_of_error herror
    have hkept : ¬env.KeptRaw t := by
      intro h
      have hraw := h.raw
      rw [herror, Model.isBasic_error] at hraw
      rcases hraw with hbasic | ⟨hplatform | hbare, _⟩ <;> contradiction
    exact iff_of_false hform hkept
  · cases herases : env.model.erasesToObject t.collapse with
    | true =>
      have hform : (env.valueForm t).answer? ≠ some .raw := by
        refine valueForm_ne_raw_of_same (x := some .object) fun ctx hctx => ?_
        unfold lowerType?
        rw [step_of_erases (by rwa [resolveBound_of_erases herases]), (adjust_flags env.config ctx).1,
          hctx]
        rfl
      exact iff_of_false hform fun h => by rw [h.kept] at herases; contradiction
    | false =>
      rw [answer?_valueForm_eq_raw, lowerType_of_not_erases rfl herror herases,
        lowerType_of_not_erases rfl herror herases, adjust_plain, adjust_boxed]
      have hboxed : env.lowerType t .boxed = writtenType env.model (argumentType env env.depth)
          (boxedIn (natural env.config.smallIntegers)) t.collapse := by
        rw [lowerType_of_not_erases rfl herror herases, adjust_boxed]
      refine (differs_iff (t := t.collapse)).trans ?_
      rw [← hboxed]
      constructor
      · rintro ⟨hsingle, hordinary, hraw⟩
        exact ⟨herases, hsingle, hordinary, hraw⟩
      · rintro ⟨_, hsingle, hordinary, hraw⟩
        exact ⟨hsingle, hordinary, hraw⟩

end Env

/-! ## Where they agree -/

namespace Ty

variable {t u : Ty}

/-- What simplification leaves of a type that is not optional, type parameters
apart, is that type. -/
theorem eq_of_simplify (hsole : t.collapse = t) (hoptional : t.isOptional = false)
    (h : t.simplify = u) (hparam : u.isParam = false) : t = u := by
  rw [simplify_of_not_optional hoptional, hsole] at h
  unfold bareParam at h
  split at h
  · split at h
    · rw [← h] at hparam
      contradiction
    · exact h
  · exact h

/-- A string, optional or not, is simplified to the string. -/
theorem simplify_of_string (hsole : t.collapse = t) (h : t.nonNull.isString = true) :
    ∃ hint, t.simplify = .nominal Language.string [] none hint := by
  obtain ⟨hint, hstring⟩ := isExactly_iff.mp h
  cases hoptional : t.isOptional with
  | false =>
    rcases nonNull_of_not_optional hoptional with hsame | hunion | hempty
    · rw [← hsame, hstring]
      exact ⟨hint, rfl⟩
    · rw [simplify_of_not_optional hoptional, hunion, hstring]
      exact ⟨hint, rfl⟩
    · rw [hempty] at hstring
      contradiction
  | true =>
    cases t with
    | nominal d as o h =>
      simp only [isOptional, Bool.or_eq_true, beq_iff_eq] at hoptional
      rcases hoptional with rfl | rfl <;> contradiction
    | union cases =>
      rw [simplify_of_optional hoptional]
      match hpresent : presentCases cases with
      | [] => simp [nonNull, hpresent] at hstring
      | [only] =>
        obtain rfl : only = .nominal Language.string [] none hint := by
          simpa [nonNull, hpresent] using hstring
        refine ⟨none, ?_⟩
        simp only [definite, hpresent]
        rfl
      | _ :: _ :: _ => simp [nonNull, hpresent] at hstring
    | inter _ | param _ | bottom | error => contradiction

end Ty

namespace Model

variable {m : Model} {t : Ty}

/-- Nothing about the raw form of the type is hidden from a look at the type as
it is given. -/
structure Evident (m : Model) (t : Ty) : Prop where
  /-- The type is no union or intersection of one. -/
  sole : t.collapse = t
  /-- A type below the Boolean type is no union or intersection. -/
  enumerated : m.isBoolean t = true → t.simplify.isComposite = false
  /-- Only a string is to stay a platform string. -/
  string : t.isPlatformString = true → t.nonNull.isString = true
  /-- No such hint comes to light by simplification. -/
  overt : t.simplify.hint? = some .platformString → t.isPlatformString = true

/-- A type that is simplified to a class below the Boolean type is neither
erased nor an exception. -/
theorem kept_of_isBoolean (hsole : t.collapse = t) (hsingle : t.simplify.isComposite = false)
    (h : m.isBoolean t = true) : m.erasesToObject t = false ∧ t.erasesToException = false := by
  have hself : ∀ {u : Ty}, t.simplify = u → u.isParam = false → t = u :=
    Ty.eq_of_simplify hsole (not_optional_of_isBasic (isBasic_iff.mpr (.inl h)))
  have hnominal : ∀ {d as o hint}, t.simplify = .nominal d as o hint →
      d ∉ rootDecls ∧ (Ty.nominal d as o hint).withoutHint ≠ Language.exceptionTy := by
    intro d as o hint hsimple
    have ht := hself hsimple rfl
    rw [ht] at h
    constructor
    · intro hroot
      rw [isBoolean_eq_false (supertypeWithin_root (by decide) hroot)] at h
      contradiction
    · intro hexception
      obtain ⟨rfl, rfl, rfl⟩ : d = Language.exception ∧ as = [] ∧ o = none := by
        simpa [Ty.withoutHint, Language.exceptionTy, Ty.of] using hexception
      rw [isBoolean_eq_false (not_boolean_exception hint)] at h
      contradiction
  unfold erasesToObject Ty.erasesToException
  cases hsimple : t.simplify with
  | nominal d as o hint =>
    obtain ⟨hroot, hexception⟩ := hnominal hsimple
    have hcontains : rootDecls.contains d = false := by simpa using hroot
    simp only [hcontains, Bool.and_false, true_and]
    simpa using hexception
  | bottom =>
    rw [hself hsimple rfl] at h
    simp [isBoolean] at h
  | union _ | inter _ =>
    rw [hsimple] at hsingle
    contradiction
  | param _ | error => exact ⟨rfl, rfl⟩

/-- A basic type is kept: it neither erases nor is it an exception. -/
theorem kept_of_isBasic (hsole : t.collapse = t) (hsingle : t.simplify.isComposite = false)
    (h : m.isBasic t = true) : m.erasesToObject t = false ∧ t.erasesToException = false := by
  rcases isBasic_iff.mp h with hboolean | ⟨d, hd, hint, rfl⟩
  · exact kept_of_isBoolean hsole hsingle hboolean
  · have hpresent := not_optional_of_isBasic h
    unfold erasesToObject Ty.erasesToException
    rw [TypeLowering.simplify_nominal hpresent]
    have hapart : ∀ c ∈ basicDecls, rootDecls.contains c = false ∧ c ≠ Language.exception := by
      decide
    obtain ⟨hroot, hexception⟩ := hapart d hd
    simp only [hroot, Bool.and_false, true_and]
    simpa [Ty.withoutHint, Language.exceptionTy, Ty.of] using hexception

end Model

namespace Env

open TypeLowering

variable {env : Env} {t : Ty}

/-- Where nothing is primitive, a string that is no string as it is given, such
as an optional one, is written as the class of strings. -/
theorem lowerType_boxed_string {hint : Option Hint} (hsole : t.collapse = t)
    (hsimple : t.simplify = .nominal Language.string [] none hint)
    (hboolean : env.model.isBoolean t = false) :
    (env.lowerType t .boxed).answer? =
      some (.cls (env.model.spelling Language.string .full)) := by
  have hself : t.simplify = (Ty.nominal Language.string [] none hint).simplify := by
    rw [hsimple]
    rfl
  have herror : t.collapse ≠ .error := by
    intro herror
    rw [← hsole, herror] at hsimple
    contradiction
  have herases : env.model.erasesToObject t.collapse = false := by
    unfold Model.erasesToObject
    rw [hsole, hsimple]
    rfl
  have hsingle : t.simplify.isComposite = false := by rw [hsimple]; rfl
  have hordinary : t.erasesToException = false := by
    unfold Ty.erasesToException
    rw [hsimple]
    rfl
  rw [lowerType_of_not_erases rfl herror herases, hsole, adjust_boxed,
    writtenType_of_not_raw hsingle (fun h => by contradiction) (by simp [hboolean]), hordinary]
  simp only [Bool.false_eq_true, if_false]
  rw [classType_congr hself]
  exact classType_basic (.inr (by decide))

/-- A string, optional or not, that is to stay a platform string is kept raw. -/
theorem keptRaw_of_string (hsole : t.collapse = t) (hplatform : t.isPlatformString = true)
    (h : t.nonNull.isString = true) : env.KeptRaw t := by
  obtain ⟨hint, hsimple⟩ := Ty.simplify_of_string hsole h
  constructor <;> rw [hsole]
  · unfold Model.erasesToObject
    rw [hsimple]
    rfl
  · rw [hsimple]
    rfl
  · unfold Ty.erasesToException
    rw [hsimple]
    rfl
  · cases hbasic : env.model.isBasic t with
    | true => exact .inl rfl
    | false =>
      have hboolean : env.model.isBoolean t = false := by
        simp only [Model.isBasic, Bool.or_eq_false_iff] at hbasic
        simp [hbasic]
      refine .inr ⟨.inl hplatform, _, lowerType_boxed_string hsole hsimple hboolean, ?_⟩
      exact fun heq => Model.spelling_basic_ne (.inr (by decide)) (Target.Ty.cls.inj heq)

/-- For a type of which nothing is hidden the two decisions agree. -/
theorem keptRaw_iff_canUnbox (h : env.model.Evident t) :
    env.KeptRaw t ↔ env.model.canUnbox t = true := by
  constructor
  · intro hkept
    have hraw := hkept.raw
    rw [h.sole] at hraw
    rcases hraw with hbasic | ⟨hplatform | hbare, _⟩
    · simp [Model.canUnbox, hbasic]
    · simp [Model.canUnbox, hplatform]
    · simp only [Ty.isBarePlatformString, Bool.and_eq_true, beq_iff_eq] at hbare
      simp [Model.canUnbox, h.overt hbare.1]
  · intro hunbox
    cases hplatform : t.isPlatformString with
    | true => exact keptRaw_of_string h.sole hplatform (h.string hplatform)
    | false =>
      have hbasic : env.model.isBasic t = true := by simpa [Model.canUnbox, hplatform] using hunbox
      have hsingle : t.simplify.isComposite = false := by
        rcases Model.isBasic_iff.mp hbasic with hboolean | ⟨d, hd, hint, rfl⟩
        · exact h.enumerated hboolean
        · rw [simplify_nominal (Model.not_optional_of_isBasic hbasic)]
          rfl
      obtain ⟨hkept, hordinary⟩ := Model.kept_of_isBasic h.sole hsingle hbasic
      constructor <;> rw [h.sole]
      · exact hkept
      · exact hsingle
      · exact hordinary
      · exact .inl hbasic

/-- The values of a type are kept raw exactly when the type, taken out of a
union or intersection of one, neither erases nor has the shape of an iterable
type nor is the base exception type, and is basic or has a hint that makes it a
platform string.  For a type of which nothing is hidden these are the types that
have a raw form as they are given. -/
theorem valueForm_eq_raw_iff (env : Env) (t : Ty) :
    ((env.valueForm t).answer? = some .raw ↔ env.KeptRaw t) ∧
      (env.model.Evident t →
        ((env.valueForm t).answer? = some .raw ↔ env.model.canUnbox t = true)) := by
  refine ⟨valueForm_raw_iff, fun h => ?_⟩
  rw [valueForm_raw_iff, keptRaw_iff_canUnbox h]

/-- An optional string that stays a platform string is kept raw, and a call that
returns it is taken to return it raw. -/
theorem optionalPlatformString_kept_raw :
    Model.new.Evident (.optional (Language.stringTy.withHint .platformString)) ∧
      ((Env.of .new .standard).valueForm
        (.optional (Language.stringTy.withHint .platformString))).answer? = some .raw :=
  have hevident : Model.new.Evident (.optional (Language.stringTy.withHint .platformString)) :=
    ⟨by decide, by decide, by decide, by decide⟩
  ⟨hevident, ((valueForm_eq_raw_iff (Env.of .new .standard)
    (.optional (Language.stringTy.withHint .platformString))).2 hevident).mpr (by decide)⟩

/-- The union of one number is kept raw and said to have no raw form; the union
of the cases of the Boolean type is said to have one and kept boxed. -/
theorem rawForm_decided_apart :
    (((Env.of .new .standard).valueForm (.union [Language.integerTy])).answer? = some .raw ∧
        Model.new.canUnbox (.union [Language.integerTy]) = false) ∧
      ((Env.of .new .standard).valueForm
          (.union [.of Language.trueObject [], .of Language.falseObject []])).answer? =
        some .boxed ∧
      Model.new.canUnbox (.union [.of Language.trueObject [], .of Language.falseObject []]) =
        true := by
  decide

end Env

end TreeLowering
