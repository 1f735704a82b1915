import TreeLowering.Lowering.TypeTest
import TreeLowering.Proofs.RawForm
import TreeLowering.Proofs.Yield
set_option autoImplicit false

/-!
# Proofs: unions and intersections of one

A union or an intersection of one type says the same as that type.  Tests and
iteration see no difference, and the lowering takes one such layer off.  The
other decisions look at the type as it is given: the conversions between raw and
boxed values find a basic type only outside of a union or an intersection, and
the erasure of an optional type depends on whether its absent case is taken off
first.
-/

namespace TreeLowering

namespace Ty

variable {s t : Ty}

/-- The type is a union or an intersection of the other one alone. -/
def IsSole (s t : Ty) : Prop := s = .union [t] ∨ s = .inter [t]

/-- A number, a string or a character, whatever its representation. -/
def isScalar (t : Ty) : Bool := t.isString || t.isInteger || t.isFloat || t.isCharacter

theorem isScalar_iff :
    t.isScalar = true ↔ ∃ d ∈ Model.basicDecls, ∃ hint, t = .nominal d [] none hint := by
  simp only [isScalar, isString, isInteger, isFloat, isCharacter, Language.stringTy,
    Language.integerTy, Language.floatTy, Language.characterTy, Bool.or_eq_true, isExactly_iff,
    Model.basicDecls, List.mem_cons, List.not_mem_nil, or_false, exists_eq_or_imp, exists_eq_left,
    or_assoc]

theorem not_scalar (h : t.isScalar = false) :
    t.isString = false ∧ t.isInteger = false ∧ t.isFloat = false ∧ t.isCharacter = false := by
  simpa [isScalar, and_assoc] using h

theorem not_scalar_of_optional (h : t.isOptional = true) : t.isScalar = false := by
  rw [Bool.eq_false_iff]
  intro hscalar
  obtain ⟨d, hd, hint, rfl⟩ := isScalar_iff.mp hscalar
  have hnone : ∀ c ∈ Model.basicDecls, (c == Language.nothing || c == Language.void) = false := by
    decide
  exact Bool.false_ne_true ((hnone d hd).symm.trans h)

namespace IsSole

theorem collapse_eq (h : s.IsSole t) : s.collapse = t := by
  obtain rfl | rfl := h
  · rfl
  · rfl

theorem isComposite (h : s.IsSole t) : s.isComposite = true := by
  obtain rfl | rfl := h
  · rfl
  · rfl

theorem ne_void (h : s.IsSole t) : s ≠ Language.voidTy := by
  rintro rfl
  cases h.isComposite

theorem ne_bottom (h : s.IsSole t) : s ≠ .bottom := by
  rintro rfl
  cases h.isComposite

theorem hint?_eq (h : s.IsSole t) : s.hint? = none := by
  obtain rfl | rfl := h
  · rfl
  · rfl

theorem not_param (h : s.IsSole t) : s.isParam = false := by
  obtain rfl | rfl := h
  · rfl
  · rfl

theorem isScalar (h : s.IsSole t) : s.isScalar = false := by
  obtain rfl | rfl := h
  · rfl
  · rfl

/-- What it has besides the absent value is at most the sole member, and that is
no string where it is optional. -/
theorem not_optional_string (h : s.IsSole t) : (s.isOptional && s.definite.isString) = false := by
  obtain rfl | rfl := h
  · cases t with
    | nominal d as o hint =>
      by_cases hnothing : d = Language.nothing
      · subst hnothing
        rfl
      · by_cases hvoid : d = Language.void
        · subst hvoid
          rfl
        · simp [isOptional, anyOptional, hnothing, hvoid]
    | union cases =>
      have hpresent : presentCases [union cases] = [union cases] := rfl
      simp [definite, hpresent, isOf, decl?, isParam, withoutHint, isString, isExactly,
        Language.stringTy, of]
    | inter _ | param _ | bottom | error => rfl
  · rfl

/-- A hint on the sole case makes it a platform string, one on the sole bound does
not. -/
theorem isPlatformString_iff (h : s.IsSole t) :
    s.isPlatformString = true ↔
      s = .union [t] ∧ t.hint? = some .platformString ∧ t.isOf Language.nothing = false := by
  obtain rfl | rfl := h
  · cases hnothing : t.isOf Language.nothing with
    | true =>
      have hpresent : presentCases [t] = [] := by simp [presentCases, hnothing]
      simp [isPlatformString, nonNull, hpresent, hint?]
    | false =>
      have hpresent : presentCases [t] = [t] := by simp [presentCases, hnothing]
      simp [isPlatformString, nonNull, hpresent]
  · simp [isPlatformString, nonNull, hint?]

end IsSole

theorem collapse_union_ne (t : Ty) : (union [t]).collapse ≠ union [t] := by
  intro heq
  have hsize := congrArg sizeOf heq
  simp [collapse] at hsize
  omega

/-- Without its absent value a settled type is the object type, nothing at all or
itself. -/
theorem Settled.nonNull_eq (ht : t.Settled) :
    t.nonNull = Language.objectTy ∨ t.nonNull = .bottom ∨ t.nonNull = t := by
  cases t with
  | nominal d as o hint =>
    unfold nonNull
    dsimp only
    split
    · exact .inl rfl
    · split
      · exact .inr (.inl rfl)
      · exact .inr (.inr rfl)
  | union cases =>
    simp only [nonNull, presentCases_eq_self ht.present]
    rcases cases with _ | ⟨only, _ | ⟨second, rest⟩⟩
    · exact .inr (.inl rfl)
    · exact absurd ht.sole only.collapse_union_ne
    · exact .inr (.inr rfl)
  | inter _ | param _ | bottom | error => exact .inr (.inr rfl)

theorem Settled.hint?_of_isPlatformString (ht : t.Settled) (h : t.isPlatformString = true) :
    t.hint? = some .platformString := by
  unfold isPlatformString at h
  obtain hself | hself | hself := ht.nonNull_eq
  · rw [hself] at h
    contradiction
  · rw [hself] at h
    contradiction
  · rw [hself] at h
    exact beq_iff_eq.mp h

end Ty

namespace Model

variable {m : Model} {s t : Ty}

theorem supertype?_sole (h : s.IsSole t) (target : DeclId) :
    m.supertype? s target = m.supertype? t target := by
  rw [← m.supertype?_collapse s, h.collapse_eq]

theorem isSubtypeOf_sole (h : s.IsSole t) (target : DeclId) :
    m.isSubtypeOf s target = m.isSubtypeOf t target := by
  unfold isSubtypeOf
  rw [supertype?_sole h]

theorem isSubtypeOf_bottom (target : DeclId) : m.isSubtypeOf .bottom target = true := by
  unfold isSubtypeOf
  rw [supertype?_bottom, Option.isSome_some]

/-- The bottom type is said to be no Boolean; a union or an intersection of it is
said to be one. -/
theorem isBoolean_sole (h : s.IsSole t) :
    m.isBoolean s = (m.isBoolean t || decide (t = .bottom)) := by
  have hs := h.ne_bottom
  by_cases ht : t = .bottom
  · subst ht
    simp [isBoolean, hs, isSubtypeOf_sole h, isSubtypeOf_bottom]
  · simp [isBoolean, hs, ht, isSubtypeOf_sole h]

theorem isArray_sole (h : s.IsSole t) (ht : t ≠ .bottom) : m.isArray s = m.isArray t := by
  have hs := h.ne_bottom
  simp [isArray, hs, ht, isSubtypeOf_sole h]

/-- Above a number, a string or a character there are only root classes. -/
theorem supertype?_of_isScalar {target : DeclId} (h : t.isScalar = true)
    (htarget : target ∉ rootDecls) (hbasic : target ∉ basicDecls) :
    m.supertype? t target = none := by
  obtain ⟨d, hd, hint, rfl⟩ := Ty.isScalar_iff.mp h
  have hne : d ≠ target := fun heq => hbasic (heq ▸ hd)
  refine supertypeWithin_eq_none hne (fun u hu fuel => ?_) _
  have hup : ∀ c ∈ basicDecls, (Language.decls[c.index]?.map (·.supertypes)) =
      some [Language.objectTy] := by decide
  obtain ⟨x, hx, hsupertypes⟩ := Option.map_eq_some_iff.mp (hup d hd)
  rw [decl_language hx, hsupertypes] at hu
  obtain rfl := List.mem_singleton.mp hu
  exact supertypeWithin_root htarget (by decide) fuel

/-- No scalar is a Boolean, an array or anything iterable. -/
theorem isBoolean_of_isScalar (h : t.isScalar = true) : m.isBoolean t = false := by
  have hnone := supertype?_of_isScalar (m := m) h (by decide : Language.boolean ∉ rootDecls)
    (by decide)
  simp [isBoolean, isSubtypeOf, hnone]

theorem isArray_of_optional (h : t.isOptional = true) : m.isArray t = false := by
  have hnone := supertype?_of_optional (m := m) h (by decide : Language.array ∉ rootDecls)
  simp [isArray, isSubtypeOf, hnone]

theorem isArray_of_isScalar (h : t.isScalar = true) : m.isArray t = false := by
  have hnone := supertype?_of_isScalar (m := m) h (by decide : Language.array ∉ rootDecls)
    (by decide)
  simp [isArray, isSubtypeOf, hnone]

theorem isBoolean_void : m.isBoolean Language.voidTy = false := isBoolean_eq_false not_boolean_void

theorem isArray_void : m.isArray Language.voidTy = false := by
  have hnone : m.supertype? Language.voidTy Language.array = none :=
    supertypeWithin_root (by decide) (by decide) _
  simp [isArray, isSubtypeOf, hnone]

/-- Of the basic types only the Boolean ones have a raw form inside a union or an
intersection as well, and the bottom type has one there alone. -/
theorem canUnbox_sole (h : s.IsSole t) :
    m.canUnbox s = (m.isBoolean t || decide (t = .bottom) || s.isPlatformString) := by
  have hscalar := Ty.not_scalar h.isScalar
  simp [canUnbox, isBasic, hscalar, isBoolean_sole h]

end Model

/-! ## Conversions -/

namespace Target.Expr

theorem get_ne (e : Expr) (method : String) : e.get method ≠ e := by
  intro heq
  have hsize := congrArg sizeOf heq
  simp [get, callOn] at hsize
  omega

theorem letIn_exec_ne (e value : Expr) : .letIn [.exec e] value ≠ e := by
  intro heq
  have hsize := congrArg sizeOf heq
  simp at hsize
  omega

theorem letIn_declare_ne (e value : Expr) (tmp : String) (ty : Target.Ty) :
    .letIn [.declareFinal tmp ty e] value ≠ e := by
  intro heq
  have hsize := congrArg sizeOf heq
  simp [Stmt.declareFinal] at hsize
  omega

end Target.Expr

namespace Env

variable {env : Env} {s t : Ty}

/-- A value of a type that is neither scalar nor Boolean nor an array is boxed
into no class. -/
theorem boxClass?_sole (h : s.IsSole t) :
    env.boxClass? s =
      if env.model.isBoolean t || decide (t = .bottom) then some Language.boolean else none := by
  have hscalar := Ty.not_scalar h.isScalar
  simp [boxClass?, hscalar, Model.isBoolean_sole h]

theorem boxClass?_of_not_scalar (h : t.isScalar = false) :
    env.boxClass? t = if env.model.isBoolean t then some Language.boolean else none := by
  simp [boxClass?, Ty.not_scalar h]

theorem exists_boxClass (h : t.isScalar = true) : ∃ d, env.boxClass? t = some d := by
  obtain ⟨d, hd, hint, rfl⟩ := Ty.isScalar_iff.mp h
  simp only [Model.basicDecls, List.mem_cons, List.not_mem_nil, or_false] at hd
  obtain rfl | rfl | rfl | rfl := hd
  · exact ⟨_, rfl⟩
  · exact ⟨_, rfl⟩
  · exact ⟨_, rfl⟩
  · exact ⟨_, rfl⟩

theorem arrayElement_sole (h : s.IsSole t) : env.arrayElement s = env.arrayElement t := by
  unfold arrayElement
  rw [Model.supertype?_sole h]

/-- A raw value is boxed alike, unless it is scalar, says nothing or is of the
bottom type. -/
theorem boxValue_sole (h : s.IsSole t) (hscalar : t.isScalar = false) (hvoid : t ≠ Language.voidTy)
    (hbottom : t ≠ .bottom) (e : Target.Expr) : env.boxValue e s = env.boxValue e t := by
  unfold boxValue
  rw [boxClass?_sole h, boxClass?_of_not_scalar hscalar, Model.isArray_sole h hbottom,
    arrayElement_sole h, if_neg h.ne_void, if_neg hvoid]
  simp [hbottom]

theorem answer?_boxInto (env : Env) (d : DeclId) (typeArgs : List Target.Ty) (e : Target.Expr) :
    (env.boxInto d typeArgs e).answer? =
      some (.callStatic (.cls (env.model.spelling d .full)) typeArgs Support.box [e]) := rfl

/-- What takes a note is not the value as it is. -/
theorem boxInto_ne_pure (env : Env) (d : DeclId) (typeArgs : List Target.Ty) (e e' : Target.Expr) :
    env.boxInto d typeArgs e ≠ pure e' := by
  intro heq
  have hnotes := congrArg TypeLowering.notes heq
  contradiction

theorem boxValue_of_boxClass {d : DeclId} (h : env.boxClass? t = some d) (e : Target.Expr) :
    env.boxValue e t = env.boxInto d [] e := by
  unfold boxValue
  rw [h]

/-- A value of a type with neither class nor element nor the type that says
nothing stays as it is. -/
theorem boxValue_eq_pure (hclass : env.boxClass? t = none) (harray : env.model.isArray t = false)
    (hvoid : t ≠ Language.voidTy) (e : Target.Expr) : env.boxValue e t = pure e := by
  unfold boxValue
  rw [hclass, harray]
  exact if_neg hvoid

theorem boxValue_eq_letIn (hclass : env.boxClass? t = none) (harray : env.model.isArray t = false)
    (hvoid : t = Language.voidTy) (e : Target.Expr) :
    env.boxValue e t = pure (.letIn [.exec e] .null) := by
  unfold boxValue
  rw [hclass, harray]
  exact if_pos hvoid

theorem boxValue_void (e : Target.Expr) :
    env.boxValue e Language.voidTy = pure (.letIn [.exec e] .null) := by
  have hclass : env.boxClass? Language.voidTy = none := by
    rw [boxClass?_of_not_scalar rfl, Model.isBoolean_void]
    rfl
  exact boxValue_eq_letIn hclass Model.isArray_void rfl e

theorem boxValue_sole_iff (h : s.IsSole t) (e : Target.Expr) :
    env.boxValue e s = env.boxValue e t ↔
      t.isScalar = false ∧ t ≠ Language.voidTy ∧ t ≠ .bottom := by
  refine ⟨fun heq => ⟨?_, ?_, ?_⟩, fun ⟨hscalar, hvoid, hbottom⟩ =>
    boxValue_sole h hscalar hvoid hbottom e⟩
  · cases hscalar : t.isScalar with
    | false => rfl
    | true =>
      have hbottom : t ≠ .bottom := by
        rintro rfl
        contradiction
      have hs : env.boxValue e s = pure e := by
        refine boxValue_eq_pure ?_ ?_ h.ne_void e
        · simp [boxClass?_sole h, Model.isBoolean_of_isScalar hscalar, hbottom]
        · rw [Model.isArray_sole h hbottom, Model.isArray_of_isScalar hscalar]
      obtain ⟨d, hd⟩ := exists_boxClass hscalar
      rw [hs, boxValue_of_boxClass hd] at heq
      exact absurd heq.symm (env.boxInto_ne_pure d [] e e)
  · rintro rfl
    have hs : env.boxValue e s = pure e := by
      refine boxValue_eq_pure ?_ ?_ h.ne_void e
      · rw [boxClass?_sole h, Model.isBoolean_void]
        rfl
      · rw [Model.isArray_sole h (by decide), Model.isArray_void]
    rw [hs, boxValue_void] at heq
    have hself : e = .letIn [.exec e] .null := Option.some.inj (congrArg TypeLowering.answer? heq)
    exact Target.Expr.letIn_exec_ne e _ hself.symm
  · rintro rfl
    have hs : env.boxClass? s = some Language.boolean := by simp [boxClass?_sole h]
    have hself : env.boxValue e .bottom = pure e :=
      boxValue_eq_pure rfl rfl (by decide) e
    rw [boxValue_of_boxClass hs, hself] at heq
    exact env.boxInto_ne_pure Language.boolean [] e e heq

theorem unboxMethod?_sole (h : s.IsSole t) (hscalar : t.isScalar = false) (hbottom : t ≠ .bottom) :
    env.unboxMethod? s = env.unboxMethod? t := by
  unfold unboxMethod?
  simp [Ty.not_scalar h.isScalar, Ty.not_scalar hscalar, Model.isBoolean_sole h,
    Model.isArray_sole h hbottom, hbottom]

/-- A boxed value is made raw alike, unless it is scalar, an optional string or of
the bottom type. -/
theorem unboxValue_sole (h : s.IsSole t) (hscalar : t.isScalar = false) (hbottom : t ≠ .bottom)
    (hstring : (t.isOptional && t.definite.isString) = false) (e : Target.Expr) :
    env.unboxValue e s = env.unboxValue e t := by
  unfold unboxValue
  simp only [Ty.not_scalar h.isScalar, Ty.not_scalar hscalar, h.not_optional_string, hstring,
    unboxMethod?_sole h hscalar hbottom]

theorem unboxValue_eq_pure (hstring : t.isString = false) (hmethod : env.unboxMethod? t = none)
    (hoptional : (t.isOptional && t.definite.isString) = false) (e : Target.Expr) :
    env.unboxValue e t = pure e := by
  unfold unboxValue
  rw [hmethod, if_neg (by simp [hstring])]
  exact if_neg (by simp [hoptional])

theorem unboxValue_of_method {method : String} (hstring : t.isString = false)
    (h : env.unboxMethod? t = some method) (e : Target.Expr) :
    env.unboxValue e t = pure (e.get method) := by
  unfold unboxValue
  rw [h, if_neg (by simp [hstring])]

theorem unboxMethod?_of_sole_scalar (h : s.IsSole t)
    (hnone : t.isScalar = true ∨ t.isOptional = true) : env.unboxMethod? s = none := by
  have hbottom : t ≠ .bottom := by
    rintro rfl
    obtain hnone | hnone := hnone
    · contradiction
    · contradiction
  have hboolean : env.model.isBoolean t = false := by
    obtain hscalar | hoptional := hnone
    · exact Model.isBoolean_of_isScalar hscalar
    · exact Model.isBoolean_of_optional hoptional
  have harray : env.model.isArray t = false := by
    obtain hscalar | hoptional := hnone
    · exact Model.isArray_of_isScalar hscalar
    · exact Model.isArray_of_optional hoptional
  unfold unboxMethod?
  simp [Ty.not_scalar h.isScalar, Model.isBoolean_sole h, Model.isArray_sole h hbottom, hboolean,
    harray, hbottom]

/-- Nothing is its own unboxed value. -/
theorem get_ne_pure (e : Target.Expr) (method : String) :
    (pure (e.get method) : Lowering Target.Expr) ≠ pure e := by
  intro heq
  have hyields : Lowering.Yields (pure e) default (e.get method) default :=
    heq ▸ Lowering.yields_pure.mpr ⟨rfl, rfl⟩
  exact e.get_ne method (Lowering.yields_pure.mp hyields).1

theorem unboxOptionalString_ne_pure {e : Target.Expr} (h : e.isStringLiteral = false) :
    env.unboxOptionalString e ≠ pure e := by
  intro heq
  have hyields : Lowering.Yields (env.unboxOptionalString e) default e default :=
    heq ▸ Lowering.yields_pure.mpr ⟨rfl, rfl⟩
  unfold unboxOptionalString at hyields
  rw [if_neg (by simp [h])] at hyields
  obtain ⟨tmp, _, _, hyields⟩ := Lowering.yields_bind.mp hyields
  obtain ⟨ty, _, _, hyields⟩ := Lowering.yields_bind.mp hyields
  exact e.letIn_declare_ne _ tmp ty (Lowering.yields_pure.mp hyields).1.symm

theorem exists_unboxMethod (env : Env) (h : (t.isInteger || t.isFloat || t.isCharacter) = true) :
    t.isScalar = true ∧ t.isString = false ∧ ∃ method, env.unboxMethod? t = some method := by
  simp only [Bool.or_eq_true, Ty.isInteger, Ty.isFloat, Ty.isCharacter, Language.integerTy,
    Language.floatTy, Language.characterTy, Ty.isExactly_iff] at h
  obtain (⟨hint, rfl⟩ | ⟨hint, rfl⟩) | ⟨hint, rfl⟩ := h
  · exact ⟨rfl, rfl, _, rfl⟩
  · exact ⟨rfl, rfl, _, rfl⟩
  · exact ⟨rfl, rfl, _, rfl⟩

theorem unboxValue_of_optional_string (h : (t.isOptional && t.definite.isString) = true)
    (e : Target.Expr) : env.unboxValue e t = env.unboxOptionalString e := by
  have hoptional : t.isOptional = true := ((Bool.and_eq_true _ _).mp h).1
  have hscalar := Ty.not_scalar (Ty.not_scalar_of_optional hoptional)
  have hmethod : env.unboxMethod? t = none := by
    unfold unboxMethod?
    simp [hscalar, Model.isBoolean_of_optional hoptional, Model.isArray_of_optional hoptional]
  unfold unboxValue
  rw [hmethod, if_neg (by simp [hscalar])]
  exact if_pos h

theorem unboxString_of_literal {e : Target.Expr} (h : e.isStringLiteral = true) :
    unboxString e = e := if_pos h

theorem unboxOptionalString_of_literal {e : Target.Expr} (h : e.isStringLiteral = true) :
    env.unboxOptionalString e = pure e := if_pos h

/-- Besides the bottom type, the types whose values are made raw in another way as
a sole member are those whose values are not made raw there at all. -/
theorem unboxValue_sole_iff (h : s.IsSole t) (e : Target.Expr) :
    env.unboxValue e s = env.unboxValue e t ↔
      t ≠ .bottom ∧ (t.isInteger || t.isFloat || t.isCharacter) = false ∧
        (e.isStringLiteral = true ∨
          t.isString = false ∧ (t.isOptional && t.definite.isString) = false) := by
  have hstays : t.isScalar = true ∨ t.isOptional = true → env.unboxValue e s = pure e := by
    intro hnone
    exact unboxValue_eq_pure (Ty.not_scalar h.isScalar).1 (unboxMethod?_of_sole_scalar h hnone)
      h.not_optional_string e
  have hstring : t.isString = true → env.unboxValue e t = pure (unboxString e) := fun hself =>
    if_pos hself
  constructor
  · intro heq
    refine ⟨?_, ?_, ?_⟩
    · rintro rfl
      have hs : env.unboxMethod? s = some Support.unboxBoolean := by
        unfold unboxMethod?
        simp [Ty.not_scalar h.isScalar, Model.isBoolean_sole h]
      rw [unboxValue_of_method (Ty.not_scalar h.isScalar).1 hs,
        unboxValue_eq_pure rfl rfl rfl] at heq
      exact get_ne_pure e _ heq
    · rw [Bool.eq_false_iff]
      intro hnumber
      obtain ⟨hscalar, hno, method, hmethod⟩ := env.exists_unboxMethod hnumber
      rw [hstays (.inl hscalar), unboxValue_of_method hno hmethod] at heq
      exact get_ne_pure e _ heq.symm
    · cases hliteral : e.isStringLiteral with
      | true => exact .inl rfl
      | false =>
        refine .inr ⟨?_, ?_⟩
        · rw [Bool.eq_false_iff]
          intro hself
          have hget : unboxString e = e.get Support.unboxString := if_neg (by simp [hliteral])
          rw [hstays (.inl (by simp [Ty.isScalar, hself])), hstring hself, hget] at heq
          exact get_ne_pure e _ heq.symm
        · rw [Bool.eq_false_iff]
          intro hoptional
          rw [hstays (.inr ((Bool.and_eq_true _ _).mp hoptional).1),
            unboxValue_of_optional_string hoptional] at heq
          exact unboxOptionalString_ne_pure hliteral heq.symm
  · rintro ⟨hbottom, hnumber, hrest⟩
    simp only [Bool.or_eq_false_iff] at hnumber
    cases hself : t.isString with
    | true =>
      have hliteral := hrest.resolve_right (by simp [hself])
      rw [hstays (.inl (by simp [Ty.isScalar, hself])), hstring hself,
        unboxString_of_literal hliteral]
    | false =>
      cases hoptional : t.isOptional && t.definite.isString with
      | true =>
        have hliteral := hrest.resolve_right (by simp [hoptional])
        rw [hstays (.inr ((Bool.and_eq_true _ _).mp hoptional).1),
          unboxValue_of_optional_string hoptional, unboxOptionalString_of_literal hliteral]
      | false =>
        exact unboxValue_sole h (by simp [Ty.isScalar, hself, hnumber]) hbottom hoptional e

end Env

/-! ## Erasure and lowering -/

namespace Ty

variable {s t : Ty}

theorem IsSole.simplify_of_settled (h : s.IsSole t) (ht : t.Settled)
    (hvoid : t.isVoidOrNothing = false) : s.simplify = t.simplify := by
  rw [ht.simplify hvoid]
  obtain rfl | rfl := h
  · exact ht.simplify_union hvoid
  · rfl

theorem IsSole.bareParam_eq (h : s.IsSole t) : s.bareParam = s := by
  unfold bareParam
  split
  · obtain h | h := h
    · cases h
    · cases h
  · rfl

theorem IsSole.not_optional (h : s.IsSole t) (ht : t.isOptional = false) :
    s.isOptional = false := by
  obtain rfl | rfl := h
  · rw [isOptional, anyOptional, ht]
    rfl
  · rfl

/-- A settled type that is no union either, and does not stand for the absent
value, has none. -/
theorem Settled.not_optional_of_simple (ht : t.Settled) (hvoid : t.isVoidOrNothing = false)
    (h : t.simplify.isComposite = false) : t.isOptional = false := by
  rw [ht.simplify hvoid] at h
  cases t with
  | nominal d _ _ _ =>
    obtain ⟨hv, hn⟩ := isVoidOrNothing_eq_false hvoid
    exact Bool.or_eq_false_iff.mpr ⟨hn, hv⟩
  | union _ => contradiction
  | inter _ | param _ | bottom | error => rfl

theorem Settled.present_of_simplify (ht : t.Settled) (hvoid : t.isVoidOrNothing = false)
    (h : t.simplify.isComposite = true) : t.simplify.hasAbsentCase = false := by
  rw [ht.simplify hvoid] at h ⊢
  rw [bareParam_eq_self h]
  exact ht.present

theorem Settled.not_optional_string (ht : t.Settled) :
    (t.isOptional && t.definite.isString) = false := by
  cases t with
  | nominal d as o hint =>
    by_cases hnothing : d = Language.nothing
    · subst hnothing
      rfl
    · by_cases hvoid : d = Language.void
      · subst hvoid
        rfl
      · simp [isOptional, hnothing, hvoid]
  | union cases =>
    simp only [definite, presentCases_eq_self ht.present]
    rcases cases with _ | ⟨only, _ | ⟨second, rest⟩⟩
    · rfl
    · exact absurd ht.sole only.collapse_union_ne
    · exact Bool.and_false _
  | inter _ | param _ | bottom | error => rfl

theorem IsSole.not_typeParameter (h : s.IsSole t) (ht : t.isParam = false) :
    s.isTypeParameter = false := by
  obtain rfl | rfl := h
  · cases hnothing : t.isOf Language.nothing with
    | true =>
      have hpresent : presentCases [t] = [] := by simp [presentCases, hnothing]
      simp [isTypeParameter, nonNull, hpresent, isParam]
    | false =>
      have hpresent : presentCases [t] = [t] := by simp [presentCases, hnothing]
      simp [isTypeParameter, nonNull, hpresent, ht]
  · rfl

theorem Settled.not_typeParameter (ht : t.Settled) (h : t.isParam = false) :
    t.isTypeParameter = false := by
  unfold isTypeParameter
  obtain hself | hself | hself := ht.nonNull_eq
  · rw [hself]
    rfl
  · rw [hself]
    rfl
  · rw [hself, h]

theorem isOptional_of_hasAbsentCase (h : t.hasAbsentCase = true) : t.isOptional = true := by
  cases t with
  | union cases =>
    obtain ⟨c, hc, hnothing⟩ := List.any_eq_true.mp h
    rw [isOptional, anyOptional_eq_any]
    exact List.any_eq_true.mpr ⟨c, hc, isOptional_of_isOf_nothing hnothing⟩
  | nominal _ _ _ _ | inter _ | param _ | bottom | error => contradiction

/-- A type with an absent case comes out of a union or an intersection of one with
its absent case. -/
theorem IsSole.simplify_of_hasAbsentCase (h : s.IsSole t) (hsole : t.collapse = t)
    (habsent : t.hasAbsentCase = true) : s.simplify = t := by
  cases t with
  | union cases =>
    obtain rfl | rfl := h
    · have hoptional : (union [union cases]).isOptional = true := by
        rw [isOptional, anyOptional, isOptional_of_hasAbsentCase habsent]
        rfl
      rw [simplify_of_sole hoptional rfl rfl, withoutHint_of_optional
        (isOptional_of_hasAbsentCase habsent) rfl, hsole]
      rfl
    · rfl
  | nominal _ _ _ _ | inter _ | param _ | bottom | error => contradiction

end Ty

namespace Model

variable {m : Model} {s t : Ty}

/-- A union or an intersection of one settled type erases with it. -/
theorem erasesToObject_sole (h : s.IsSole t) (ht : t.Settled) :
    m.erasesToObject s = m.erasesToObject t := by
  have hcollapse := h.collapse_eq
  rw [← erasesToObject_collapse (.inr (hcollapse ▸ ht)), hcollapse]

/-- A union or an intersection of an optional type erases where that has no
iterable shape, whether it erases itself or not. -/
theorem erasesToObject_sole_of_hasAbsentCase (h : s.IsSole t) (hsole : t.collapse = t)
    (habsent : t.hasAbsentCase = true) :
    m.erasesToObject s = (m.iterableShape? t).isNone := by
  have hcomposite : t.isComposite = true := by
    cases t with
    | union _ => rfl
    | nominal _ _ _ _ | inter _ | param _ | bottom | error => contradiction
  have hsimple := h.simplify_of_hasAbsentCase hsole habsent
  rw [erasesToObject_of_isComposite (hsimple ▸ hcomposite), hsimple]

theorem erasesToObject_eq_isNone_shape (hcomposite : t.simplify.isComposite = true)
    (hpresent : t.simplify.hasAbsentCase = false) :
    m.erasesToObject t = (m.iterableShape? t).isNone := by
  have hsome : (m.iterableShape? t).isSome = (m.iterableShape? t.simplify).isSome := by
    rw [isSome_iterableShape?_eq, isSome_iterableShape? hpresent]
  rw [erasesToObject_of_isComposite hcomposite, ← Option.not_isSome, ← Option.not_isSome, hsome]

/-- A union or an intersection of one stays one layer deep inside another one, so it
erases there where it has no iterable shape. -/
theorem erasesToObject_sole_of_sole {u : Ty} (h : s.IsSole t) (ht : t.IsSole u) (hu : u.Settled) :
    m.erasesToObject s = (m.iterableShape? t).isNone := by
  have hlayer : s.simplify = t → m.erasesToObject s = (m.iterableShape? t).isNone := fun hself => by
    rw [erasesToObject_of_isComposite (hself ▸ ht.isComposite), hself]
  cases hoptional : t.isOptional with
  | false =>
    refine hlayer ?_
    rw [Ty.simplify_of_not_optional (h.not_optional hoptional), h.collapse_eq, ht.bareParam_eq]
  | true =>
    obtain rfl : t = .union [u] := ht.resolve_right fun hinter => by
      rw [hinter] at hoptional
      contradiction
    obtain rfl | rfl := h
    · cases hvoid : u.isVoidOrNothing with
      | true =>
        have hshape : m.iterableShape? (.union [u]) = none :=
          iterableShape?_of_erases
            (erasesToObject_of_isVoidOrNothing (t := .union [u]) hu hvoid).2.1
        obtain ⟨d, hint, rfl | rfl, rfl⟩ := hu.eq_of_isVoidOrNothing hvoid
        · rw [hshape]
          rfl
        · rw [hshape]
          rfl
      | false =>
        have hsimple : (Ty.union [.union [u]]).simplify = u.simplify := by
          have hagain : (Ty.union [.union [u]]).isOptional = true := by
            simpa [Ty.isOptional, Ty.anyOptional] using hoptional
          rw [Ty.simplify_of_sole hagain rfl rfl, hu.simplify hvoid]
          rfl
        have hcomposite : u.simplify.isComposite = true := by
          rw [← Bool.not_eq_false]
          intro hsimple
          have hnone := Ty.IsSole.not_optional (.inl rfl) (hu.not_optional_of_simple hvoid hsimple)
          exact Bool.false_ne_true (hnone.symm.trans hoptional)
        have hpresent := hu.present_of_simplify hvoid hcomposite
        rw [erasesToObject_congr hsimple, ← erasesToObject_sole (.inl rfl) hu]
        have hself := Ty.IsSole.simplify_of_settled (.inl rfl) hu hvoid
        exact erasesToObject_eq_isNone_shape (hself ▸ hcomposite) (hself ▸ hpresent)
    · exact hlayer rfl

theorem isNone_shape_of_erases_or_shape
    (h : m.erasesToObject t = true ∨ (m.iterableShape? t).isSome = true) :
    (m.iterableShape? t).isNone = m.erasesToObject t := by
  cases herases : m.erasesToObject t with
  | true =>
    rw [iterableShape?_of_erases herases]
    rfl
  | false =>
    rw [herases] at h
    exact Option.isNone_eq_false_iff.mpr (h.resolve_left Bool.false_ne_true)

/-- What is simplified to a scalar neither erases nor has an iterable shape. -/
theorem kept_of_scalar (h : t.simplify.isScalar = true) :
    m.erasesToObject t = false ∧ (m.iterableShape? t).isSome = false := by
  have hnone := supertype?_of_isScalar (m := m) h (by decide : Language.iterable ∉ rootDecls)
    (by decide)
  constructor
  · obtain ⟨d, hd, hint, hsimple⟩ := Ty.isScalar_iff.mp h
    have hroot : ∀ c ∈ basicDecls, rootDecls.contains c = false := by decide
    unfold erasesToObject
    rw [hsimple]
    simp only [hroot d hd, Bool.and_false]
  · rw [isSome_iterableShape?_eq, nonemptyIterable?_eq_none hnone]
    rfl

theorem not_string_of_erases_or_shape
    (h : m.erasesToObject t = true ∨ (m.iterableShape? t).isSome = true) :
    (t.isOptional && t.definite.isString) = false := by
  rw [Bool.eq_false_iff]
  intro hstring
  obtain ⟨hoptional, hstring⟩ := (Bool.and_eq_true _ _).mp hstring
  obtain ⟨hint, hself⟩ := Ty.isExactly_iff.mp hstring
  have hsimple : t.simplify = .nominal Language.string [] none hint := by
    rw [Ty.simplify_of_optional hoptional, hself]
    rfl
  have hscalar : t.simplify.isScalar = true := by
    rw [hsimple]
    rfl
  obtain ⟨hkept, hshape⟩ := kept_of_scalar (m := m) hscalar
  simp [hkept, hshape] at h

theorem not_scalar_of_erases_or_shape {u : Ty} (ht : t.IsSole u)
    (h : m.erasesToObject t = true ∨ (m.iterableShape? t).isSome = true) : u.isScalar = false := by
  rw [Bool.eq_false_iff]
  intro hscalar
  have hsimple : t.simplify = u := by
    obtain ⟨d, hd, hint, rfl⟩ := Ty.isScalar_iff.mp hscalar
    have hnone : (Ty.nominal d [] none hint).isOptional = false := by
      rw [← Bool.not_eq_true]
      intro hoptional
      rw [Ty.not_scalar_of_optional hoptional] at hscalar
      contradiction
    rw [Ty.simplify_of_not_optional (ht.not_optional hnone), ht.collapse_eq]
    rfl
  obtain ⟨hkept, hshape⟩ := kept_of_scalar (m := m) (hsimple.symm ▸ hscalar)
  simp [hkept, hshape] at h

end Model

namespace TypeLowering

variable {m : Model} {lower : Ty → TypeLowering Target.Ty} {ctx : Context} {s t : Ty}

theorem rawForm?_of_not_scalar (hscalar : t.isScalar = false)
    (hplatform : t.isPlatformString = false) (small : Bool) :
    rawForm? m small t = if m.isBoolean t then some (.primitive .boolean) else none := by
  simp [rawForm?, Ty.not_scalar hscalar, hplatform]

/-- A union or an intersection that does not erase is written as its shape, in or
out of a union or an intersection of one. -/
theorem writtenType_sole_of_isComposite (h : s.IsSole t) (ht : t.Settled)
    (herases : m.erasesToObject t = false) (hcomposite : t.simplify.isComposite = true) :
    writtenType m lower ctx s = writtenType m lower ctx t := by
  have hvoid := Model.isVoidOrNothing_of_not_erases ht herases
  have hsimple := h.simplify_of_settled ht hvoid
  have hpresent := ht.present_of_simplify hvoid hcomposite
  obtain ⟨shape, hshape⟩ := Option.isSome_iff_exists.mp
    (Model.isSome_iterableShape?_of_not_erases hcomposite hpresent herases)
  have hshape' : m.iterableShape? s = some shape := by
    rw [Model.iterableShape?_eq_of_isComposite (hsimple ▸ hcomposite), hsimple,
      ← Model.iterableShape?_eq_of_isComposite hcomposite, hshape]
  rw [writtenType_of_shape (hsimple ▸ hcomposite) hshape', writtenType_of_shape hcomposite hshape]

/-- A settled type that is neither scalar nor a type parameter is written alike
in a union or an intersection of one. -/
theorem writtenType_sole (h : s.IsSole t) (ht : t.Settled) (herases : m.erasesToObject t = false)
    (hparam : t.isParam = false) (hscalar : t.isScalar = false)
    (hhint : t.hint? ≠ some .platformString) :
    writtenType m lower ctx s = writtenType m lower ctx t := by
  have hvoid := Model.isVoidOrNothing_of_not_erases ht herases
  have hsimple := h.simplify_of_settled ht hvoid
  cases hcomposite : t.simplify.isComposite with
  | true => exact writtenType_sole_of_isComposite h ht herases hcomposite
  | false =>
    have hbottom : t ≠ .bottom := by
      rintro rfl
      contradiction
    have hplatform : s.isPlatformString = false ∧ t.isPlatformString = false := by
      constructor
      · rw [Bool.eq_false_iff]
        exact fun hs => hhint (h.isPlatformString_iff.mp hs).2.1
      · rw [Bool.eq_false_iff]
        exact fun hs => hhint (ht.hint?_of_isPlatformString hs)
    have hself := ht.not_optional_of_simple hvoid hcomposite
    have hoptional : s.isOptional = false := h.not_optional hself
    have hparams : s.isTypeParameter = false ∧ t.isTypeParameter = false :=
      ⟨h.not_typeParameter hparam, ht.not_typeParameter hparam⟩
    have hboolean : m.isBoolean s = m.isBoolean t := by
      simp [Model.isBoolean_sole h, hbottom]
    unfold writtenType
    simp only [hsimple, hcomposite, hplatform, hoptional, hself, hparams, hboolean,
      classType_congr hsimple, Ty.erasesToException, rawForm?_of_not_scalar h.isScalar hplatform.1,
      rawForm?_of_not_scalar hscalar hplatform.2, Bool.false_eq_true, if_false]

/-- Around the erroneous type nothing but the placeholder is written either. -/
theorem writtenType_sole_of_error (h : s.IsSole .error) :
    writtenType m lower ctx s = pure .erroneous := by
  have hsimple : s.simplify = .error := by
    obtain rfl | rfl := h
    · rfl
    · rfl
  have hboolean : m.isBoolean s = false := by
    have herror := Model.isBasic_error (m := m)
    simp only [Model.isBasic, Bool.or_eq_false_iff] at herror
    simp [Model.isBoolean_sole h, herror]
  have hplatform : s.isPlatformString = false := by
    rw [Bool.eq_false_iff]
    intro hs
    exact absurd (h.isPlatformString_iff.mp hs).2.1 (by decide)
  rw [writtenType_of_not_raw (by rw [hsimple]; rfl), Ty.erasesToException, hsimple,
    classType_of_no_class (by rw [hsimple]; rfl) (by rw [hsimple]; rfl)]
  · rfl
  · intro _
    simp [Model.canUnbox, Model.isBasic, Ty.not_scalar h.isScalar, hboolean, hplatform]
  · intro hs
    rw [hboolean] at hs
    contradiction

end TypeLowering

/-! ## All queries together -/

namespace Env

open TypeLowering

/-- No query tells the two types apart. -/
structure Alike (env : Env) (s t : Ty) : Prop where
  lowered : ∀ ctx, env.lowerType? s ctx = env.lowerType? t ctx
  erased : env.model.erasesToObject s = env.model.erasesToObject t
  unboxable : env.model.canUnbox s = env.model.canUnbox t
  kept : env.valueForm s = env.valueForm t
  boxed : ∀ e, env.boxValue e s = env.boxValue e t
  unboxed : ∀ e, env.unboxValue e s = env.unboxValue e t
  tested : ∀ raw, env.typeTest raw s = env.typeTest raw t
  iterated : env.model.iteratedType? s = env.model.iteratedType? t

variable {env : Env} {s t : Ty}

/-- A test against the sole member is the whole test. -/
theorem typeTest_sole (h : s.IsSole t) (raw : String) :
    env.typeTest raw s = env.typeTest raw t := by
  obtain rfl | rfl := h
  · simp [typeTest, typeTests, combineTests]
  · simp [typeTest, typeTests, combineTests]

theorem iteratedType?_sole (h : s.IsSole t) :
    env.model.iteratedType? s = env.model.iteratedType? t := by
  unfold Model.iteratedType?
  rw [Model.supertype?_sole h]

/-- The lowering takes one layer off. -/
theorem lowerType?_sole (env : Env) (h : s.IsSole t) (ht : t.collapse = t) (ctx : Context) :
    env.lowerType? s ctx = env.lowerType? t ctx := by
  unfold lowerType? step
  rw [h.collapse_eq, ht]

/-- Two layers are taken off together where the sole member is no scalar and no type
parameter. -/
theorem lowerType?_sole_of_sole (env : Env) {u : Ty} (h : s.IsSole t) (ht : t.IsSole u)
    (hu : u.Settled) (hparam : u.isParam = false) (hscalar : u.isScalar = false)
    (hhint : u.hint? ≠ some .platformString) (ctx : Context) :
    env.lowerType? s ctx = env.lowerType? t ctx := by
  have htherror : t ≠ .error := by
    rintro rfl
    cases ht.isComposite
  have houter : resolveBound env.model (adjust env.config ctx) s.collapse = t := by
    rw [h.collapse_eq]
    exact resolveBound_of_not_param fun _ => ht.not_param
  have hinner : resolveBound env.model (adjust env.config ctx) t.collapse = u := by
    rw [ht.collapse_eq]
    exact resolveBound_of_not_param fun _ => hparam
  have herases := env.model.erasesToObject_sole ht hu
  unfold lowerType?
  by_cases herror : u = .error
  · subst herror
    rw [step_of_error ht.collapse_eq,
      step_of_not_erases (h.collapse_eq.symm ▸ htherror) (by rw [houter, herases]; rfl), houter,
      writtenType_sole_of_error ht]
    rfl
  · cases hself : env.model.erasesToObject u with
    | true =>
      rw [step_of_erases (by rw [houter, herases, hself]), step_of_erases (by rw [hinner, hself])]
    | false =>
      rw [step_of_not_erases (h.collapse_eq.symm ▸ htherror) (by rw [houter, herases, hself]),
        step_of_not_erases (ht.collapse_eq.symm ▸ herror) (by rw [hinner, hself]), houter, hinner,
        writtenType_sole ht hu hself hparam hscalar hhint]

theorem valueForm_congr (h : ∀ ctx, env.lowerType? s ctx = env.lowerType? t ctx) :
    env.valueForm s = env.valueForm t := by
  unfold valueForm lowerType
  rw [h, h]

theorem canUnbox_sole_of_settled (h : s.IsSole t) (ht : t.Settled) (hscalar : t.isScalar = false)
    (hbottom : t ≠ .bottom) (hhint : t.hint? ≠ some .platformString) :
    env.model.canUnbox s = env.model.canUnbox t := by
  have hs : s.isPlatformString = false := by
    rw [Bool.eq_false_iff]
    exact fun hs => hhint (h.isPlatformString_iff.mp hs).2.1
  have hself : t.isPlatformString = false := by
    rw [Bool.eq_false_iff]
    exact fun hself => hhint (ht.hint?_of_isPlatformString hself)
  rw [Model.canUnbox_sole h]
  simp [Model.canUnbox, Model.isBasic, Ty.not_scalar hscalar, hs, hself, hbottom]

/-- As the sole member, a settled type is taken for itself by every query exactly
when it is no scalar and neither says nothing nor is the bottom type. -/
theorem alike_iff_of_settled (h : s.IsSole t) (ht : t.Settled)
    (hhint : t.hint? = some .platformString → t.isScalar = true) :
    env.Alike s t ↔ t.isScalar = false ∧ t ≠ Language.voidTy ∧ t ≠ .bottom := by
  constructor
  · intro halike
    exact (boxValue_sole_iff h .null).mp (halike.boxed .null)
  · rintro ⟨hscalar, hvoid, hbottom⟩
    have hlowered := env.lowerType?_sole h ht.sole
    have hplatform : t.hint? ≠ some .platformString := by
      intro hself
      rw [hhint hself] at hscalar
      contradiction
    exact {
      lowered := hlowered
      erased := Model.erasesToObject_sole h ht
      unboxable := canUnbox_sole_of_settled h ht hscalar hbottom hplatform
      kept := valueForm_congr hlowered
      boxed := boxValue_sole h hscalar hvoid hbottom
      unboxed := unboxValue_sole h hscalar hbottom ht.not_optional_string
      tested := typeTest_sole h
      iterated := iteratedType?_sole h }

/-- An optional type is taken for itself exactly when it stays no platform string,
and erases or has an iterable shape. -/
theorem alike_iff_of_hasAbsentCase (h : s.IsSole t) (hsole : t.collapse = t)
    (habsent : t.hasAbsentCase = true) :
    env.Alike s t ↔ t.isPlatformString = false ∧
      (env.model.erasesToObject t = true ∨ (env.model.iterableShape? t).isSome = true) := by
  obtain ⟨cases, rfl⟩ : ∃ cases, t = .union cases := by
    cases t with
    | union cases => exact ⟨cases, rfl⟩
    | nominal _ _ _ _ | inter _ | param _ | bottom | error => contradiction
  have hboolean : env.model.isBoolean (.union cases) = false :=
    Model.isBoolean_of_optional (Ty.isOptional_of_hasAbsentCase habsent)
  have hs : env.model.canUnbox s = false := by
    have hplatform : s.isPlatformString = false := by
      rw [Bool.eq_false_iff]
      exact fun hs => absurd (h.isPlatformString_iff.mp hs).2.1 (by simp [Ty.hint?])
    simp [Model.canUnbox_sole h, hboolean, hplatform]
  have ht : env.model.canUnbox (.union cases) = (Ty.union cases).isPlatformString := by
    have hscalar : (Ty.union cases).isScalar = false := rfl
    simp [Model.canUnbox, Model.isBasic, hboolean, Ty.not_scalar hscalar]
  have herased := Model.erasesToObject_sole_of_hasAbsentCase (m := env.model) h hsole habsent
  constructor
  · intro halike
    refine ⟨by rw [← ht, ← halike.unboxable, hs], ?_⟩
    have herases := halike.erased
    rw [herased] at herases
    cases hself : env.model.erasesToObject (.union cases) with
    | true => exact .inl rfl
    | false =>
      rw [hself] at herases
      exact .inr (Option.isNone_eq_false_iff.mp herases)
  · rintro ⟨hplatform, hself⟩
    have hlowered := env.lowerType?_sole h hsole
    exact {
      lowered := hlowered
      erased := by rw [herased, Model.isNone_shape_of_erases_or_shape hself]
      unboxable := by rw [hs, ht, hplatform]
      kept := valueForm_congr hlowered
      boxed := boxValue_sole h rfl (by intro heq; cases heq) (by intro heq; cases heq)
      unboxed := unboxValue_sole h rfl (by intro heq; cases heq)
        (Model.not_string_of_erases_or_shape hself)
      tested := typeTest_sole h
      iterated := iteratedType?_sole h }

/-- A union or an intersection of one settled type, no parameter and no platform
string, is taken for itself exactly when it erases or has an iterable shape. -/
theorem alike_iff_of_sole {u : Ty} (h : s.IsSole t) (ht : t.IsSole u) (hu : u.Settled)
    (hparam : u.isParam = false) (hhint : u.hint? ≠ some .platformString) :
    env.Alike s t ↔
      env.model.erasesToObject t = true ∨ (env.model.iterableShape? t).isSome = true := by
  have herased := Model.erasesToObject_sole_of_sole (m := env.model) h ht hu
  have hplatform : t.isPlatformString = false := by
    rw [Bool.eq_false_iff]
    exact fun hself => hhint (ht.isPlatformString_iff.mp hself).2.1
  have hplatform' : s.isPlatformString = false := by
    rw [Bool.eq_false_iff]
    intro hself
    have hnone := (h.isPlatformString_iff.mp hself).2.1
    rw [ht.hint?_eq] at hnone
    contradiction
  constructor
  · intro halike
    have herases := halike.erased
    rw [herased] at herases
    cases hself : env.model.erasesToObject t with
    | true => exact .inl rfl
    | false =>
      rw [hself] at herases
      exact .inr (Option.isNone_eq_false_iff.mp herases)
  · intro hself
    have hscalar := Model.not_scalar_of_erases_or_shape ht hself
    have hlowered := env.lowerType?_sole_of_sole h ht hu hparam hscalar hhint
    exact {
      lowered := hlowered
      erased := by rw [herased, Model.isNone_shape_of_erases_or_shape hself]
      unboxable := by
        rw [Model.canUnbox_sole h]
        simp [Model.canUnbox, Model.isBasic, Ty.not_scalar ht.isScalar, hplatform, hplatform',
          ht.ne_bottom]
      kept := valueForm_congr hlowered
      boxed := boxValue_sole h ht.isScalar ht.ne_void ht.ne_bottom
      unboxed := unboxValue_sole h ht.isScalar ht.ne_bottom ht.not_optional_string
      tested := typeTest_sole h
      iterated := iteratedType?_sole h }

/-! ## Where a sole member is taken for itself -/

/-- Tests and iteration never tell a union or an intersection of one from its sole
member.  Values are boxed alike unless they are scalar, say nothing or are of the
bottom type, and made raw alike unless they are numbers or characters, of the
bottom type, or strings, optional or not, other than literals.  All queries
together agree on a settled type exactly when it is none of the types whose values
are boxed apart; on an optional type, exactly when it stays no platform string, and
erases or has an iterable shape; and on what is such a union or intersection
itself, exactly when that erases or has an iterable shape. -/
theorem sole_alike_iff (env : Env) {s t : Ty} (h : s.IsSole t) :
    (∀ raw, env.typeTest raw s = env.typeTest raw t) ∧
    env.model.iteratedType? s = env.model.iteratedType? t ∧
    (∀ e, env.boxValue e s = env.boxValue e t ↔
      t.isScalar = false ∧ t ≠ Language.voidTy ∧ t ≠ .bottom) ∧
    (∀ e, env.unboxValue e s = env.unboxValue e t ↔
      t ≠ .bottom ∧ (t.isInteger || t.isFloat || t.isCharacter) = false ∧
        (e.isStringLiteral = true ∨
          t.isString = false ∧ (t.isOptional && t.definite.isString) = false)) ∧
    (t.collapse = t → ∀ ctx, env.lowerType? s ctx = env.lowerType? t ctx) ∧
    (t.Settled → (t.hint? = some .platformString → t.isScalar = true) →
      (env.Alike s t ↔ t.isScalar = false ∧ t ≠ Language.voidTy ∧ t ≠ .bottom)) ∧
    (t.collapse = t → t.hasAbsentCase = true →
      (env.Alike s t ↔ t.isPlatformString = false ∧
        (env.model.erasesToObject t = true ∨ (env.model.iterableShape? t).isSome = true))) ∧
    ∀ u, t.IsSole u → u.Settled → u.isParam = false → u.hint? ≠ some .platformString →
      (env.Alike s t ↔
        env.model.erasesToObject t = true ∨ (env.model.iterableShape? t).isSome = true) :=
  ⟨typeTest_sole h, iteratedType?_sole h, boxValue_sole_iff h, unboxValue_sole_iff h,
    env.lowerType?_sole h, alike_iff_of_settled h, alike_iff_of_hasAbsentCase h,
    fun _ => alike_iff_of_sole h⟩

/-- The Boolean type, optional iterables of it and the union of those alone are taken
for themselves as sole members; a number is not. -/
theorem soleMembers_alike :
    (Env.of .new .standard).Alike (.union [Language.booleanTy]) Language.booleanTy ∧
      ¬ (Env.of .new .standard).Alike (.inter [Language.integerTy]) Language.integerTy ∧
      (Env.of .new .standard).Alike
        (.inter [.optional (.of Language.iterable [Language.booleanTy])])
        (.optional (.of Language.iterable [Language.booleanTy])) ∧
      (Env.of .new .standard).Alike (.union [.inter [.of Language.iterable [Language.booleanTy]]])
        (.inter [.of Language.iterable [Language.booleanTy]]) := by
  have hboolean := sole_alike_iff (Env.of .new .standard)
    (s := .union [Language.booleanTy]) (t := Language.booleanTy) (.inl rfl)
  have hinteger := sole_alike_iff (Env.of .new .standard)
    (s := .inter [Language.integerTy]) (t := Language.integerTy) (.inr rfl)
  have hoptional := sole_alike_iff (Env.of .new .standard)
    (s := .inter [.optional (.of Language.iterable [Language.booleanTy])])
    (t := .optional (.of Language.iterable [Language.booleanTy])) (.inr rfl)
  have hnested := sole_alike_iff (Env.of .new .standard)
    (s := .union [.inter [.of Language.iterable [Language.booleanTy]]])
    (t := .inter [.of Language.iterable [Language.booleanTy]]) (.inl rfl)
  obtain ⟨-, -, -, -, -, hsettled, -, -⟩ := hboolean
  obtain ⟨-, -, -, -, -, hnumber, -, -⟩ := hinteger
  obtain ⟨-, -, -, -, -, -, habsent, -⟩ := hoptional
  obtain ⟨-, -, -, -, -, -, -, hsole⟩ := hnested
  refine ⟨(hsettled (by decide) nofun).mpr (by decide), ?_,
    (habsent rfl rfl).mpr (by decide),
    (hsole (.of Language.iterable [Language.booleanTy]) (.inr rfl) (by decide) rfl nofun).mpr
      (by decide)⟩
  intro halike
  obtain ⟨hscalar, _⟩ := (hnumber (by decide) nofun).mp halike
  contradiction

/-- Values of the union of one number are kept raw, but boxed into nothing; and with
one more union around it the number is no primitive type any more. -/
theorem soleNumber_apart :
    ((Env.of .new .standard).valueForm (.union [Language.integerTy])).answer? = some .raw ∧
      ((Env.of .new .standard).boxValue (.ident "x") (.union [Language.integerTy])).answer? ≠
        ((Env.of .new .standard).boxValue (.ident "x") Language.integerTy).answer? ∧
      ((Env.of .new .standard).lowerType? (.union [.union [Language.integerTy]]) .plain).answer? ≠
        ((Env.of .new .standard).lowerType? (.union [Language.integerTy]) .plain).answer? := by
  have hsole : (Env.of .new .standard).boxValue (.ident "x") (.union [Language.integerTy]) =
      pure (.ident "x") := boxValue_eq_pure (by decide) (by decide) (by decide) _
  have hself : (Env.of .new .standard).boxValue (.ident "x") Language.integerTy =
      (Env.of .new .standard).boxInto Language.integer [] (.ident "x") :=
    boxValue_of_boxClass (by decide) _
  refine ⟨by decide, ?_, by decide⟩
  rw [hsole, hself, answer?_boxInto]
  intro heq
  have hcall := Option.some.inj heq
  contradiction

end Env

end TreeLowering
