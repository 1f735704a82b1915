import TreeLowering.Proofs.Equality
set_option autoImplicit false

/-!
# Proofs: raw numbers and the primitives they are kept in

A number type is written as a primitive that its hint and the settings choose.  A
raw number of the type is a literal or comes from an accessor, and which primitive
that yields is chosen elsewhere: by the class of the type, and for an integer
literal by the hint as well.  The two choices agree where the primitive is the
widest of its class, and at a literal whose hint asks for an `int`; everywhere else
the number is too wide for the primitive.
-/

namespace TreeLowering

/-! ## Primitives of numbers -/

namespace Target

/-- A value of the first primitive type can be assigned to the second one as it
is. -/
def Primitive.widensTo : Primitive → Primitive → Bool
  | byte, q => [byte, short, int, long, float, double].contains q
  | short, q => [short, int, long, float, double].contains q
  | char, q => [char, int, long, float, double].contains q
  | int, q => [int, long, float, double].contains q
  | long, q => [long, float, double].contains q
  | float, q => [float, double].contains q
  | double, q => q == double
  | boolean, q => q == boolean
  | void, _ => false

/-- The integers that a primitive type holds. -/
def Primitive.holds : Primitive → Int → Bool
  | byte, n => -0x80 ≤ n && n < 0x80
  | short, n => -0x8000 ≤ n && n < 0x8000
  | int, n => -0x80000000 ≤ n && n < 0x80000000
  | long, n => -0x8000000000000000 ≤ n && n < 0x8000000000000000
  | _, _ => false

/-- The primitive type of code that is a literal or an accessor of a boxed number. -/
def Expr.numberType? : Expr → Option Primitive
  | .lit (.int _) => some .int
  | .lit (.long _) => some .long
  | .lit (.double _) => some .double
  | .call (some _) [] method [] =>
    if method = Support.unboxInteger then some .long
    else if method = Support.unboxFloat then some .double
    else none
  | _ => none

end Target

namespace Ty

/-- A type of numbers, whatever its hint. -/
def isNumber (t : Ty) : Bool := t.isInteger || t.isFloat

/-- The hint asks for a primitive narrower than the widest one of the class. -/
def isNarrow (t : Ty) : Bool :=
  if t.isInteger then [some .byte, some .short, some .int].contains t.hint?
  else t.hint? == some .float

theorem isNumber_iff {t : Ty} : t.isNumber = true ↔
    ∃ d, (d = Language.integer ∨ d = Language.float) ∧ ∃ hint, t = .nominal d [] none hint := by
  simp only [isNumber, isInteger, isFloat, Language.integerTy, Language.floatTy, Bool.or_eq_true,
    isExactly_iff, or_and_right, exists_or, exists_eq_left]

theorem isScalar_of_isNumber {t : Ty} (h : t.isNumber = true) : t.isScalar = true := by
  rcases (Bool.or_eq_true _ _).mp h with h | h <;> simp [isScalar, h]

end Ty

namespace Tree.Expr

/-- A number that is read: a literal of its class, or the boxed value of a local or
an attribute. -/
inductive ReadsNumber : Tree.Expr → Prop where
  | integer {info : Info} (value : Int) (ht : info.ty.isInteger = true) :
    ReadsNumber (.integer info value)
  | float {info : Info} (bits : UInt64) (ht : info.ty.isFloat = true) :
    ReadsNumber (.float info bits)
  | ident {info : Info} (name : String) (ht : info.ty.isNumber = true) (hraw : info.raw = false) :
    ReadsNumber (.ident info name)
  | member {info : Info} (receiver : Tree.Expr) (name : String) (ht : info.ty.isNumber = true) :
    ReadsNumber (.member info receiver name)

/-- What an attribute is read from. -/
def receiver? : Tree.Expr → Option Tree.Expr
  | member _ receiver _ => some receiver
  | _ => none

/-- An integer literal whose hint asks for an `int` that holds it. -/
def isSmallLiteral : Tree.Expr → Bool
  | integer info value => info.ty.hint? == some .int && Target.Primitive.int.holds value
  | _ => false

theorem ReadsNumber.isNumber {e : Tree.Expr} (h : e.ReadsNumber) : e.ty.isNumber = true := by
  cases h with
  | integer _ ht => simp [Ty.isNumber, Expr.ty, Expr.info, ht]
  | float _ ht => simp [Ty.isNumber, Expr.ty, Expr.info, ht]
  | ident _ ht _ => exact ht
  | member _ _ ht => exact ht

end Tree.Expr

namespace Env

open Lowering TypeLowering
open Target (Primitive)

variable {env : Env} {t : Ty} {s s' : LowerState}

/-- The primitive that a number type is written as. -/
def numberPrimitive (env : Env) (t : Ty) : Primitive :=
  if t.isInteger then integerPrimitive env.config.smallIntegers t.hint?
  else floatPrimitive env.config.smallIntegers t.hint?

/-- The primitive of a boxed number of the type once it is unboxed. -/
def accessorPrimitive (t : Ty) : Primitive := if t.isInteger then .long else .double

/-- Neither the settings nor the hint ask for a narrow primitive. -/
def keepsWide (env : Env) (t : Ty) : Bool := !env.config.smallIntegers && !t.isNarrow

/-! ## What number types are written as -/

/-- A number type is written as its primitive, unless its hint makes it a platform
string. -/
theorem answer?_number (ht : t.isNumber = true) :
    (env.lowerType t .plain).answer? = some (if t.hint? = some .platformString then
      .cls Support.platformString else .primitive (env.numberPrimitive t)) := by
  have hboolean : env.model.isBoolean t = false :=
    Model.isBoolean_of_isScalar (Ty.isScalar_of_isNumber ht)
  obtain ⟨d, hd, hint, rfl⟩ := Ty.isNumber_iff.mp ht
  have hsimple : (Ty.nominal d [] none hint).simplify = .nominal d [] none hint := by
    rcases hd with rfl | rfl <;> rfl
  have herases : env.model.erasesToObject (.nominal d [] none hint) = false := by
    unfold Model.erasesToObject
    rw [hsimple]
    rcases hd with rfl | rfl <;> rfl
  have hordinary : (Ty.nominal d [] none hint).erasesToException = false := by
    unfold Ty.erasesToException
    rw [hsimple]
    rcases hd with rfl | rfl <;> rfl
  have hunbox : env.model.canUnbox (.nominal d [] none hint) = true := by
    rw [Model.canUnbox, isBasic_eq, Ty.isScalar_of_isNumber ht]
    rfl
  obtain ⟨raw, hraw, -⟩ := exists_rawForm hunbox env.config.smallIntegers
  have hwritten : (env.lowerType (.nominal d [] none hint) .plain).answer? = some raw := by
    rw [lowerType_of_not_erases rfl (by intro h; cases h) herases, adjust_plain]
    show (writtenType _ _ _ (.nominal d [] none hint)).answer? = _
    rw [writtenType_of_canUnbox (by rw [hsimple]; rfl) hordinary hunbox hraw]
    rfl
  rw [hwritten, ← hraw]
  unfold rawForm?
  rw [hboolean]
  rcases hd with rfl | rfl <;> rcases hint with _ | hint
  all_goals first | rfl | (cases hint <;> rfl)

/-- The primitive of a number type is the widest one of its class, or narrower than
it. -/
theorem widensTo_numberPrimitive_iff (ht : t.isNumber = true) :
    (accessorPrimitive t).widensTo (env.numberPrimitive t) = true ↔ env.keepsWide t = true := by
  obtain ⟨d, hd, hint, rfl⟩ := Ty.isNumber_iff.mp ht
  unfold accessorPrimitive numberPrimitive keepsWide
  rcases hd with rfl | rfl <;> cases env.config.smallIntegers <;> rcases hint with _ | hint
  all_goals first | decide | (cases hint <;> decide)

/-! ## What raw numbers are -/

/-- A boxed number is unboxed by the accessor of its class. -/
theorem unboxValue_number (ht : t.isNumber = true) {e code : Target.Expr}
    (h : Yields (env.unboxValue e t) s code s') :
    code.numberType? = some (accessorPrimitive t) := by
  obtain ⟨d, hd, hint, rfl⟩ := Ty.isNumber_iff.mp ht
  rcases hd with rfl | rfl
  all_goals
    obtain ⟨rfl, -⟩ := yields_pure.mp h
    rfl

theorem numberType?_integerLiteral (t : Ty) (value : Int) :
    (Target.Expr.lit (integerLiteral t value)).numberType? =
      some (if t.hint? == some .int && Primitive.int.holds value then .int else .long) := by
  unfold integerLiteral
  simp only [Primitive.holds]
  split <;> simp_all [Target.Expr.numberType?]

/-- A literal that an `int` holds is kept in one. -/
theorem numberPrimitive_of_isSmallLiteral {e : Tree.Expr} (he : e.ReadsNumber)
    (h : e.isSmallLiteral = true) : env.numberPrimitive e.ty = .int := by
  cases he with
  | integer value ht =>
    simp only [Tree.Expr.isSmallLiteral, Bool.and_eq_true, beq_iff_eq] at h
    simp [numberPrimitive, Tree.Expr.ty, Tree.Expr.info, ht, h.1, integerPrimitive]
  | float _ _ | ident _ _ _ | member _ _ _ => contradiction

/-- A raw number is as wide as its class, but for a literal whose hint asks for an
`int`. -/
theorem numberType?_lowerExpr {e : Tree.Expr} (he : e.ReadsNumber) {code : Target.Expr}
    (h : Yields (env.lowerExpr e .raw) s code s') :
    code.numberType? = some (if e.isSmallLiteral then .int else accessorPrimitive e.ty) := by
  obtain ⟨n, u, hn, h⟩ := yields_deliver (by decide) h
  cases he with
  | integer value ht =>
    obtain ⟨rfl, -⟩ := yields_pure.mp hn
    obtain ⟨rfl, -⟩ := yields_pure.mp h
    rw [Natural.ofRaw, numberType?_integerLiteral]
    simp [Tree.Expr.isSmallLiteral, accessorPrimitive, Tree.Expr.ty, Tree.Expr.info, ht]
  | @float info bits ht =>
    obtain ⟨rfl, -⟩ := yields_pure.mp hn
    obtain ⟨rfl, -⟩ := yields_pure.mp h
    have hinteger : info.ty.isInteger = false := by
      obtain ⟨hint, heq⟩ := Ty.isExactly_iff.mp ht
      rw [heq]
      rfl
    simp [Natural.ofRaw, Target.Expr.numberType?, Tree.Expr.isSmallLiteral, accessorPrimitive,
      Tree.Expr.ty, Tree.Expr.info, hinteger]
  | ident name ht hraw =>
    obtain ⟨target, v, -, hn⟩ := yields_bind.mp hn
    obtain ⟨rfl, -⟩ := yields_pure.mp hn
    rw [hraw] at h
    exact unboxValue_number ht h
  | member receiver name ht =>
    obtain ⟨target, v, -, hn⟩ := yields_bind.mp hn
    obtain ⟨rfl, -⟩ := yields_pure.mp hn
    exact unboxValue_number ht h

/-- A number is read, unless what an attribute is read from cannot be lowered. -/
theorem exists_lowerExpr_iff {e : Tree.Expr} (he : e.ReadsNumber) (s : LowerState) :
    (∃ code s', Yields (env.lowerExpr e .raw) s code s') ↔
      ∀ r ∈ e.receiver?, ∃ code s', Yields (env.lowerExpr r .boxed) s code s' := by
  -- The natural form of a number is converted, which never fails.
  have hconvert : ∀ {n : Natural} {u : LowerState}, Yields (env.lowerNatural e) s n u →
      ∃ code s', Yields (env.lowerExpr e .raw) s code s' := by
    intro n u hn
    have hraw : ∃ code s', Yields (env.convert n.code (!n.raw) e.ty .raw) u code s' := by
      cases n.raw with
      | true => exact ⟨n.code, u, yields_pure.mpr ⟨rfl, rfl⟩⟩
      | false => exact env.exists_unboxValue n.code e.ty u
    obtain ⟨code, s', hcode⟩ := hraw
    exact ⟨code, s', yields_bind.mpr ⟨n, u, hn, hcode⟩⟩
  cases he with
  | integer value ht =>
    exact iff_of_true (hconvert (yields_pure.mpr ⟨rfl, rfl⟩)) (fun r hr => by cases hr)
  | float bits ht =>
    exact iff_of_true (hconvert (yields_pure.mpr ⟨rfl, rfl⟩)) (fun r hr => by cases hr)
  | ident name ht hraw =>
    have hresolve : Yields (Lowering.resolve name) s (s.names.resolve name) s :=
      yields_reads.mpr ⟨rfl, rfl⟩
    exact iff_of_true (hconvert (yields_bind.mpr ⟨_, s, hresolve, yields_pure.mpr ⟨rfl, rfl⟩⟩))
      (fun r hr => by cases hr)
  | member receiver name ht =>
    constructor
    · rintro ⟨code, s', h⟩ r hr
      obtain rfl := Option.some.inj hr
      obtain ⟨n, u, hn, -⟩ := yields_deliver (by decide) h
      obtain ⟨target, v, htarget, -⟩ := yields_bind.mp hn
      exact ⟨target, v, htarget⟩
    · intro h
      obtain ⟨target, v, htarget⟩ := h receiver rfl
      exact hconvert (yields_bind.mpr ⟨target, v, htarget, yields_pure.mpr ⟨rfl, rfl⟩⟩)

/-- A number type is written as the primitive that its hint and the settings choose.
A number of the type is read whenever what it is read from is.  What is read can be
assigned to that primitive exactly when neither the settings nor the hint ask for a
narrow one, or when it is a literal whose hint asks for an `int`. -/
theorem number_fits_iff (env : Env) {e : Tree.Expr} (he : e.ReadsNumber) :
    (env.lowerType e.ty .plain).answer? = some (if e.ty.hint? = some .platformString then
      .cls Support.platformString else .primitive (env.numberPrimitive e.ty)) ∧
    (∀ s, (∃ code s', Yields (env.lowerExpr e .raw) s code s') ↔
      ∀ r ∈ e.receiver?, ∃ code s', Yields (env.lowerExpr r .boxed) s code s') ∧
    ∀ s code s', Yields (env.lowerExpr e .raw) s code s' →
      ∃ p, code.numberType? = some p ∧ (p.widensTo (env.numberPrimitive e.ty) = true ↔
        env.keepsWide e.ty = true ∨ e.isSmallLiteral = true) := by
  refine ⟨answer?_number he.isNumber, exists_lowerExpr_iff he, fun s code s' h => ?_⟩
  refine ⟨_, numberType?_lowerExpr he h, ?_⟩
  cases hsmall : e.isSmallLiteral with
  | false =>
    simp only [Bool.false_eq_true, if_false, or_false]
    exact widensTo_numberPrimitive_iff he.isNumber
  | true =>
    refine iff_of_true ?_ (.inr rfl)
    rw [if_pos rfl, numberPrimitive_of_isSmallLiteral he hsmall]
    rfl

/-- Without small numbers, a boxed number without a hint fits the primitive of its
type, and so does a literal with one for `int`. -/
theorem plainNumbers_fit :
    (∀ s code s', Yields ((Env.of .new .standard).lowerExpr
        (.ident ⟨Language.floatTy, false, .dummy⟩ "x") .raw) s code s' →
      ∃ p, code.numberType? = some p ∧ p.widensTo .double = true) ∧
    ∀ s code s', Yields ((Env.of .new .standard).lowerExpr
        (.integer ⟨Language.integerTy.withHint .int, true, .dummy⟩ 5) .raw) s code s' →
      ∃ p, code.numberType? = some p ∧ p.widensTo .int = true := by
  refine ⟨fun s code s' h => ?_, fun s code s' h => ?_⟩
  · obtain ⟨p, hp, hfits⟩ := (number_fits_iff (Env.of .new .standard)
      (e := .ident ⟨Language.floatTy, false, .dummy⟩ "x")
      (.ident "x" (by decide) rfl)).2.2 s code s' h
    exact ⟨p, hp, hfits.mpr (.inl (by decide))⟩
  · obtain ⟨p, hp, hfits⟩ := (number_fits_iff (Env.of .new .standard)
      (e := .integer ⟨Language.integerTy.withHint .int, true, .dummy⟩ 5)
      (.integer 5 (by decide))).2.2 s code s' h
    exact ⟨p, hp, hfits.mpr (.inr (by decide))⟩

/-- With small numbers, an integer is kept in an `int`, and the literal 5 is a
`long`; without them, so is a boxed integer whose hint asks for an `int`. -/
theorem smallNumber_too_wide :
    ((Env.of .new { Config.standard with smallIntegers := true }).lowerType
        Language.integerTy .plain).answer? = some (.primitive .int) ∧
      Primitive.int.holds 5 = true ∧
      (∀ s, Yields ((Env.of .new { Config.standard with smallIntegers := true }).lowerExpr
        (.integer ⟨Language.integerTy, true, .dummy⟩ 5) .raw) s (.lit (.long 5)) s) ∧
      Target.Expr.numberType? (.lit (.long 5)) = some .long ∧
      ((Env.of .new .standard).lowerType (Language.integerTy.withHint .int) .plain).answer? =
        some (.primitive .int) ∧
      (∀ s, ∃ x, Yields ((Env.of .new .standard).lowerExpr
        (.ident ⟨Language.integerTy.withHint .int, false, .dummy⟩ "x") .raw) s
          (Target.Expr.get x Support.unboxInteger) s ∧
        (Target.Expr.get x Support.unboxInteger).numberType? = some .long) ∧
      Primitive.long.widensTo .int = false := by
  refine ⟨answer?_number (by decide), by decide, fun s => ?_, rfl, answer?_number (by decide),
    fun s => ⟨.ident (s.names.resolve "x"), ?_, rfl⟩, rfl⟩
  · exact yields_bind.mpr ⟨_, s, yields_pure.mpr ⟨rfl, rfl⟩, yields_pure.mpr ⟨rfl, rfl⟩⟩
  · refine yields_bind.mpr ⟨_, s, yields_bind.mpr ⟨_, s, yields_reads.mpr ⟨rfl, rfl⟩,
      yields_pure.mpr ⟨rfl, rfl⟩⟩, yields_pure.mpr ⟨rfl, rfl⟩⟩

end Env

end TreeLowering
