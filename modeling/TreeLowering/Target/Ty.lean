set_option autoImplicit false

/-!
# Target: type expressions

The types that the lowered code is written with.  Only the placeholder for a
type without representation is not a type of the target itself.
-/

namespace TreeLowering.Target

/-- The primitive types of the platform. -/
inductive Primitive where
  | boolean
  | byte
  | short
  | int
  | long
  | float
  | double
  | char
  /-- Result of a method that returns nothing. -/
  | void
  deriving DecidableEq, Repr, Inhabited

namespace Primitive

/-- The keyword of a primitive type. -/
def keyword : Primitive → String
  | boolean => "boolean"
  | byte => "byte"
  | short => "short"
  | int => "int"
  | long => "long"
  | float => "float"
  | double => "double"
  | char => "char"
  | void => "void"

/-- Every primitive type. -/
def all : List Primitive := [boolean, byte, short, int, long, float, double, char, void]

end Primitive

/-- A type expression. -/
inductive Ty where
  | primitive (p : Primitive)
  /-- A class or interface by its name. -/
  | cls (name : String)
  /-- A member type selected from the type around it. -/
  | member (outer : Ty) (name : String)
  /-- A generic type with its arguments. -/
  | apply (base : Ty) (args : List Ty)
  /-- The argument `?`. -/
  | anyType
  /-- The argument `? extends bound`. -/
  | subtypeOf (bound : Ty)
  /-- The argument `? super bound`. -/
  | supertypeOf (bound : Ty)
  /-- A type variable. -/
  | var (name : String)
  | array (element : Ty)
  /-- The placeholder for a type without representation. -/
  | erroneous
  deriving Repr, Inhabited

namespace Ty

/-! ## Equality -/

mutual

/-- Equality of type expressions as a test. -/
def same : Ty → Ty → Bool
  | primitive p, primitive p' => decide (p = p')
  | cls n, cls n' => decide (n = n')
  | member o n, member o' n' => same o o' && decide (n = n')
  | apply b as, apply b' as' => same b b' && sameAll as as'
  | anyType, anyType => true
  | subtypeOf b, subtypeOf b' => same b b'
  | supertypeOf b, supertypeOf b' => same b b'
  | var n, var n' => decide (n = n')
  | array e, array e' => same e e'
  | erroneous, erroneous => true
  | _, _ => false

/-- Equality of argument lists as a test. -/
def sameAll : List Ty → List Ty → Bool
  | [], [] => true
  | t :: ts, t' :: ts' => same t t' && sameAll ts ts'
  | _, _ => false

end

mutual

theorem eq_of_same (t t' : Ty) (e : same t t' = true) : t = t' := by
  cases t <;> cases t' <;> simp only [same, Bool.false_eq_true, Bool.and_eq_true,
    decide_eq_true_eq] at e
  case primitive.primitive => rw [e]
  case cls.cls => rw [e]
  case member.member => rw [eq_of_same _ _ e.1, e.2]
  case apply.apply => rw [eq_of_same _ _ e.1, eq_of_sameAll _ _ e.2]
  case anyType.anyType => rfl
  case subtypeOf.subtypeOf => rw [eq_of_same _ _ e]
  case supertypeOf.supertypeOf => rw [eq_of_same _ _ e]
  case var.var => rw [e]
  case array.array => rw [eq_of_same _ _ e]
  case erroneous.erroneous => rfl

theorem eq_of_sameAll (ts ts' : List Ty) (e : sameAll ts ts' = true) : ts = ts' := by
  cases ts <;> cases ts' <;> simp only [sameAll, Bool.false_eq_true, Bool.and_eq_true] at e
  case nil.nil => rfl
  case cons.cons => rw [eq_of_same _ _ e.1, eq_of_sameAll _ _ e.2]

end

mutual

theorem same_refl : ∀ t : Ty, same t t = true
  | primitive _ => by simp [same]
  | cls _ => by simp [same]
  | member o _ => by simp [same, same_refl o]
  | apply b as => by simp [same, same_refl b, sameAll_refl as]
  | anyType => by simp [same]
  | subtypeOf b => by simpa [same] using same_refl b
  | supertypeOf b => by simpa [same] using same_refl b
  | var _ => by simp [same]
  | array e => by simpa [same] using same_refl e
  | erroneous => by simp [same]

theorem sameAll_refl : ∀ ts : List Ty, sameAll ts ts = true
  | [] => by simp [sameAll]
  | t :: ts => by simp [sameAll, same_refl t, sameAll_refl ts]

end

theorem same_iff (t t' : Ty) : same t t' = true ↔ t = t' :=
  ⟨eq_of_same t t', fun h => h ▸ same_refl t⟩

instance : DecidableEq Ty := fun t t' => decidable_of_iff (same t t' = true) (same_iff t t')

/-! ## Building and taking apart -/

/-- A generic type with its arguments; without arguments, the base alone. -/
def applied (base : Ty) (args : List Ty) : Ty :=
  if args.isEmpty then base else apply base args

/-- The type is a primitive type that a value can have. -/
def isPrimitive : Ty → Bool
  | primitive p => p != .void
  | _ => false

/-- The type is the placeholder. -/
def isErroneous : Ty → Bool
  | erroneous => true
  | _ => false

/-- The type without generic arguments. -/
def eraseArgs : Ty → Ty
  | apply base _ => eraseArgs base
  | member outer name => member (eraseArgs outer) name
  | t => t

/-! ## Written form -/

mutual

/-- The written form of a type. -/
def text : Ty → String
  | primitive p => p.keyword
  | cls name => name
  | member outer name => text outer ++ "." ++ name
  | apply base args => text base ++ "<" ++ ", ".intercalate (textAll args) ++ ">"
  | anyType => "?"
  | subtypeOf bound => "? extends " ++ text bound
  | supertypeOf bound => "? super " ++ text bound
  | var name => name
  | array element => text element ++ "[]"
  | erroneous => "<erroneous>"

/-- The written forms of several types. -/
def textAll : List Ty → List String
  | [] => []
  | t :: ts => text t :: textAll ts

end

end Ty

end TreeLowering.Target
