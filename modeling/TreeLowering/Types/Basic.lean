set_option autoImplicit false

/-!
# Types: the semantic types

A type is a class or interface with arguments, a union, an intersection, a type
parameter, the bottom type, or the erroneous type that stands for something
already reported.  Unions and intersections keep their members as given: a
union of one case is not that case.
-/

namespace TreeLowering

/-- Number of a declaration in its model. -/
structure DeclId where
  index : Nat
  deriving DecidableEq, Repr, Inhabited

/-- Number of a type parameter in its model. -/
structure ParamId where
  index : Nat
  deriving DecidableEq, Repr, Inhabited

/-- How a generic declaration varies in a parameter. -/
inductive Variance where
  | invariant
  | covariant
  | contravariant
  deriving DecidableEq, Repr, Inhabited

/-- A narrower platform representation asked for at one occurrence of a basic
type. -/
inductive Hint where
  | byte
  | short
  | int
  | long
  | float
  | double
  | char
  /-- A string that stays a platform string, also when it is optional. -/
  | platformString
  deriving DecidableEq, Repr, Inhabited

namespace Hint

/-- The word for a hint. -/
def word : Hint → String
  | byte => "byte"
  | short => "short"
  | int => "int"
  | long => "long"
  | float => "float"
  | double => "double"
  | char => "char"
  | platformString => "string"

/-- Every hint. -/
def all : List Hint := [byte, short, int, long, float, double, char, platformString]

end Hint

/-- A semantic type. -/
inductive Ty where
  /-- A class or interface, with the instantiation of the type around it and a
  representation hint. -/
  | nominal (decl : DeclId) (args : List Ty) (outer : Option Ty) (hint : Option Hint)
  | union (cases : List Ty)
  | inter (bounds : List Ty)
  | param (param : ParamId)
  /-- The subtype of every type. -/
  | bottom
  /-- Something already reported. -/
  | error
  deriving Repr, Inhabited

namespace Ty

/-! ## Equality -/

mutual

/-- Equality of types as a test. -/
def same : Ty → Ty → Bool
  | nominal d as o h, nominal d' as' o' h' =>
    decide (d = d') && sameAll as as' && sameOuter o o' && decide (h = h')
  | union ts, union ts' => sameAll ts ts'
  | inter ts, inter ts' => sameAll ts ts'
  | param p, param p' => decide (p = p')
  | bottom, bottom => true
  | error, error => true
  | _, _ => false

/-- Equality of argument lists as a test. -/
def sameAll : List Ty → List Ty → Bool
  | [], [] => true
  | t :: ts, t' :: ts' => same t t' && sameAll ts ts'
  | _, _ => false

/-- Equality of qualifying types as a test. -/
def sameOuter : Option Ty → Option Ty → Bool
  | none, none => true
  | some t, some t' => same t t'
  | _, _ => false

end

mutual

theorem eq_of_same : ∀ t t' : Ty, same t t' = true → t = t'
  | nominal d as o h, nominal d' as' o' h', e => by
    simp only [same, Bool.and_eq_true, decide_eq_true_eq] at e
    rw [e.1.1.1, eq_of_sameAll as as' e.1.1.2, eq_of_sameOuter o o' e.1.2, e.2]
  | union ts, union ts', e => by rw [eq_of_sameAll ts ts' (by simpa [same] using e)]
  | inter ts, inter ts', e => by rw [eq_of_sameAll ts ts' (by simpa [same] using e)]
  | param p, param p', e => by rw [of_decide_eq_true (by simpa [same] using e : decide (p = p') = true)]
  | bottom, bottom, _ => rfl
  | error, error, _ => rfl
  | nominal .., union _, e | nominal .., inter _, e | nominal .., param _, e
  | nominal .., bottom, e | nominal .., error, e | union _, nominal .., e
  | union _, inter _, e | union _, param _, e | union _, bottom, e | union _, error, e
  | inter _, nominal .., e | inter _, union _, e | inter _, param _, e | inter _, bottom, e
  | inter _, error, e | param _, nominal .., e | param _, union _, e | param _, inter _, e
  | param _, bottom, e | param _, error, e | bottom, nominal .., e | bottom, union _, e
  | bottom, inter _, e | bottom, param _, e | bottom, error, e | error, nominal .., e
  | error, union _, e | error, inter _, e | error, param _, e | error, bottom, e => by
    simp [same] at e

theorem eq_of_sameAll : ∀ ts ts' : List Ty, sameAll ts ts' = true → ts = ts'
  | [], [], _ => rfl
  | t :: ts, t' :: ts', e => by
    simp only [sameAll, Bool.and_eq_true] at e
    rw [eq_of_same t t' e.1, eq_of_sameAll ts ts' e.2]
  | [], _ :: _, e | _ :: _, [], e => by simp [sameAll] at e

theorem eq_of_sameOuter : ∀ o o' : Option Ty, sameOuter o o' = true → o = o'
  | none, none, _ => rfl
  | some t, some t', e => by rw [eq_of_same t t' (by simpa [sameOuter] using e)]
  | none, some _, e | some _, none, e => by simp [sameOuter] at e

end

mutual

theorem same_refl : ∀ t : Ty, same t t = true
  | nominal d as o h => by simp [same, sameAll_refl as, sameOuter_refl o]
  | union ts => by simpa [same] using sameAll_refl ts
  | inter ts => by simpa [same] using sameAll_refl ts
  | param p => by simp [same]
  | bottom => by simp [same]
  | error => by simp [same]

theorem sameAll_refl : ∀ ts : List Ty, sameAll ts ts = true
  | [] => by simp [sameAll]
  | t :: ts => by simp [sameAll, same_refl t, sameAll_refl ts]

theorem sameOuter_refl : ∀ o : Option Ty, sameOuter o o = true
  | none => by simp [sameOuter]
  | some t => by simpa [sameOuter] using same_refl t

end

theorem same_iff (t t' : Ty) : same t t' = true ↔ t = t' :=
  ⟨eq_of_same t t', fun h => h ▸ same_refl t⟩

instance : DecidableEq Ty := fun t t' => decidable_of_iff (same t t' = true) (same_iff t t')

/-! ## Parts of a nominal type -/

/-- A class or interface without qualifying type and hint. -/
def of (decl : DeclId) (args : List Ty) : Ty := nominal decl args none none

/-- The declaration of a nominal type. -/
def decl? : Ty → Option DeclId
  | nominal d _ _ _ => some d
  | _ => none

/-- The type is a reference to the declaration, whatever its arguments. -/
def isOf (t : Ty) (d : DeclId) : Bool := t.decl? == some d

/-- Arguments of a nominal type. -/
def args : Ty → List Ty
  | nominal _ as _ _ => as
  | _ => []

/-- The type around a nominal type. -/
def outer? : Ty → Option Ty
  | nominal _ _ o _ => o
  | _ => none

/-- Representation hint of a nominal type. -/
def hint? : Ty → Option Hint
  | nominal _ _ _ h => h
  | _ => none

/-- The type is a type parameter. -/
def isParam : Ty → Bool
  | param _ => true
  | _ => false

/-- The type is a union or an intersection. -/
def isComposite : Ty → Bool
  | union _ | inter _ => true
  | _ => false

/-- Attaches a hint to a nominal type. -/
def withHint (h : Hint) : Ty → Ty
  | nominal d as o _ => nominal d as o (some h)
  | t => t

/-- Removes the hint of a nominal type. -/
def withoutHint : Ty → Ty
  | nominal d as o _ => nominal d as o none
  | t => t

mutual

/-- The type and the types around it, innermost first. -/
def segments : Ty → List Ty
  | nominal d as o h => nominal d as o h :: segmentsAround o
  | t => [t]

/-- The segments of a qualifying type. -/
def segmentsAround : Option Ty → List Ty
  | none => []
  | some t => segments t

end

theorem segments_ne_nil (t : Ty) : t.segments ≠ [] := by
  cases t <;> simp [segments]

/-! ## Joins and meets -/

/-- Keeping first occurrences neither loses a member nor brings one in. -/
theorem mem_foldl_firsts {α : Type} [DecidableEq α] {a : α} (as kept : List α) :
    a ∈ as.foldl (fun kept b => if b ∈ kept then kept else kept ++ [b]) kept ↔
      a ∈ kept ∨ a ∈ as := by
  induction as generalizing kept with
  | nil => simp
  | cons b as ih =>
    rw [List.foldl_cons, ih, List.mem_cons, ← or_assoc]
    refine or_congr_left ?_
    split
    · next hseen => exact ⟨.inl, fun h => h.elim id fun heq => heq ▸ hseen⟩
    · rw [List.mem_append, List.mem_singleton]

/-- Drops what was already seen, keeping first occurrences. -/
def distinct (ts : List Ty) : List Ty :=
  ts.foldl (fun kept t => if t ∈ kept then kept else kept ++ [t]) []

theorem mem_distinct {t : Ty} {ts : List Ty} : t ∈ distinct ts ↔ t ∈ ts :=
  (mem_foldl_firsts ts []).trans (by simp only [List.not_mem_nil, false_or])

/-- The union of distinct cases other than bottom; a sole case stands for
itself. -/
def join (ts : List Ty) : Ty :=
  match distinct (ts.filter (· ≠ bottom)) with
  | [] => bottom
  | [t] => t
  | kept => union kept

/-- The intersection of distinct bounds; a sole bound stands for itself. -/
def meet (ts : List Ty) : Ty :=
  match distinct ts with
  | [] => error
  | [t] => t
  | kept => inter kept

end Ty

end TreeLowering
