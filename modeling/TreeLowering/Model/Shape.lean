import TreeLowering.Model.Supertype
set_option autoImplicit false

/-!
# Model: absent values, elements and results

Whether a type admits the absent value and what remains without it; the element
type of something iterable and the result type of something callable.
-/

namespace TreeLowering

namespace Ty

/-! ## The absent value -/

mutual

/-- The type admits the absent value. -/
def isOptional : Ty → Bool
  | nominal d _ _ _ => d == Language.nothing || d == Language.void
  | union cases => anyOptional cases
  | _ => false

/-- Some type of the list admits the absent value. -/
def anyOptional : List Ty → Bool
  | [] => false
  | t :: ts => isOptional t || anyOptional ts

end

theorem anyOptional_eq_any (ts : List Ty) : anyOptional ts = ts.any isOptional := by
  induction ts with
  | nil => rfl
  | cons t ts ih => simp [anyOptional, ih]

/-- The cases that are not the absent value's own type. -/
def presentCases (cases : List Ty) : List Ty := cases.filter (fun t => !t.isOf Language.nothing)

/-- The type without its absent value.  A type parameter left alone becomes its
intersection with the object type, and any other case left alone loses its
representation hint. -/
def definite (t : Ty) : Ty :=
  match t with
  | nominal d _ _ _ =>
    if d = Language.void then Language.objectTy
    else if d = Language.nothing then bottom
    else t
  | union cases =>
    match presentCases cases with
    | [] => bottom
    | [only] =>
      if only.isOf Language.void then Language.objectTy
      else if only.isParam then inter [only, Language.objectTy]
      else only.withoutHint
    | rest => union rest
  | _ => t

/-- The type without its absent case, which keeps its hint. -/
def nonNull (t : Ty) : Ty :=
  match t with
  | nominal d _ _ _ =>
    if d = Language.void then Language.objectTy
    else if d = Language.nothing then bottom
    else t
  | union cases =>
    match presentCases cases with
    | [] => bottom
    | [only] => only
    | rest => union rest
  | _ => t

end Ty

namespace Model

/-! ## Elements and results -/

/-- Element type of an iterable type. -/
def iteratedType? (m : Model) (t : Ty) : Option Ty :=
  (m.supertype? t Language.iterable).bind (·.args.head?)

/-- The iterable type above a type, when its element is not the bottom type. -/
def nonemptyIterable? (m : Model) (t : Ty) : Option Ty :=
  (m.supertype? t Language.iterable).filter fun iterable =>
    iterable.args.head?.any (· ≠ .bottom)

/-- Result type of a callable type. -/
def callableResult? (m : Model) (t : Ty) : Option Ty :=
  (m.supertype? t Language.callable).bind (·.args.head?)

/-- Arguments of the entry type above a type. -/
def entryArguments (m : Model) (t : Ty) : List Ty :=
  ((m.supertype? t Language.entry).map Ty.args).getD []

end Model

end TreeLowering
