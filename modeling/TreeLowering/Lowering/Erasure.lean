import TreeLowering.Model.Shape
set_option autoImplicit false

/-!
# Lowering: erasure

Which types the target cannot tell from the root object, and which are the
basic types with a raw form.
-/

namespace TreeLowering

namespace Ty

/-- The sole member of a union or intersection of one. -/
def collapse (t : Ty) : Ty :=
  match t with
  | union [only] => only
  | inter [only] => only
  | _ => t

/-- The type that decisions about erasure look at: without the absent value,
without a union or intersection of one, and with a type parameter in place of
its intersection with the object type. -/
def simplify (t : Ty) : Ty :=
  let present := if t.isOptional then t.definite else t
  let only := present.collapse
  match only with
  | inter [param p, object] => if object = Language.objectTy then param p else only
  | _ => only

/-- Without a hint, the type is the given one. -/
def isExactly (t expected : Ty) : Bool := t.withoutHint == expected

def isString (t : Ty) : Bool := t.isExactly Language.stringTy
def isInteger (t : Ty) : Bool := t.isExactly Language.integerTy
def isFloat (t : Ty) : Bool := t.isExactly Language.floatTy
def isCharacter (t : Ty) : Bool := t.isExactly Language.characterTy
def isObject (t : Ty) : Bool := t.isExactly Language.objectTy

/-- The type is a function value's own type. -/
def isCallable (t : Ty) : Bool := t.isOf Language.callable

/-- A string, optional or not, that stays a platform string. -/
def isPlatformString (t : Ty) : Bool := t.nonNull.hint? == some .platformString

/-- A type parameter, optional or not. -/
def isTypeParameter (t : Ty) : Bool := t.nonNull.isParam

/-- The type is the base exception type. -/
def erasesToException (t : Ty) : Bool := t.simplify.withoutHint == Language.exceptionTy

end Ty

namespace Model

/-- The iterable type above the type without its absent value, when its element
is not the bottom type. -/
def iterableShape? (m : Model) (t : Ty) : Option Ty := m.nonemptyIterable? t.definite

/-- The declarations that the target knows as its root object. -/
def rootDecls : List DeclId :=
  [Language.void, Language.object, Language.nothing, Language.identifiableObject,
    Language.identifiable]

/-- The type lowers to the root object.  A union or intersection with an
iterable shape lowers to that shape instead. -/
def erasesToObject (m : Model) (t : Ty) : Bool :=
  match t.simplify with
  | .nominal d as o _ => o.isNone && as.isEmpty && rootDecls.contains d
  | .bottom => true
  | .union cases => (m.iterableShape? (.union cases)).isNone
  | .inter bounds => (m.iterableShape? (.inter bounds)).isNone
  | .param _ => false
  | .error => false

/-- The Boolean type or one of its cases. -/
def isBoolean (m : Model) (t : Ty) : Bool :=
  t ≠ .bottom && m.isSubtypeOf t Language.boolean

/-- A type whose values have a raw form. -/
def isBasic (m : Model) (t : Ty) : Bool :=
  t.isString || m.isBoolean t || t.isInteger || t.isFloat || t.isCharacter

/-- An array type. -/
def isArray (m : Model) (t : Ty) : Bool :=
  t ≠ .bottom && m.isSubtypeOf t Language.array

/-- Values of the type can be raw. -/
def canUnbox (m : Model) (t : Ty) : Bool := m.isBasic t || t.isPlatformString

end Model

end TreeLowering
