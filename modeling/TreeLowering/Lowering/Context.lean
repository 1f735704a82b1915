set_option autoImplicit false

/-!
# Lowering: where a type appears

The position of a type decides how it is written.  A position is a set of
flags; two of the named positions imply others.
-/

namespace TreeLowering

/-- The position a lowered type appears in. -/
structure Context where
  /-- A clause that lists satisfied interfaces. -/
  satisfies : Bool := false
  /-- A clause that names the extended class. -/
  extending : Bool := false
  /-- A primitive type will not do. -/
  noPrimitives : Bool := false
  /-- Without type arguments. -/
  raw : Bool := false
  /-- A clause that catches exceptions. -/
  catching : Bool := false
  /-- The small primitive type, where there is one. -/
  small : Bool := false
  /-- The class of a created object. -/
  creating : Bool := false
  /-- The companion class of an interface. -/
  companion : Bool := false
  /-- The simple name only. -/
  simpleName : Bool := false
  /-- A type parameter stands for its first bound. -/
  firstBound : Bool := false
  /-- A type argument. -/
  argument : Bool := false
  deriving DecidableEq, Repr, Inhabited

namespace Context

/-- No particular position. -/
def plain : Context := {}

def inSatisfies : Context := { satisfies := true }
def inExtends : Context := { extending := true }
def boxed : Context := { noPrimitives := true }
def rawType : Context := { raw := true }
def inCatch : Context := { catching := true }
def smallNumbers : Context := { small := true }
def inCreation : Context := { creating := true }
def ofCompanion : Context := { companion := true }
def unqualified : Context := { simpleName := true }

/-- A type parameter stands for its first bound, and arguments are dropped. -/
def rawBound : Context := { raw := true, firstBound := true }

/-- A type argument is never primitive. -/
def typeArgument : Context := { noPrimitives := true, argument := true }

/-- Both positions at once. -/
def union (c d : Context) : Context where
  satisfies := c.satisfies || d.satisfies
  extending := c.extending || d.extending
  noPrimitives := c.noPrimitives || d.noPrimitives
  raw := c.raw || d.raw
  catching := c.catching || d.catching
  small := c.small || d.small
  creating := c.creating || d.creating
  companion := c.companion || d.companion
  simpleName := c.simpleName || d.simpleName
  firstBound := c.firstBound || d.firstBound
  argument := c.argument || d.argument

instance : Union Context := ⟨union⟩

/-- Every flag of `d` is set. -/
def contains (c d : Context) : Bool := c ∪ d == c

/-- A clause that names supertypes. -/
def inSupertypeClause (c : Context) : Bool := c.satisfies || c.extending

/-- A position in which an argument without a type of its own is better
written as a wildcard than by dropping all arguments. -/
def nestsArguments (c : Context) : Bool := c.argument || c.inSupertypeClause

/-- A basic type may be a primitive type. -/
def allowsPrimitives (c : Context) : Bool :=
  !(c.satisfies || c.extending || c.noPrimitives || c.creating)

end Context

end TreeLowering
