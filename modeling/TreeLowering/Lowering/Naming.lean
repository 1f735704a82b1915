import TreeLowering.Model.Basic
import TreeLowering.Lowering.Support
import TreeLowering.Text.Upper
set_option autoImplicit false

/-!
# Lowering: names of declarations

A class is written with its package and the types around it.  A member
interface is lifted to the top level, and the members of an interface live in
its companion class.
-/

namespace TreeLowering

/-- Which name of a declaration is meant. -/
structure Spelling where
  /-- From the package down. -/
  qualified : Bool
  /-- The companion class. -/
  companion : Bool
  deriving DecidableEq, Repr, Inhabited

namespace Spelling

/-- The qualified name of the declaration itself. -/
def full : Spelling := ⟨true, false⟩

end Spelling

namespace Model

/-- The name ended as a companion's name is. -/
def companionEnd (companion : Bool) (name : String) : String :=
  if companion then name ++ Support.companionSuffix else name

/-- The qualified name of a declaration from the types around it, innermost
first. -/
def nestedName (m : Model) : Bool → DeclId → List DeclId → String
  | companion, d, [] =>
    let x := m.decl d
    companionEnd companion (if x.package.isEmpty then x.name else x.package ++ "." ++ x.name)
  | companion, d, outer :: around =>
    let x := m.decl d
    companionEnd companion
      (if x.isInterface then nestedName m false outer around ++ Support.liftedSeparator ++ x.name
       else nestedName m (m.decl outer).isInterface outer around ++ "." ++ x.name)

/-- The target name of a class or interface. -/
def spelling (m : Model) (d : DeclId) (s : Spelling) : String :=
  if s.qualified then m.nestedName s.companion d (m.enclosingTypes d)
  else companionEnd s.companion (m.decl d).name

end Model

/-- The getter of an attribute. -/
def getterName (name : String) : String := "get" ++ Text.capitalize name

/-- What a cache of declaration names reads as: the names asked for so far, in that
order.  What is cached for a name is its rendering, so only the names are kept. -/
structure NameTable where
  keys : List (DeclId × Spelling)
  deriving DecidableEq, Repr

namespace NameTable

/-- No name was asked for. -/
def empty : NameTable := ⟨[]⟩

instance : Inhabited NameTable := ⟨empty⟩

/-- Remembers that a name was asked for. -/
def record (t : NameTable) (d : DeclId) (s : Spelling) : NameTable :=
  if (d, s) ∈ t.keys then t else ⟨t.keys ++ [(d, s)]⟩

/-- Number of names. -/
def size (t : NameTable) : Nat := t.keys.length

/-- No name was asked for. -/
def isEmpty (t : NameTable) : Bool := t.keys.isEmpty

end NameTable

end TreeLowering
