import TreeLowering.Types.Basic
set_option autoImplicit false

/-!
# Model: declarations

What the lowering needs to know about a class, an interface, an object, a
method or an attribute, and about a type parameter.
-/

namespace TreeLowering

/-- What sort of thing a declaration is. -/
inductive DeclKind where
  | cls
  | iface
  /-- An anonymous class with a single instance. -/
  | object
  | method
  | attribute
  deriving DecidableEq, Repr, Inhabited

namespace DeclKind

/-- The word for a kind. -/
def word : DeclKind → String
  | cls => "class"
  | iface => "interface"
  | object => "object"
  | method => "method"
  | .attribute => "attribute"

/-- Every kind. -/
def all : List DeclKind := [cls, iface, object, method, .attribute]

end DeclKind

/-- Modifiers of a declaration. -/
structure DeclFlags where
  isShared : Bool := false
  isFormal : Bool := false
  isActual : Bool := false
  isDefault : Bool := false
  isVariable : Bool := false
  isLocal : Bool := false
  isStatic : Bool := false
  isAbstract : Bool := false
  deriving DecidableEq, Repr, Inhabited

namespace DeclFlags

/-- The modifiers that are set, as words. -/
def words (f : DeclFlags) : List String :=
  [("shared", f.isShared), ("formal", f.isFormal), ("actual", f.isActual),
    ("default", f.isDefault), ("variable", f.isVariable), ("local", f.isLocal),
    ("static", f.isStatic), ("abstract", f.isAbstract)].filterMap
    fun (w, isSet) => if isSet then some w else none

/-- The modifiers that the words name. -/
def ofWords (ws : List String) : DeclFlags where
  isShared := ws.contains "shared"
  isFormal := ws.contains "formal"
  isActual := ws.contains "actual"
  isDefault := ws.contains "default"
  isVariable := ws.contains "variable"
  isLocal := ws.contains "local"
  isStatic := ws.contains "static"
  isAbstract := ws.contains "abstract"

end DeclFlags

/-- A formal parameter. -/
structure Parameter where
  name : String
  ty : Ty
  /-- The form the callee expects: raw, boxed, or either. -/
  raw : Option Bool
  deriving DecidableEq, Repr, Inhabited

/-- A type parameter. -/
structure TypeParam where
  name : String
  variance : Variance
  bounds : List Ty
  owner : DeclId
  /-- It takes any number of arguments. -/
  sequenced : Bool
  deriving DecidableEq, Repr, Inhabited

/-- A declaration. -/
structure Declaration where
  name : String
  kind : DeclKind
  /-- Dotted package name. -/
  package : String
  /-- The declaration around it. -/
  container : Option DeclId
  typeParams : List ParamId
  extended : Option Ty
  /-- Satisfied interfaces, in source order. -/
  satisfied : List Ty
  /-- Type of an attribute, result type of a method. -/
  ty : Option Ty
  paramLists : List (List Parameter)
  /-- The topmost declaration that this one refines. -/
  refined : Option DeclId
  flags : DeclFlags
  deriving DecidableEq, Repr, Inhabited

namespace Declaration

/-- A declaration of which only the place is known. -/
def bare (name : String) (kind : DeclKind) (package : String) (container : Option DeclId) :
    Declaration where
  name := name
  kind := kind
  package := package
  container := container
  typeParams := []
  extended := none
  satisfied := []
  ty := none
  paramLists := []
  refined := none
  flags := {}

/-- It is an interface. -/
def isInterface (d : Declaration) : Bool := d.kind == .iface

/-- It is a class, an interface or an object. -/
def isClassLike (d : Declaration) : Bool :=
  match d.kind with
  | .cls | .iface | .object => true
  | .method | .attribute => false

/-- It is a method. -/
def isMethod (d : Declaration) : Bool := d.kind == .method

/-- The extended type, then the satisfied types. -/
def supertypes (d : Declaration) : List Ty := d.extended.toList ++ d.satisfied

end Declaration

end TreeLowering
