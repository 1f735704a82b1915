import TreeLowering.Lowering.Naming
import TreeLowering.Shared.Tables
set_option autoImplicit false

/-!
# Shared tables: the declarations of a program

The declarations and type parameters of a program, with positions for types and
names for texts.
-/

namespace TreeLowering.Shared

open Tabled

/-- A formal parameter. -/
structure Parameter where
  name : Name
  ty : TypeIdx
  /-- The form the callee expects: raw, boxed, or either. -/
  raw : Option Bool
  deriving DecidableEq, Repr, Inhabited

namespace Parameter

/-- The types of parameters. -/
def types (ps : List Parameter) : List TypeIdx := ps.map (·.ty)

end Parameter

/-- A type parameter. -/
structure TypeParam where
  name : Name
  variance : Variance
  bounds : List TypeIdx
  owner : DeclId
  /-- It takes any number of arguments. -/
  sequenced : Bool
  deriving DecidableEq, Repr, Inhabited

/-- A declaration. -/
structure Declaration where
  name : Name
  kind : DeclKind
  /-- Dotted package name. -/
  package : Name
  /-- The declaration around it. -/
  container : Option DeclId
  /-- Direct members, in source order. -/
  members : List DeclId
  typeParams : List ParamId
  extended : Option TypeIdx
  /-- Satisfied interfaces, in source order. -/
  satisfied : List TypeIdx
  /-- Type of an attribute, result type of a method. -/
  ty : Option TypeIdx
  paramLists : List (List Parameter)
  /-- The topmost declaration that this one refines. -/
  refined : Option DeclId
  flags : DeclFlags
  deriving DecidableEq, Repr, Inhabited

namespace Declaration

/-- It is an interface. -/
def isInterface (d : Declaration) : Bool := d.kind == .iface

/-- It is a class, an interface or an object. -/
def isClassLike (d : Declaration) : Bool :=
  match d.kind with
  | .cls | .iface | .object => true
  | .method | .attribute => false

/-- It is a method. -/
def isMethod (d : Declaration) : Bool := d.kind == .method

/-- The extended type, then the satisfied types. -/
def supertypes (d : Declaration) : List TypeIdx := d.extended.toList ++ d.satisfied

end Declaration

/-- Positions of the language module's types without arguments. -/
structure Builtins where
  void : TypeIdx
  object : TypeIdx
  nothing : TypeIdx
  identifiable : TypeIdx
  identifiableObject : TypeIdx
  exception : TypeIdx
  boolean : TypeIdx
  string : TypeIdx
  integer : TypeIdx
  float : TypeIdx
  character : TypeIdx
  deriving DecidableEq, Repr, Inhabited

/-- A program: the language module's declarations and type parameters, then its
own. -/
structure Model where
  decls : Array Declaration
  params : Array TypeParam
  builtins : Builtins
  deriving Repr, Inhabited

namespace Model

/-- A declaration by its number. -/
def decl (m : Model) (d : DeclId) : Declaration := (m.decls[d.index]?).getD default

/-- A type parameter by its number. -/
def param (m : Model) (p : ParamId) : TypeParam := (m.params[p.index]?).getD default

/-- What the search for supertypes asks of the program. -/
def pooled (m : Model) : PooledModel where
  decl d := ⟨(m.decl d).typeParams, (m.decl d).supertypes⟩
  param p := ⟨(m.param p).variance, (m.param p).bounds, (m.param p).sequenced⟩

/-- First bound of a type parameter. -/
def firstBound? (m : Model) (p : ParamId) : Option TypeIdx := (m.param p).bounds.head?

/-! ## Containers and members -/

/-- The declarations around one, innermost first, `fuel` of them at most. -/
def containersWithin (m : Model) : Nat → DeclId → List DeclId
  | 0, _ => []
  | fuel + 1, d =>
    match (m.decl d).container with
    | none => []
    | some c => c :: containersWithin m fuel c

/-- The declarations around one, innermost first. -/
def containers (m : Model) (d : DeclId) : List DeclId := m.containersWithin m.decls.size d

/-- The classes, interfaces and objects directly around a declaration,
innermost first, up to the first container that is none. -/
def enclosingTypes (m : Model) (d : DeclId) : List DeclId :=
  (m.containers d).takeWhile (fun c => (m.decl c).isClassLike)

/-- The class, interface or object that a declaration is a direct member of. -/
def enclosingType? (m : Model) (d : DeclId) : Option DeclId :=
  (m.decl d).container.filter (fun c => (m.decl c).isClassLike)

/-- The first direct member with a name. -/
def directMember? (m : Model) (d : DeclId) (name : Name) : Option DeclId :=
  (m.decl d).members.find? (fun x => (m.decl x).name == name)

/-! ## Names -/

/-- The qualified name of a declaration from the types around it, innermost
first. -/
def nestedName (m : Model) (names : Interner) : Bool → DeclId → List DeclId → String
  | companion, d, [] =>
    let x := m.decl d
    let simple := names.lookup x.name
    let package := names.lookup x.package
    TreeLowering.Model.companionEnd companion
      (if package.isEmpty then simple else package ++ "." ++ simple)
  | companion, d, outer :: around =>
    let x := m.decl d
    let simple := names.lookup x.name
    TreeLowering.Model.companionEnd companion
      (if x.isInterface then
        nestedName m names false outer around ++ Support.liftedSeparator ++ simple
       else nestedName m names (m.decl outer).isInterface outer around ++ "." ++ simple)

/-- The target name of a class or interface, from the texts of the names in
it. -/
def render (m : Model) (d : DeclId) (s : Spelling) : Tabled String :=
  reading fun t =>
    if s.qualified then m.nestedName t.names s.companion d (m.enclosingTypes d)
    else TreeLowering.Model.companionEnd s.companion (t.names.lookup (m.decl d).name)

/-- Dotted name: package, containers from the outside in, then the declaration. -/
def qualifiedName (m : Model) (d : DeclId) : Tabled String :=
  reading fun t =>
    let names := ((m.containers d).reverse ++ [d]).map (fun x => t.names.lookup (m.decl x).name)
    let package := t.names.lookup (m.decl d).package
    ".".intercalate (if package.isEmpty then names else package :: names)

/-! ## Types as a user writes them -/

/-- The written form of a union, from its cases and their written forms. -/
def displayUnion (p : TypePool) : List TypeIdx → List String → String
  | [a, b], [x, y] =>
    if (p.node a).isOf Language.nothing then y ++ "?"
    else if (p.node b).isOf Language.nothing then x ++ "?"
    else x ++ "|" ++ y
  | _, texts => "|".intercalate texts

/-- The written form of a type in which types nest `fuel` deep at most. -/
def displayWithin (m : Model) (t : Tables) : Nat → TypeIdx → String
  | 0, _ => ""
  | fuel + 1, i =>
    match t.pool.node i with
    | .nominal d as o _ =>
      (match o with
        | none => ""
        | some outer => displayWithin m t fuel outer ++ ".")
        ++ t.names.lookup (m.decl d).name
        ++ (if as.isEmpty then "" else "<" ++ ", ".intercalate (as.map (displayWithin m t fuel)) ++ ">")
    | .union cases => displayUnion t.pool cases (cases.map (displayWithin m t fuel))
    | .inter bounds => "&".intercalate (bounds.map (displayWithin m t fuel))
    | .param p => t.names.lookup (m.param p).name
    | .bottom => "Bottom"
    | .error => "<error>"

/-- The written form of a type.  The types that a type is made of have smaller
positions. -/
def display (m : Model) (i : TypeIdx) : Tabled String :=
  reading fun t => m.displayWithin t (i.index + 1) i

/-! ## Types of declarations -/

/-- A declaration applied to its own type parameters. -/
def selfApplied (m : Model) (d : DeclId) (outer : Option TypeIdx) : Tabled TypeIdx := do
  let args ← each (fun p => make (.param p)) (m.decl d).typeParams
  make (.nominal d args outer none)

/-- The innermost of nested declarations applied to its own type parameters and
qualified by the others. -/
def nestedType (m : Model) : List DeclId → Tabled (Option TypeIdx)
  | [] => pure none
  | d :: around => do
    let outer ← nestedType m around
    some <$> m.selfApplied d outer

/-- The type of a value of the declaration seen from inside it. -/
def declaredType (m : Model) (d : DeclId) : Tabled TypeIdx := do
  let outer ← m.nestedType (m.enclosingTypes d)
  m.selfApplied d outer

end Model

/-- An iterator over elements of the type. -/
def iteratorOf (element : TypeIdx) : Tabled TypeIdx :=
  make (.nominal Language.iterator [element] none none)

/-- A function value's type. -/
def callable (result : TypeIdx) (params : List TypeIdx) : Tabled TypeIdx :=
  make (.nominal Language.callable (result :: params) none none)

end TreeLowering.Shared
