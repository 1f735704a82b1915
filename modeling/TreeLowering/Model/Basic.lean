import TreeLowering.Model.Language
import TreeLowering.Types.Substitution
set_option autoImplicit false

/-!
# Model: the declarations of a program

A model is the language module followed by the program's own declarations and
type parameters.  A declaration's members are the declarations whose container
it is, in the order of declaration.
-/

namespace TreeLowering

/-- The program's own declarations and type parameters; the language module's
come before them. -/
structure Model where
  decls : Array Declaration
  params : Array TypeParam
  deriving Repr

namespace Model

/-- The model of a program that declares nothing. -/
def new : Model := ⟨#[], #[]⟩

instance : Inhabited Model := ⟨new⟩

/-- Number of declarations, the language module's included. -/
def declCount (m : Model) : Nat := Language.decls.size + m.decls.size

/-- Number of type parameters, the language module's included. -/
def paramCount (m : Model) : Nat := Language.params.size + m.params.size

/-- A declaration by its number. -/
def decl (m : Model) (d : DeclId) : Declaration :=
  match Language.decls[d.index]? with
  | some x => x
  | none => (m.decls[d.index - Language.decls.size]?).getD default

/-- A type parameter by its number. -/
def param (m : Model) (p : ParamId) : TypeParam :=
  match Language.params[p.index]? with
  | some x => x
  | none => (m.params[p.index - Language.params.size]?).getD default

theorem decl_eq_default {m : Model} {d : DeclId} (h : m.declCount ≤ d.index) :
    m.decl d = default := by
  have hlanguage : Language.decls.size ≤ d.index := Nat.le_trans (Nat.le_add_right _ _) h
  have hown : m.decls.size ≤ d.index - Language.decls.size := by
    simp only [declCount] at h
    omega
  rw [decl, Array.getElem?_eq_none hlanguage, Array.getElem?_eq_none hown]
  rfl

theorem param_eq_default {m : Model} {p : ParamId} (h : m.paramCount ≤ p.index) :
    m.param p = default := by
  have hlanguage : Language.params.size ≤ p.index := Nat.le_trans (Nat.le_add_right _ _) h
  have hown : m.params.size ≤ p.index - Language.params.size := by
    simp only [paramCount] at h
    omega
  rw [param, Array.getElem?_eq_none hlanguage, Array.getElem?_eq_none hown]
  rfl

/-- What has supertypes is declared. -/
theorem index_of_supertype {m : Model} {d : DeclId} {s : Ty} (hs : s ∈ (m.decl d).supertypes) :
    d.index ∈ List.range m.declCount := by
  refine List.mem_range.mpr (Decidable.byContradiction fun hundeclared => ?_)
  rw [decl_eq_default (Nat.le_of_not_lt hundeclared)] at hs
  exact List.not_mem_nil hs

/-- What has bounds is declared. -/
theorem index_of_bound {m : Model} {p : ParamId} {b : Ty} (hb : b ∈ (m.param p).bounds) :
    p.index ∈ List.range m.paramCount := by
  refine List.mem_range.mpr (Decidable.byContradiction fun hundeclared => ?_)
  rw [param_eq_default (Nat.le_of_not_lt hundeclared)] at hb
  exact List.not_mem_nil hb

/-- Every declaration's number, in order. -/
def declIds (m : Model) : List DeclId := (List.range m.declCount).map DeclId.mk

/-! ## Building -/

/-- Adds a declaration. -/
def addDecl (m : Model) (x : Declaration) : DeclId × Model :=
  (⟨m.declCount⟩, { m with decls := m.decls.push x })

/-- Adds a declaration inside another one, in its package. -/
def addMember (m : Model) (container : DeclId) (name : String) (kind : DeclKind) :
    DeclId × Model :=
  m.addDecl (.bare name kind (m.decl container).package (some container))

/-- Changes one of the program's own declarations. -/
def modifyDecl (m : Model) (d : DeclId) (f : Declaration → Declaration) : Model :=
  if d.index < Language.decls.size then m
  else { m with decls := m.decls.modify (d.index - Language.decls.size) f }

/-- Changes one of the program's own type parameters. -/
def modifyParam (m : Model) (p : ParamId) (f : TypeParam → TypeParam) : Model :=
  if p.index < Language.params.size then m
  else { m with params := m.params.modify (p.index - Language.params.size) f }

/-- Adds a type parameter to a declaration. -/
def addTypeParam (m : Model) (owner : DeclId) (name : String) (variance : Variance)
    (sequenced : Bool) : ParamId × Model :=
  let p : ParamId := ⟨m.paramCount⟩
  let m := { m with params := m.params.push ⟨name, variance, [], owner, sequenced⟩ }
  (p, m.modifyDecl owner (fun x => { x with typeParams := x.typeParams ++ [p] }))

/-! ## Containers and members -/

/-- The declarations around one, innermost first, `fuel` of them at most. -/
def containersWithin (m : Model) : Nat → DeclId → List DeclId
  | 0, _ => []
  | fuel + 1, d =>
    match (m.decl d).container with
    | none => []
    | some c => c :: containersWithin m fuel c

/-- The declarations around one, innermost first.  A container is declared
before what it contains, so there are fewer of them than declarations. -/
def containers (m : Model) (d : DeclId) : List DeclId := m.containersWithin m.declCount d

/-- The classes, interfaces and objects directly around a declaration,
innermost first, up to the first container that is none. -/
def enclosingTypes (m : Model) (d : DeclId) : List DeclId :=
  (m.containers d).takeWhile (fun c => (m.decl c).isClassLike)

/-- The class, interface or object that a declaration is a direct member of. -/
def enclosingType? (m : Model) (d : DeclId) : Option DeclId :=
  (m.decl d).container.filter (fun c => (m.decl c).isClassLike)

/-- Direct members of a declaration, in source order. -/
def members (m : Model) (d : DeclId) : List DeclId :=
  m.declIds.filter (fun x => (m.decl x).container == some d)

/-- The first direct member with a name. -/
def directMember? (m : Model) (d : DeclId) (name : String) : Option DeclId :=
  (m.members d).find? (fun x => (m.decl x).name == name)

/-- First bound of a type parameter. -/
def firstBound? (m : Model) (p : ParamId) : Option Ty := (m.param p).bounds.head?

/-! ## Types of declarations -/

/-- A declaration applied to its own type parameters. -/
def selfApplied (m : Model) (d : DeclId) (outer : Option Ty) : Ty :=
  .nominal d ((m.decl d).typeParams.map .param) outer none

/-- The innermost of nested declarations applied to its own type parameters and
qualified by the others. -/
def nestedType (m : Model) : List DeclId → Option Ty
  | [] => none
  | d :: around => some (m.selfApplied d (nestedType m around))

/-- The type of a value of the declaration seen from inside it. -/
def declaredType (m : Model) (d : DeclId) : Ty :=
  m.selfApplied d (m.nestedType (m.enclosingTypes d))

/-- Dotted name: package, containers from the outside in, then the declaration. -/
def qualifiedName (m : Model) (d : DeclId) : String :=
  let names := ((m.containers d).reverse ++ [d]).map (fun x => (m.decl x).name)
  let package := (m.decl d).package
  ".".intercalate (if package.isEmpty then names else package :: names)

end Model

/-- Types that hold the absent value as well. -/
def Ty.optional (t : Ty) : Ty := .union [Language.nothingTy, t]

/-- An iterator over elements of the type. -/
def Ty.iteratorOf (element : Ty) : Ty := .of Language.iterator [element]

/-- A function value's type. -/
def Ty.callable (result : Ty) (params : List Ty) : Ty := .of Language.callable (result :: params)

end TreeLowering
