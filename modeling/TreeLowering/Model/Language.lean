import TreeLowering.Model.Declaration
set_option autoImplicit false

/-!
# Model: the language module

The declarations that every program can use without declaring them.  They come
first in every model, so their numbers are fixed.
-/

namespace TreeLowering.Language

/-- Package of the language module. -/
def package : String := "vela.language"

/-! ## Declarations -/

def void : DeclId := ⟨0⟩
def object : DeclId := ⟨1⟩
def nothing : DeclId := ⟨2⟩
def identifiable : DeclId := ⟨3⟩
def identifiableObject : DeclId := ⟨4⟩
def exception : DeclId := ⟨5⟩
def boolean : DeclId := ⟨6⟩
def trueObject : DeclId := ⟨7⟩
def falseObject : DeclId := ⟨8⟩
def string : DeclId := ⟨9⟩
def integer : DeclId := ⟨10⟩
def float : DeclId := ⟨11⟩
def character : DeclId := ⟨12⟩
def iterable : DeclId := ⟨13⟩
def iterator : DeclId := ⟨14⟩
def fixedSized : DeclId := ⟨15⟩
def sequence : DeclId := ⟨16⟩
def empty : DeclId := ⟨17⟩
def entry : DeclId := ⟨18⟩
def callable : DeclId := ⟨19⟩
def array : DeclId := ⟨20⟩
def arraySequence : DeclId := ⟨21⟩

/-! ## Type parameters -/

def iterableElement : ParamId := ⟨0⟩
def iteratorElement : ParamId := ⟨1⟩
def fixedSizedElement : ParamId := ⟨2⟩
def sequenceElement : ParamId := ⟨3⟩
def entryKey : ParamId := ⟨4⟩
def entryItem : ParamId := ⟨5⟩
def callableReturn : ParamId := ⟨6⟩
/-- Stands for any number of argument types. -/
def callableArguments : ParamId := ⟨7⟩
def arrayElement : ParamId := ⟨8⟩
def arraySequenceElement : ParamId := ⟨9⟩

/-! ## Types without arguments -/

/-- The type that everything has, the absent value included. -/
def voidTy : Ty := .of void []
/-- The type of everything but the absent value. -/
def objectTy : Ty := .of object []
/-- The type of the absent value. -/
def nothingTy : Ty := .of nothing []
def identifiableTy : Ty := .of identifiable []
def identifiableObjectTy : Ty := .of identifiableObject []
def exceptionTy : Ty := .of exception []
def booleanTy : Ty := .of boolean []
def stringTy : Ty := .of string []
def integerTy : Ty := .of integer []
def floatTy : Ty := .of float []
def characterTy : Ty := .of character []

/-! ## The declarations themselves -/

/-- A shared class of the language module. -/
def sharedClass (name : String) (extended : Option Ty) : Declaration :=
  { Declaration.bare name .cls package none with
    extended := extended, flags := { isShared := true } }

/-- A shared abstract class of the language module. -/
def abstractClass (name : String) (extended : Option Ty) : Declaration :=
  { Declaration.bare name .cls package none with
    extended := extended, flags := { isShared := true, isAbstract := true } }

/-- A shared interface of the language module. -/
def sharedInterface (name : String) (typeParams : List ParamId) (satisfied : List Ty) :
    Declaration :=
  { Declaration.bare name .iface package none with
    typeParams := typeParams, satisfied := satisfied, flags := { isShared := true } }

/-- A case of the Boolean type. -/
def booleanCase (name : String) : Declaration :=
  { Declaration.bare name .object package none with extended := some booleanTy }

/-- The declarations in the order of their numbers. -/
def decls : Array Declaration := #[
  abstractClass "Void" none,
  abstractClass "Object" (some voidTy),
  sharedClass "Nothing" (some voidTy),
  sharedInterface "Identifiable" [] [],
  { sharedClass "IdentifiableObject" (some objectTy) with satisfied := [identifiableTy] },
  sharedClass "Exception" (some identifiableObjectTy),
  abstractClass "Boolean" (some identifiableObjectTy),
  booleanCase "true",
  booleanCase "false",
  sharedClass "String" (some objectTy),
  sharedClass "Integer" (some objectTy),
  sharedClass "Float" (some objectTy),
  sharedClass "Character" (some objectTy),
  sharedInterface "Iterable" [iterableElement] [],
  sharedInterface "Iterator" [iteratorElement] [],
  sharedInterface "FixedSized" [fixedSizedElement] [.of iterable [.param fixedSizedElement]],
  sharedInterface "Sequence" [sequenceElement] [.of fixedSized [.param sequenceElement]],
  sharedInterface "Empty" [] [.of fixedSized [.bottom]],
  { sharedClass "Entry" (some objectTy) with typeParams := [entryKey, entryItem] },
  sharedInterface "Callable" [callableReturn, callableArguments] [],
  { sharedClass "Array" (some objectTy) with
    typeParams := [arrayElement], satisfied := [.of fixedSized [.param arrayElement]] },
  { sharedClass "ArraySequence" (some objectTy) with
    typeParams := [arraySequenceElement],
    satisfied := [.of sequence [.param arraySequenceElement]] }]

/-- A parameter of a declaration that takes one argument. -/
def single (name : String) (variance : Variance) (bounds : List Ty) (owner : DeclId) :
    TypeParam :=
  ⟨name, variance, bounds, owner, false⟩

/-- The type parameters in the order of their numbers. -/
def params : Array TypeParam := #[
  single "Element" .covariant [] iterable,
  single "Element" .covariant [] iterator,
  single "Element" .covariant [] fixedSized,
  single "Element" .covariant [] sequence,
  single "Key" .covariant [objectTy] entry,
  single "Item" .covariant [objectTy] entry,
  single "Return" .covariant [] callable,
  ⟨"Arguments", .contravariant, [], callable, true⟩,
  single "Element" .invariant [] array,
  single "Element" .covariant [] arraySequence]

end TreeLowering.Language
