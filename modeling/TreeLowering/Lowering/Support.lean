set_option autoImplicit false

/-!
# Lowering: the support library

The classes, methods and fixed names that lowered code refers to when it runs.  They belong
to one version of the library's binary interface.
-/

namespace TreeLowering.Support

/-- A version of the binary interface. -/
structure Abi where
  major : Nat
  minor : Nat
  deriving DecidableEq, Repr, Inhabited

/-- The version that these names belong to. -/
def abi : Abi := ⟨3, 0⟩

/-! ## Platform classes -/

def object : String := "java.lang.Object"
def platformString : String := "java.lang.String"
/-- Class of a catch-all clause. -/
def platformException : String := "java.lang.Exception"
/-- Root of everything that can be thrown. -/
def throwable : String := "java.lang.Throwable"

/-! ## Library classes -/

/-- Static predicates and array conversions. -/
def util : String := "vela.runtime.Util"
/-- Base class of function values. -/
def abstractCallable : String := "vela.runtime.AbstractCallable"
/-- Base class of a program's exceptions. -/
def baseException : String := "vela.language.Exception"
/-- Holder of the empty sequence. -/
def emptyHolder : String := "vela.language.empty_"
/-- Accessor of a holder's value. -/
def holderValue : String := "get_"

/-! ## Boxing -/

/-- Static factory of a boxed class. -/
def box : String := "instance"
def unboxInteger : String := "longValue"
def unboxFloat : String := "doubleValue"
def unboxString : String := "toString"
/-- Unboxes a character kept as a platform character. -/
def unboxChar : String := "charValue"
/-- Unboxes a character to its code point. -/
def unboxCodePoint : String := "intValue"
def unboxBoolean : String := "booleanValue"
def unboxArray : String := "toArray"
/-- Value equality of boxed values. -/
def equals : String := "equals"

/-! ## Iteration -/

def iterator : String := "iterator"
def head : String := "getHead"
def tail : String := "getTail"
def entryKey : String := "getKey"
def entryItem : String := "getElement"
def isEmpty : String := "getEmpty"
def size : String := "getSize"

/-! ## Predicates and array conversions -/

def isIdentifiable : String := "isIdentifiable"
def isIdentifiableObject : String := "isIdentifiableObject"
def toArray : String := "toArray"
def toLongArray : String := "toLongArray"
def toIntArray : String := "toIntArray"
def toShortArray : String := "toShortArray"
def toByteArray : String := "toByteArray"
def toDoubleArray : String := "toDoubleArray"
def toFloatArray : String := "toFloatArray"
def toCharArray : String := "toCharArray"
def toBooleanArray : String := "toBooleanArray"
def toPlatformStringArray : String := "toJavaStringArray"

/-! ## Function values -/

/-- The method that a function value implements. -/
def call : String := "call"
/-- The name of an argument of `call`. -/
def callArg (i : Nat) : String := "arg" ++ toString i
/-- Largest number of parameters with a method of its own. -/
def maxFixedArity : Nat := 3

/-! ## Fixed parts of synthetic names -/

def loopGuard : String := "doforelse"
def iteratorSuffix : String := "$iter"
def temporary : String := "tmp"
/-- Ends the name of an interface's companion class. -/
def companionSuffix : String := "$impl"
/-- Stands between an outer declaration and a member interface lifted out of it. -/
def liftedSeparator : String := "$"

end TreeLowering.Support
