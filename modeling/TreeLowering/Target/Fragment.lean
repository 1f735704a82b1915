import TreeLowering.Target.Ty
set_option autoImplicit false

/-!
# Target: code fragments

Expressions, statements and methods of the lowered code.  Expressions and
statements contain each other: an anonymous class has methods, and a
let-expression runs statements before it yields a value.
-/

namespace TreeLowering.Target

/-- A literal.  A double is kept as its bits. -/
inductive Literal where
  | null
  | bool (value : Bool)
  | int (value : Int)
  | long (value : Int)
  | double (bits : UInt64)
  | char (value : Char)
  | string (value : String)
  deriving DecidableEq, Repr, Inhabited

/-- A binary operator. -/
inductive BinaryOp where
  | add
  | sub
  | mul
  | eq
  | ne
  | lt
  | gt
  | and
  | or
  deriving DecidableEq, Repr, Inhabited

namespace BinaryOp

/-- The operator's symbol. -/
def symbol : BinaryOp → String
  | add => "+"
  | sub => "-"
  | mul => "*"
  | eq => "=="
  | ne => "!="
  | lt => "<"
  | gt => ">"
  | and => "&&"
  | or => "||"

/-- Binding strength; a larger number binds tighter. -/
def precedence : BinaryOp → Nat
  | or => 3
  | and => 4
  | eq | ne => 7
  | lt | gt => 8
  | add | sub => 10
  | mul => 11

/-- Every operator. -/
def all : List BinaryOp := [add, sub, mul, eq, ne, lt, gt, and, or]

end BinaryOp

/-- Modifiers of a method. -/
structure Modifiers where
  isPublic : Bool := false
  isPrivate : Bool := false
  isStatic : Bool := false
  isFinal : Bool := false
  isAbstract : Bool := false
  deriving DecidableEq, Repr, Inhabited

namespace Modifiers

/-- The modifiers that are set, as keywords. -/
def words (m : Modifiers) : List String :=
  [("public", m.isPublic), ("private", m.isPrivate), ("static", m.isStatic),
    ("final", m.isFinal), ("abstract", m.isAbstract)].filterMap
    fun (w, isSet) => if isSet then some w else none

/-- The modifiers that the keywords name. -/
def ofWords (ws : List String) : Modifiers where
  isPublic := ws.contains "public"
  isPrivate := ws.contains "private"
  isStatic := ws.contains "static"
  isFinal := ws.contains "final"
  isAbstract := ws.contains "abstract"

end Modifiers

/-- A formal parameter of a method. -/
structure Param where
  isFinal : Bool
  /-- It takes any number of arguments. -/
  varargs : Bool
  name : String
  ty : Ty
  deriving DecidableEq, Repr, Inhabited

/-- A type parameter of a method. -/
structure TypeParam where
  name : String
  bounds : List Ty
  deriving DecidableEq, Repr, Inhabited

mutual

/-- An expression. -/
inductive Expr where
  | ident (name : String)
  | lit (value : Literal)
  /-- A type as the receiver of a static call. -/
  | typeRef (ty : Ty)
  | classLit (ty : Ty)
  | select (target : Expr) (name : String)
  /-- A call with explicit type arguments; unqualified without a target. -/
  | call (target : Option Expr) (typeArgs : List Ty) (method : String) (args : List Expr)
  /-- An object creation, with the body of an anonymous class if it has one. -/
  | create (cls : Ty) (args : List Expr) (body : Option (List Method))
  | createArray (element : Ty) (size : Expr)
  | cast (ty : Ty) (value : Expr)
  | instanceOf (value : Expr) (ty : Ty)
  | binary (op : BinaryOp) (lhs rhs : Expr)
  | not (operand : Expr)
  | assign (target value : Expr)
  | index (array position : Expr)
  | cond (test yes no : Expr)
  /-- Statements run for effect before a value. -/
  | letIn (stmts : List Stmt) (value : Expr)

/-- A statement. -/
inductive Stmt where
  | declare (var : VarDecl)
  | exec (e : Expr)
  | branch (test : Expr) (yes : List Stmt) (no : Option (List Stmt))
  | whileLoop (test : Expr) (body : List Stmt)
  | forLoop (init : List VarDecl) (test : Expr) (step : List Expr) (body : List Stmt)
  | leave
  | ret (value : Option Expr)
  | block (body : List Stmt)

/-- A variable declaration. -/
inductive VarDecl where
  | mk (isFinal : Bool) (name : String) (ty : Ty) (init : Option Expr)

/-- A method; an abstract one has no body. -/
inductive Method where
  | mk (modifiers : Modifiers) (typeParams : List TypeParam) (result : Ty) (name : String)
      (params : List Param) (body : Option (List Stmt))

end

instance : Inhabited Expr := ⟨.lit .null⟩
instance : Inhabited Stmt := ⟨.leave⟩
instance : Inhabited VarDecl := ⟨.mk false "" .erroneous none⟩
instance : Inhabited Method := ⟨.mk {} [] .erroneous "" [] none⟩

namespace Method

/-- Body of a method, none when it is abstract. -/
def body? : Method → Option (List Stmt)
  | mk _ _ _ _ _ body => body

/-- Result type of a method. -/
def result : Method → Ty
  | mk _ _ result _ _ _ => result

end Method

namespace Stmt

/-- Declares a final variable. -/
def declareFinal (name : String) (ty : Ty) (init : Expr) : Stmt :=
  .declare (.mk true name ty (some init))

end Stmt

namespace Expr

def null : Expr := .lit .null

def bool (b : Bool) : Expr := .lit (.bool b)

/-- A call on a target, without type arguments. -/
def callOn (target : Expr) (method : String) (args : List Expr) : Expr :=
  .call (some target) [] method args

/-- An unqualified call. -/
def callLocal (method : String) (args : List Expr) : Expr := .call none [] method args

/-- A static call on a class. -/
def callStatic (cls : Ty) (typeArgs : List Ty) (method : String) (args : List Expr) : Expr :=
  .call (some (.typeRef cls)) typeArgs method args

/-- The expression is a string literal. -/
def isStringLiteral : Expr → Bool
  | .lit (.string _) => true
  | _ => false

/-- The expression is the literal `true`. -/
def isTrue : Expr → Bool
  | .lit (.bool true) => true
  | _ => false

/-- Binding strength of the outermost operator. -/
def precedence : Expr → Nat
  | assign .. => 1
  | cond .. => 2
  | binary op .. => op.precedence
  | instanceOf .. => 8
  | not _ | cast .. => 13
  | create .. | createArray .. => 14
  | select .. | call .. | index .. => 15
  | ident _ | lit _ | typeRef _ | classLit _ | letIn .. => 16

end Expr

end TreeLowering.Target
