import TreeLowering.Source.Span
import TreeLowering.Types.Basic
set_option autoImplicit false

/-!
# Tree: typed trees

The statements and expressions that are lowered, with every name resolved and
every expression's type known.
-/

namespace TreeLowering.Tree

/-- What is known of every expression. -/
structure Info where
  ty : Ty
  /-- The value is in raw form. -/
  raw : Bool
  span : Span
  deriving DecidableEq, Repr, Inhabited

/-- A binary operator. -/
inductive Operator where
  | add
  | sub
  | mul
  | eq
  | ne
  | lt
  | gt
  | and
  | or
  deriving DecidableEq, Repr, Inhabited

namespace Operator

/-- The operator's symbol. -/
def symbol : Operator → String
  | add => "+"
  | sub => "-"
  | mul => "*"
  | eq => "=="
  | ne => "!="
  | lt => "<"
  | gt => ">"
  | and => "&&"
  | or => "||"

/-- Every operator. -/
def all : List Operator := [add, sub, mul, eq, ne, lt, gt, and, or]

end Operator

/-- An expression. -/
inductive Expr where
  /-- A local value or a parameter. -/
  | ident (info : Info) (name : String)
  | integer (info : Info) (value : Int)
  /-- A double by its bits. -/
  | float (info : Info) (bits : UInt64)
  | string (info : Info) (value : String)
  | character (info : Info) (value : Char)
  | boolean (info : Info) (value : Bool)
  /-- The absent value. -/
  | absent (info : Info)
  /-- An attribute of a value. -/
  | member (info : Info) (receiver : Expr) (name : String)
  /-- A call of a declared function, with arguments for its first list. -/
  | call (info : Info) (receiver : Option Expr) (function : DeclId) (args : List Expr)
  | binary (info : Info) (op : Operator) (lhs rhs : Expr)
  | not (info : Info) (operand : Expr)
  /-- A sequence literal; its type is the sequence's. -/
  | sequence (info : Info) (elems : List Expr)
  /-- A function as a value. -/
  | functionRef (info : Info) (function : DeclId)
  deriving Repr, Inhabited

namespace Expr

/-- What is known of the expression. -/
def info : Expr → Info
  | ident i _ | integer i _ | float i _ | string i _ | character i _ | boolean i _ | absent i
  | member i _ _ | call i _ _ _ | binary i _ _ _ | not i _ | sequence i _ | functionRef i _ => i

/-- Type of the expression. -/
def ty (e : Expr) : Ty := e.info.ty

end Expr

/-- A name bound by a condition or a loop. -/
structure Variable where
  name : String
  ty : Ty
  deriving DecidableEq, Repr, Inhabited

/-- The condition of a branch or a loop. -/
inductive Condition where
  | test (e : Expr)
  /-- The value is not absent. -/
  | present (e : Expr)
  /-- The value is not absent, and is bound to a name. -/
  | presentAs (var : Variable) (e : Expr)
  /-- The value has the type, and is bound to the name at that type. -/
  | isOf (name : String) (ty : Ty) (e : Expr)
  /-- The value is a sequence with an element, and is bound to a name. -/
  | nonempty (var : Variable) (e : Expr)
  deriving Repr, Inhabited

/-- What a loop binds on each round. -/
inductive LoopBinding where
  | value (var : Variable)
  /-- Key and item of an entry. -/
  | keyItem (key item : Variable)
  deriving DecidableEq, Repr, Inhabited

namespace LoopBinding

/-- The first variable bound. -/
def first : LoopBinding → Variable
  | value var => var
  | keyItem key _ => key

end LoopBinding

/-- A statement. -/
inductive Stmt where
  /-- A local value. -/
  | declare (span : Span) (var : Variable) (init : Option Expr) (isVariable : Bool)
  | assign (span : Span) (target : String) (value : Expr)
  | eval (span : Span) (e : Expr)
  | ret (span : Span) (value : Option Expr)
  | leave (span : Span)
  | branch (span : Span) (test : Condition) (yes : List Stmt) (no : Option (List Stmt))
  | loop (span : Span) (test : Condition) (body : List Stmt)
  /-- A loop over something iterable; the other branch runs when it was not
  left. -/
  | each (span : Span) (binding : LoopBinding) (subject : Expr) (body : List Stmt)
      (no : Option (List Stmt))
  | block (span : Span) (body : List Stmt)
  deriving Repr, Inhabited

namespace Stmt

/-- Where the statement stands. -/
def span : Stmt → Span
  | declare s _ _ _ | assign s _ _ | eval s _ | ret s _ | leave s | branch s _ _ _ | loop s _ _
  | each s _ _ _ _ | block s _ => s

end Stmt

/-- A function with its body. -/
structure Function where
  decl : DeclId
  body : List Stmt
  /-- Where the body stands. -/
  span : Span
  deriving Repr, Inhabited

end TreeLowering.Tree
