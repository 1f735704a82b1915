import TreeLowering.Source.Interner
import TreeLowering.Target.Reach
set_option autoImplicit false

/-!
# Shared tables: the lowered code

The code that is lowered to, with names for texts.  The interner that the names
come from gives the code to print.
-/

namespace TreeLowering.Shared.Target

open TreeLowering.Target (Primitive BinaryOp Modifiers)

/-- A type expression. -/
inductive Ty where
  | primitive (p : Primitive)
  | cls (name : Name)
  | member (outer : Ty) (name : Name)
  | apply (base : Ty) (args : List Ty)
  | anyType
  | subtypeOf (bound : Ty)
  | supertypeOf (bound : Ty)
  | var (name : Name)
  | array (element : Ty)
  /-- The placeholder for a type without representation. -/
  | erroneous
  deriving Repr, Inhabited

namespace Ty

mutual

/-- Equality of type expressions as a test. -/
def same : Ty → Ty → Bool
  | primitive p, primitive p' => decide (p = p')
  | cls n, cls n' => decide (n = n')
  | member o n, member o' n' => same o o' && decide (n = n')
  | apply b as, apply b' as' => same b b' && sameAll as as'
  | anyType, anyType => true
  | subtypeOf b, subtypeOf b' => same b b'
  | supertypeOf b, supertypeOf b' => same b b'
  | var n, var n' => decide (n = n')
  | array e, array e' => same e e'
  | erroneous, erroneous => true
  | _, _ => false

/-- Equality of argument lists as a test. -/
def sameAll : List Ty → List Ty → Bool
  | [], [] => true
  | t :: ts, t' :: ts' => same t t' && sameAll ts ts'
  | _, _ => false

end

/-- A generic type with its arguments; without arguments, the base alone. -/
def applied (base : Ty) (args : List Ty) : Ty := if args.isEmpty then base else apply base args

mutual

/-- The type expression with the texts of its names. -/
def read (t : Interner) : Ty → TreeLowering.Target.Ty
  | primitive p => .primitive p
  | cls n => .cls (t.lookup n)
  | member o n => .member (read t o) (t.lookup n)
  | apply b as => .apply (read t b) (readAll t as)
  | anyType => .anyType
  | subtypeOf b => .subtypeOf (read t b)
  | supertypeOf b => .supertypeOf (read t b)
  | var n => .var (t.lookup n)
  | array e => .array (read t e)
  | erroneous => .erroneous

/-- Several type expressions with the texts of their names. -/
def readAll (t : Interner) : List Ty → List TreeLowering.Target.Ty
  | [] => []
  | u :: us => read t u :: readAll t us

end

end Ty

/-- A literal.  A double is kept as its bits. -/
inductive Literal where
  | null
  | bool (value : Bool)
  | int (value : Int)
  | long (value : Int)
  | double (bits : UInt64)
  | char (value : Char)
  | string (value : Name)
  deriving DecidableEq, Repr, Inhabited

/-- The literal with the text of its name. -/
def Literal.read (t : Interner) : Literal → TreeLowering.Target.Literal
  | null => .null
  | bool b => .bool b
  | int i => .int i
  | long i => .long i
  | double bits => .double bits
  | char c => .char c
  | string n => .string (t.lookup n)

/-- A formal parameter of a method. -/
structure Param where
  isFinal : Bool
  /-- It takes any number of arguments. -/
  varargs : Bool
  name : Name
  ty : Ty
  deriving Repr, Inhabited

/-- The parameter with the texts of its names. -/
def Param.read (t : Interner) (p : Param) : TreeLowering.Target.Param :=
  ⟨p.isFinal, p.varargs, t.lookup p.name, p.ty.read t⟩

/-- A type parameter of a method. -/
structure TypeParam where
  name : Name
  bounds : List Ty
  deriving Repr, Inhabited

/-- The type parameter with the texts of its names. -/
def TypeParam.read (t : Interner) (p : TypeParam) : TreeLowering.Target.TypeParam :=
  ⟨t.lookup p.name, p.bounds.map (Ty.read t)⟩

mutual

/-- An expression. -/
inductive Expr where
  | ident (name : Name)
  | lit (value : Literal)
  /-- A type as the receiver of a static call. -/
  | typeRef (ty : Ty)
  | classLit (ty : Ty)
  | select (target : Expr) (name : Name)
  /-- A call with explicit type arguments; unqualified without a target. -/
  | call (target : Option Expr) (typeArgs : List Ty) (method : Name) (args : List Expr)
  /-- An object creation, with the body of an anonymous class if it has one. -/
  | create (cls : Ty) (args : List Expr) (body : Option (List Method))
  | createArray (element : Ty) (size : Expr)
  | cast (ty : Ty) (value : Expr)
  | instanceOf (value : Expr) (ty : Ty)
  | binary (op : BinaryOp) (lhs rhs : Expr)
  | not (operand : Expr)
  | assign (target value : Expr)
  | index (array position : Expr)
  | cond (test yes no : Expr)
  /-- Statements run for effect before a value. -/
  | letIn (stmts : List Stmt) (value : Expr)

/-- A statement. -/
inductive Stmt where
  | declare (var : VarDecl)
  | exec (e : Expr)
  | branch (test : Expr) (yes : List Stmt) (no : Option (List Stmt))
  | whileLoop (test : Expr) (body : List Stmt)
  | forLoop (init : List VarDecl) (test : Expr) (step : List Expr) (body : List Stmt)
  | leave
  | ret (value : Option Expr)
  | block (body : List Stmt)

/-- A variable declaration. -/
inductive VarDecl where
  | mk (isFinal : Bool) (name : Name) (ty : Ty) (init : Option Expr)

/-- A method; an abstract one has no body. -/
inductive Method where
  | mk (modifiers : Modifiers) (typeParams : List TypeParam) (result : Ty) (name : Name)
      (params : List Param) (body : Option (List Stmt))

end

instance : Inhabited Expr := ⟨.lit .null⟩
instance : Inhabited Stmt := ⟨.leave⟩
instance : Inhabited VarDecl := ⟨.mk false .empty .erroneous none⟩
instance : Inhabited Method := ⟨.mk {} [] .erroneous .empty [] none⟩

/-! ## The code to print -/

mutual

/-- An expression with the texts of its names. -/
def Expr.read (t : Interner) : Expr → TreeLowering.Target.Expr
  | .ident n => .ident (t.lookup n)
  | .lit l => .lit (l.read t)
  | .typeRef u => .typeRef (u.read t)
  | .classLit u => .classLit (u.read t)
  | .select e n => .select (Expr.read t e) (t.lookup n)
  | .call e us n es =>
    .call (Expr.readAny t e) (us.map (Ty.read t)) (t.lookup n) (Expr.readAll t es)
  | .create u es ms => .create (u.read t) (Expr.readAll t es) (Method.readAny t ms)
  | .createArray u e => .createArray (u.read t) (Expr.read t e)
  | .cast u e => .cast (u.read t) (Expr.read t e)
  | .instanceOf e u => .instanceOf (Expr.read t e) (u.read t)
  | .binary op l r => .binary op (Expr.read t l) (Expr.read t r)
  | .not e => .not (Expr.read t e)
  | .assign l r => .assign (Expr.read t l) (Expr.read t r)
  | .index a i => .index (Expr.read t a) (Expr.read t i)
  | .cond c y n => .cond (Expr.read t c) (Expr.read t y) (Expr.read t n)
  | .letIn ss e => .letIn (Stmt.readAll t ss) (Expr.read t e)

/-- Several expressions with the texts of their names. -/
def Expr.readAll (t : Interner) : List Expr → List TreeLowering.Target.Expr
  | [] => []
  | e :: es => Expr.read t e :: Expr.readAll t es

/-- An expression, if there is one, with the texts of its names. -/
def Expr.readAny (t : Interner) : Option Expr → Option TreeLowering.Target.Expr
  | none => none
  | some e => some (Expr.read t e)

/-- A statement with the texts of its names. -/
def Stmt.read (t : Interner) : Stmt → TreeLowering.Target.Stmt
  | .declare v => .declare (VarDecl.read t v)
  | .exec e => .exec (Expr.read t e)
  | .branch c y n => .branch (Expr.read t c) (Stmt.readAll t y) (Stmt.readAny t n)
  | .whileLoop c b => .whileLoop (Expr.read t c) (Stmt.readAll t b)
  | .forLoop i c s b =>
    .forLoop (VarDecl.readAll t i) (Expr.read t c) (Expr.readAll t s) (Stmt.readAll t b)
  | .leave => .leave
  | .ret e => .ret (Expr.readAny t e)
  | .block b => .block (Stmt.readAll t b)

/-- Several statements with the texts of their names. -/
def Stmt.readAll (t : Interner) : List Stmt → List TreeLowering.Target.Stmt
  | [] => []
  | s :: ss => Stmt.read t s :: Stmt.readAll t ss

/-- Statements, if there are any, with the texts of their names. -/
def Stmt.readAny (t : Interner) : Option (List Stmt) → Option (List TreeLowering.Target.Stmt)
  | none => none
  | some ss => some (Stmt.readAll t ss)

/-- A variable declaration with the texts of its names. -/
def VarDecl.read (t : Interner) : VarDecl → TreeLowering.Target.VarDecl
  | .mk f n u e => .mk f (t.lookup n) (u.read t) (Expr.readAny t e)

/-- Several variable declarations with the texts of their names. -/
def VarDecl.readAll (t : Interner) : List VarDecl → List TreeLowering.Target.VarDecl
  | [] => []
  | v :: vs => VarDecl.read t v :: VarDecl.readAll t vs

/-- A method with the texts of its names. -/
def Method.read (t : Interner) : Method → TreeLowering.Target.Method
  | .mk m qs u n ps b =>
    .mk m (qs.map (TypeParam.read t)) (u.read t) (t.lookup n) (ps.map (Param.read t))
      (Stmt.readAny t b)

/-- Several methods with the texts of their names. -/
def Method.readAll (t : Interner) : List Method → List TreeLowering.Target.Method
  | [] => []
  | m :: ms => Method.read t m :: Method.readAll t ms

/-- Methods, if there are any, with the texts of their names. -/
def Method.readAny (t : Interner) :
    Option (List Method) → Option (List TreeLowering.Target.Method)
  | none => none
  | some ms => some (Method.readAll t ms)

end

/-! ## Building and taking apart -/

namespace Stmt

/-- Declares a final variable. -/
def declareFinal (name : Name) (ty : Ty) (init : Expr) : Stmt :=
  .declare (.mk true name ty (some init))

end Stmt

namespace Expr

def null : Expr := .lit .null

def bool (b : Bool) : Expr := .lit (.bool b)

/-- A call on a target, without type arguments. -/
def callOn (target : Expr) (method : Name) (args : List Expr) : Expr :=
  .call (some target) [] method args

/-- An unqualified call. -/
def callLocal (method : Name) (args : List Expr) : Expr := .call none [] method args

/-- A static call on a class. -/
def callStatic (cls : Ty) (typeArgs : List Ty) (method : Name) (args : List Expr) : Expr :=
  .call (some (.typeRef cls)) typeArgs method args

/-- The expression is a string literal. -/
def isStringLiteral : Expr → Bool
  | .lit (.string _) => true
  | _ => false

/-- The expression is the literal `true`. -/
def isTrue : Expr → Bool
  | .lit (.bool true) => true
  | _ => false

end Expr

namespace Stmt

mutual

/-- A break in the statement leaves the loop directly around it. -/
def breaksOut : Stmt → Bool
  | leave => true
  | branch _ yes no => anyBreaksOut yes || elseBreaksOut no
  | block body => anyBreaksOut body
  | _ => false

/-- A break in one of the statements leaves the loop directly around them. -/
def anyBreaksOut : List Stmt → Bool
  | [] => false
  | s :: ss => breaksOut s || anyBreaksOut ss

/-- A break in the other branch leaves the loop directly around it. -/
def elseBreaksOut : Option (List Stmt) → Bool
  | none => false
  | some ss => anyBreaksOut ss

end

mutual

/-- Control can pass to what follows the statement. -/
def completes : Stmt → Bool
  | declare _ | exec _ => true
  | leave | ret _ => false
  | branch _ yes no => allComplete yes || elseCompletes no
  | whileLoop test body => !test.isTrue || anyBreaksOut body
  | forLoop _ test _ body => !test.isTrue || anyBreaksOut body
  | block body => allComplete body

/-- Control can pass through all the statements. -/
def allComplete : List Stmt → Bool
  | [] => true
  | s :: ss => completes s && allComplete ss

/-- Control can pass through the other branch; a missing one is empty. -/
def elseCompletes : Option (List Stmt) → Bool
  | none => true
  | some ss => allComplete ss

end

end Stmt

end TreeLowering.Shared.Target
