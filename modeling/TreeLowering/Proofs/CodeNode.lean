import TreeLowering.Target.Fragment
set_option autoImplicit false

/-!
# Proofs: the nodes of code

Every expression and every declaration of a variable that stands somewhere in
code, in the order in which they are written down.  What code binds, and the
classes that it needs at run time, are read off its nodes: a test and an array
are made for a class itself, whatever the arguments of a type are, and so is a
class literal.
-/

namespace TreeLowering.Target

/-- An expression or a declaration inside code. -/
inductive Node where
  | expr (e : Expr)
  | var (d : VarDecl)

mutual

/-- The nodes of an expression, the expression itself first. -/
@[simp]
def Expr.nodes : Expr → List Node
  | .ident x => [.expr (.ident x)]
  | .lit l => [.expr (.lit l)]
  | .typeRef ty => [.expr (.typeRef ty)]
  | .classLit ty => [.expr (.classLit ty)]
  | .select e name => .expr (.select e name) :: e.nodes
  | .call target typeArgs method args =>
    .expr (.call target typeArgs method args) :: (valueNodes target ++ exprsNodes args)
  | .create cls args body => .expr (.create cls args body) :: (exprsNodes args ++ classNodes body)
  | .createArray ty size => .expr (.createArray ty size) :: size.nodes
  | .cast ty e => .expr (.cast ty e) :: e.nodes
  | .instanceOf e ty => .expr (.instanceOf e ty) :: e.nodes
  | .binary op lhs rhs => .expr (.binary op lhs rhs) :: (lhs.nodes ++ rhs.nodes)
  | .not e => .expr (.not e) :: e.nodes
  | .assign target value => .expr (.assign target value) :: (target.nodes ++ value.nodes)
  | .index array position => .expr (.index array position) :: (array.nodes ++ position.nodes)
  | .cond test yes no => .expr (.cond test yes no) :: (test.nodes ++ yes.nodes ++ no.nodes)
  | .letIn stmts value => .expr (.letIn stmts value) :: (stmtsNodes stmts ++ value.nodes)

/-- The nodes of an expression, if there is one. -/
@[simp]
def valueNodes : Option Expr → List Node
  | none => []
  | some e => e.nodes

/-- The nodes of expressions. -/
@[simp]
def exprsNodes : List Expr → List Node
  | [] => []
  | e :: es => e.nodes ++ exprsNodes es

/-- The nodes of an anonymous class. -/
@[simp]
def classNodes : Option (List Method) → List Node
  | none => []
  | some methods => methodsNodes methods

/-- The nodes of methods. -/
@[simp]
def methodsNodes : List Method → List Node
  | [] => []
  | m :: ms => m.nodes ++ methodsNodes ms

/-- The nodes of a method. -/
@[simp]
def Method.nodes : Method → List Node
  | .mk _ _ _ _ _ body => bodyNodes body

/-- The nodes of statements, if there are any. -/
@[simp]
def bodyNodes : Option (List Stmt) → List Node
  | none => []
  | some body => stmtsNodes body

/-- The nodes of a declaration, the declaration itself first. -/
@[simp]
def VarDecl.nodes : VarDecl → List Node
  | .mk isFinal name ty init => .var (.mk isFinal name ty init) :: valueNodes init

/-- The nodes of declarations. -/
@[simp]
def varsNodes : List VarDecl → List Node
  | [] => []
  | d :: ds => d.nodes ++ varsNodes ds

/-- The nodes of a statement. -/
@[simp]
def Stmt.nodes : Stmt → List Node
  | .declare var => var.nodes
  | .exec e => e.nodes
  | .branch test yes no => test.nodes ++ stmtsNodes yes ++ bodyNodes no
  | .whileLoop test body => test.nodes ++ stmtsNodes body
  | .forLoop init test step body =>
    varsNodes init ++ test.nodes ++ exprsNodes step ++ stmtsNodes body
  | .leave => []
  | .ret value => valueNodes value
  | .block body => stmtsNodes body

/-- The nodes of statements. -/
@[simp]
def stmtsNodes : List Stmt → List Node
  | [] => []
  | s :: ss => s.nodes ++ stmtsNodes ss

end

/-! ## What is read off the nodes -/

/-- The name that a node declares. -/
def Node.bound : Node → List String
  | .var (.mk _ name _ _) => [name]
  | .expr _ => []

/-- The class that a node tests a value against. -/
def Node.tested : Node → List Ty
  | .expr (.instanceOf _ ty) => [ty]
  | _ => []

/-- The class of a class literal, or of the elements of an array that the node
creates. -/
def Node.created : Node → List Ty
  | .expr (.classLit ty) | .expr (.createArray ty _) => [ty]
  | _ => []

namespace Expr

/-- The names that an expression declares, from the left to the right. -/
def binds (e : Expr) : List String := e.nodes.flatMap Node.bound

/-- The classes that an expression tests values against. -/
def testedClasses (e : Expr) : List Ty := e.nodes.flatMap Node.tested

/-- The classes of the class literals and of the elements of created arrays in
an expression. -/
def elementClasses (e : Expr) : List Ty := e.nodes.flatMap Node.created

end Expr

end TreeLowering.Target
