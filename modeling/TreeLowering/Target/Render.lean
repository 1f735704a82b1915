import TreeLowering.Target.Fragment
import TreeLowering.Text.Quoted
import TreeLowering.Decimal.Shortest
set_option autoImplicit false

/-!
# Target: written code

Code is written with four spaces per level of nesting.  An operand is put in
parentheses when its outermost operator binds less tightly than its position
demands.
-/

namespace TreeLowering.Target

/-- Doubles have a point and a digit after it, and an exponent only from `1e16`
on and below `1e-4`. -/
def doubleLayout : Decimal.Layout := ⟨-4, 16⟩

namespace Literal

/-- The written form of a literal. -/
def text : Literal → String
  | null => "null"
  | bool true => "true"
  | bool false => "false"
  | int value => toString value
  | long value => toString value ++ "L"
  | double bits => (Decimal.Double.ofBits bits).write doubleLayout
  | char value => Text.quoteChar value
  | string value => Text.quote value

end Literal

namespace Modifiers

/-- The modifiers' keywords, each with a space after it. -/
def text (m : Modifiers) : String :=
  (if m.isPublic then "public " else "") ++ (if m.isPrivate then "private " else "")
    ++ (if m.isStatic then "static " else "") ++ (if m.isAbstract then "abstract " else "")
    ++ (if m.isFinal then "final " else "")

end Modifiers

namespace TypeParam

/-- A type parameter with its bounds. -/
def text (p : TypeParam) : String :=
  match p.bounds with
  | [] => p.name
  | bounds => p.name ++ " extends " ++ " & ".intercalate (Ty.textAll bounds)

end TypeParam

namespace Param

/-- A formal parameter; one for any number of arguments names the element type
of its array. -/
def text (p : Param) : String :=
  let ty :=
    if p.varargs then
      match p.ty with
      | .array element => element.text ++ "..."
      | other => other.text ++ "..."
    else p.ty.text
  (if p.isFinal then "final " else "") ++ ty ++ " " ++ p.name

end Param

/-- White space at the start of a line. -/
def indent : Nat → String
  | 0 => ""
  | depth + 1 => "    " ++ indent depth

/-- Type arguments in angle brackets, if there are any. -/
def typeArgsText (args : List Ty) : String :=
  if args.isEmpty then "" else "<" ++ ", ".intercalate (Ty.textAll args) ++ ">"

/-- Puts an operand into parentheses when it binds less tightly than demanded. -/
def operand (binds demanded : Nat) (text : String) : String :=
  if binds < demanded then "(" ++ text ++ ")" else text

mutual

/-- The written form of an expression. -/
def Expr.textAt (depth : Nat) : Expr → String
  | .ident name => name
  | .lit value => value.text
  | .typeRef ty => ty.text
  | .classLit ty => ty.text ++ ".class"
  | .select target name => operand target.precedence 15 (target.textAt depth) ++ "." ++ name
  | .call target typeArgs method args =>
    receiverText depth target ++ typeArgsText typeArgs ++ method
      ++ "(" ++ ", ".intercalate (exprTexts depth args) ++ ")"
  | .create cls args body =>
    "new " ++ cls.text ++ "(" ++ ", ".intercalate (exprTexts depth args) ++ ")"
      ++ classBodyText depth body
  | .createArray element size => "new " ++ element.text ++ "[" ++ size.textAt depth ++ "]"
  | .cast ty value => "(" ++ ty.text ++ ") " ++ operand value.precedence 13 (value.textAt depth)
  | .instanceOf value ty =>
    operand value.precedence 9 (value.textAt depth) ++ " instanceof " ++ ty.text
  | .binary op lhs rhs =>
    operand lhs.precedence op.precedence (lhs.textAt depth) ++ " " ++ op.symbol ++ " "
      ++ operand rhs.precedence (op.precedence + 1) (rhs.textAt depth)
  | .not e => "!" ++ operand e.precedence 13 (e.textAt depth)
  | .assign target value =>
    operand target.precedence 2 (target.textAt depth) ++ " = "
      ++ operand value.precedence 1 (value.textAt depth)
  | .index array position =>
    operand array.precedence 15 (array.textAt depth) ++ "[" ++ position.textAt depth ++ "]"
  | .cond test yes no =>
    operand test.precedence 3 (test.textAt depth) ++ " ? "
      ++ operand yes.precedence 3 (yes.textAt depth) ++ " : "
      ++ operand no.precedence 2 (no.textAt depth)
  | .letIn stmts value => "(let " ++ inlineText depth stmts ++ "in " ++ value.textAt depth ++ ")"

/-- The receiver of a call with the point after it. -/
def receiverText (depth : Nat) : Option Expr → String
  | none => ""
  | some target => operand target.precedence 15 (target.textAt depth) ++ "."

/-- The written forms of several expressions. -/
def exprTexts (depth : Nat) : List Expr → List String
  | [] => []
  | e :: es => e.textAt depth :: exprTexts depth es

/-- The body of an anonymous class. -/
def classBodyText (depth : Nat) : Option (List Method) → String
  | none => ""
  | some methods => " \x7b\n" ++ methodLines (depth + 1) methods ++ indent depth ++ "\x7d"

/-- Methods on lines of their own. -/
def methodLines (depth : Nat) : List Method → String
  | [] => ""
  | m :: ms => indent depth ++ m.textAt depth ++ "\n" ++ methodLines depth ms

/-- Statements one after the other on one line, each with a space after it. -/
def inlineText (depth : Nat) : List Stmt → String
  | [] => ""
  | s :: ss => s.textAt depth ++ " " ++ inlineText depth ss

/-- Statements on lines of their own. -/
def stmtLines (depth : Nat) : List Stmt → String
  | [] => ""
  | s :: ss => indent depth ++ s.textAt depth ++ "\n" ++ stmtLines depth ss

/-- The other branch of a conditional statement. -/
def elseText (depth : Nat) : Option (List Stmt) → String
  | none => ""
  | some body => " else \x7b\n" ++ stmtLines (depth + 1) body ++ indent depth ++ "\x7d"

/-- The value that a variable or a return starts from. -/
def valueText (depth : Nat) (lead : String) : Option Expr → String
  | none => ""
  | some e => lead ++ e.textAt depth

/-- The written form of a variable declaration. -/
def VarDecl.textAt (depth : Nat) : VarDecl → String
  | .mk isFinal name ty init =>
    (if isFinal then "final " else "") ++ ty.text ++ " " ++ name ++ valueText depth " = " init

/-- The written forms of several variable declarations. -/
def varTexts (depth : Nat) : List VarDecl → List String
  | [] => []
  | v :: vs => v.textAt depth :: varTexts depth vs

/-- The written form of a statement. -/
def Stmt.textAt (depth : Nat) : Stmt → String
  | .declare var => var.textAt depth ++ ";"
  | .exec e => e.textAt depth ++ ";"
  | .branch test yes no =>
    "if (" ++ test.textAt depth ++ ") \x7b\n" ++ stmtLines (depth + 1) yes ++ indent depth ++ "\x7d"
      ++ elseText depth no
  | .whileLoop test body =>
    "while (" ++ test.textAt depth ++ ") \x7b\n" ++ stmtLines (depth + 1) body
      ++ indent depth ++ "\x7d"
  | .forLoop init test step body =>
    "for (" ++ ", ".intercalate (varTexts depth init) ++ "; " ++ test.textAt depth ++ "; "
      ++ ", ".intercalate (exprTexts depth step) ++ ") \x7b\n" ++ stmtLines (depth + 1) body
      ++ indent depth ++ "\x7d"
  | .leave => "break;"
  | .ret value => "return" ++ valueText depth " " value ++ ";"
  | .block body => "\x7b\n" ++ stmtLines (depth + 1) body ++ indent depth ++ "\x7d"

/-- The written form of a method. -/
def Method.textAt (depth : Nat) : Method → String
  | .mk modifiers typeParams result name params body =>
    modifiers.text
      ++ (if typeParams.isEmpty then ""
          else "<" ++ ", ".intercalate (typeParams.map TypeParam.text) ++ "> ")
      ++ result.text ++ " " ++ name ++ "(" ++ ", ".intercalate (params.map Param.text) ++ ")"
      ++ methodBodyText depth body

/-- The body of a method, or the semicolon in place of one. -/
def methodBodyText (depth : Nat) : Option (List Stmt) → String
  | none => ";"
  | some body => " \x7b\n" ++ stmtLines (depth + 1) body ++ indent depth ++ "\x7d"

end

/-- The written form of an expression. -/
def Expr.text (e : Expr) : String := e.textAt 0

/-- The written form of a method. -/
def Method.text (m : Method) : String := m.textAt 0

/-- Statements on lines of their own, without a line end after the last one. -/
def stmtsText (stmts : List Stmt) : String :=
  String.ofList ((stmtLines 0 stmts).toList.reverse.dropWhile (· == '\n')).reverse

end TreeLowering.Target
