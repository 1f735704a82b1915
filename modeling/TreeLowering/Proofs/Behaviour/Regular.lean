import TreeLowering.Model.Language
import TreeLowering.Proofs.SyntheticName
import TreeLowering.Tree.Basic
set_option autoImplicit false

/-!
# Behaviour: regular trees

A tree is regular when it is written in plain names and has no raw expression of
the type of everything, for which there is no boxed form.  A block is
well scoped when no variable is declared under a name that is narrowed at that point; in
particular, when nothing in scope is ever declared again.
-/

namespace TreeLowering.Tree

namespace Expr

/-- The expression itself, whatever is inside it, is written in a plain name
and is not raw at the type of everything. -/
def isRegular : Expr → Bool
  | ident info x => decide (Plain x) && !(info.raw && info.ty = Language.voidTy)
  | integer info _ | float info _ | string info _ | character info _ | boolean info _
  | binary info _ _ _ | not info _ => info.ty ≠ Language.voidTy
  | absent _ | member _ _ _ | call _ _ _ _ | sequence _ _ | functionRef _ _ => true

mutual

/-- Every expression inside is regular, and so is the expression itself. -/
def regular : Expr → Bool
  | ident info x => isRegular (ident info x)
  | integer info n => isRegular (integer info n)
  | float info bits => isRegular (float info bits)
  | string info s => isRegular (string info s)
  | character info c => isRegular (character info c)
  | boolean info b => isRegular (boolean info b)
  | absent _ => true
  | member _ receiver _ => regular receiver
  | call _ receiver _ args => regularReceiver receiver && regularAll args
  | binary info op lhs rhs => isRegular (binary info op lhs rhs) && regular lhs && regular rhs
  | not info e => isRegular (not info e) && regular e
  | sequence _ elems => regularAll elems
  | functionRef _ _ => true

/-- Every expression of a list is regular. -/
def regularAll : List Expr → Bool
  | [] => true
  | e :: es => regular e && regularAll es

/-- The receiver of a call, if it has one, is regular. -/
def regularReceiver : Option Expr → Bool
  | none => true
  | some e => regular e

end

end Expr

namespace Condition

/-- The condition is regular, and binds a plain name if it binds one. -/
def regular : Condition → Bool
  | test e | present e => e.regular
  | presentAs var e | nonempty var e => decide (Plain var.name) && e.regular
  | isOf name _ e => decide (Plain name) && e.regular

/-- The names that stand for something else in the guarded block. -/
def narrows : Condition → List String
  | test _ | present _ => []
  | presentAs var _ | nonempty var _ => [var.name]
  | isOf name _ _ => [name]

end Condition

namespace LoopBinding

/-- The names that a loop binds. -/
def names : LoopBinding → List String
  | value var => [var.name]
  | keyItem key item => [key.name, item.name]

end LoopBinding

namespace Stmt

mutual

/-- The statement is regular. -/
def regular : Stmt → Bool
  | declare _ var init _ => decide (Plain var.name) && Expr.regularReceiver init
  | assign _ target e => decide (Plain target) && e.regular
  | eval _ e => e.regular
  | ret _ e => Expr.regularReceiver e
  | leave _ => true
  | branch _ test yes no => test.regular && regularAll yes && regularElse no
  | loop _ test body => test.regular && regularAll body
  | each _ binding subject body no =>
    binding.names.all (fun x => decide (Plain x)) && subject.regular && regularAll body
      && regularElse no
  | block _ body => regularAll body

/-- Every statement of a block is regular. -/
def regularAll : List Stmt → Bool
  | [] => true
  | s :: ss => regular s && regularAll ss

/-- The statements of another branch are regular. -/
def regularElse : Option (List Stmt) → Bool
  | none => true
  | some body => regularAll body

end

mutual

/-- No variable is declared under a name that is narrowed at that point. -/
def wellScoped (narrowed : List String) : Stmt → Bool
  | declare _ var _ _ => !narrowed.contains var.name
  | assign _ _ _ | eval _ _ | ret _ _ | leave _ => true
  | branch _ test yes no => wellScopedAll (test.narrows ++ narrowed) yes && wellScopedElse narrowed no
  | loop _ test body => wellScopedAll (test.narrows ++ narrowed) body
  | each _ binding _ body no =>
    binding.names.all (fun x => !narrowed.contains x) && wellScopedAll narrowed body
      && wellScopedElse narrowed no
  | block _ body => wellScopedAll narrowed body

/-- The statements of a block are well scoped. -/
def wellScopedAll (narrowed : List String) : List Stmt → Bool
  | [] => true
  | s :: ss => wellScoped narrowed s && wellScopedAll narrowed ss

/-- The statements of another branch are well scoped. -/
def wellScopedElse (narrowed : List String) : Option (List Stmt) → Bool
  | none => true
  | some body => wellScopedAll narrowed body

end

end Stmt

end TreeLowering.Tree
