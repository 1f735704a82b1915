import TreeLowering.Target.Fragment
set_option autoImplicit false

/-!
# Target: reachability

A statement completes normally when control can pass to what follows it.  The
target refuses a statement after one that does not; a loop on the literal
`true` completes only through a break of its own.
-/

namespace TreeLowering.Target

namespace Stmt

mutual

/-- A break in the statement leaves the loop directly around it. -/
def breaksOut : Stmt → Bool
  | leave => true
  | branch _ yes no => anyBreaksOut yes || elseBreaksOut no
  | block body => anyBreaksOut body
  | _ => false

/-- A break in one of the statements leaves the loop directly around them. -/
def anyBreaksOut : List Stmt → Bool
  | [] => false
  | s :: ss => breaksOut s || anyBreaksOut ss

/-- A break in the other branch leaves the loop directly around it. -/
def elseBreaksOut : Option (List Stmt) → Bool
  | none => false
  | some ss => anyBreaksOut ss

end

mutual

/-- Control can pass to what follows the statement. -/
def completes : Stmt → Bool
  | declare _ | exec _ => true
  | leave | ret _ => false
  | branch _ yes no => allComplete yes || elseCompletes no
  | whileLoop test body => !test.isTrue || anyBreaksOut body
  | forLoop _ test _ body => !test.isTrue || anyBreaksOut body
  | block body => allComplete body

/-- Control can pass through all the statements. -/
def allComplete : List Stmt → Bool
  | [] => true
  | s :: ss => completes s && allComplete ss

/-- Control can pass through the other branch; a missing one is empty. -/
def elseCompletes : Option (List Stmt) → Bool
  | none => true
  | some ss => allComplete ss

end

theorem allComplete_eq_all (ss : List Stmt) : allComplete ss = ss.all completes := by
  induction ss with
  | nil => rfl
  | cons s ss ih => simp [allComplete, ih]

theorem anyBreaksOut_eq_any (ss : List Stmt) : anyBreaksOut ss = ss.any breaksOut := by
  induction ss with
  | nil => rfl
  | cons s ss ih => simp [anyBreaksOut, ih]

end Stmt

end TreeLowering.Target
