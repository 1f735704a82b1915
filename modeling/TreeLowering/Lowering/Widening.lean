import TreeLowering.Lowering.Erasure
set_option autoImplicit false

/-!
# Lowering: widening

A type widens another one when it is less precise on the target: it erases to
the root object where the other does not, at the top or in an argument.
-/

namespace TreeLowering

namespace Ty

/-! ## Height -/

mutual

/-- How deep arguments and qualifying types nest. -/
def height : Ty → Nat
  | nominal _ as o _ => 1 + max (heightAll as) (heightOuter o)
  | _ => 0

/-- The largest height of several types. -/
def heightAll : List Ty → Nat
  | [] => 0
  | t :: ts => max (height t) (heightAll ts)

/-- The height of a qualifying type. -/
def heightOuter : Option Ty → Nat
  | none => 0
  | some t => height t

end

end Ty

namespace Model

/-- A list without the element at a position; the last one takes its place. -/
def swapRemove {α : Type} (ts : List α) (i : Nat) : List α :=
  match ts.getLast? with
  | some last => (ts.set i last).dropLast
  | none => []

/-- Each of the first elements is found in turn among the remaining ones, and taken
out of them. -/
def takesOut {α : Type} [DecidableEq α] : List α → List α → Bool
  | [], _ => true
  | t :: ts, remaining =>
    match remaining.idxOf? t with
    | some i => takesOut ts (swapRemove remaining i)
    | none => false

/-- Two type parameters have the same bounds, in whatever order. -/
def haveSameBounds (m : Model) (p q : ParamId) : Bool :=
  let bounds := (m.param p).bounds
  let remaining := (m.param q).bounds
  bounds.length == remaining.length && takesOut bounds remaining

/-- `t` erases to the root object where `r` does not; the object type itself is
no less precise than anything. -/
def isWidening (m : Model) (t r : Ty) : Bool :=
  t ≠ Language.objectTy && m.erasesToObject t && !m.erasesToObject r

/-- An argument of `t`, at a depth up to `fuel`, widens the one of `r` in its
place, or `r` has none. -/
def widensArgumentsWithin (m : Model) : Nat → Ty → Ty → Bool
  | _, .param p, .param q => !m.haveSameBounds p q
  | 0, _, _ => false
  | fuel + 1, t, r =>
    let others := m.substitution r
    (m.substitution t).entries.any fun e =>
      match others.get? e.1 with
      | none => true
      | some other => m.isWidening e.2 other || widensArgumentsWithin m fuel e.2 other

/-- An argument of `t`, at any depth, widens the one of `r` in its place. -/
def widensArguments (m : Model) (t r : Ty) : Bool := m.widensArgumentsWithin t.height t r

/-- An argument of `t`, seen as an instantiation of the declaration of `r`,
widens the one of `r` in its place. -/
def widensInherited (m : Model) (t r : Ty) : Bool :=
  match t, r with
  | .param p, .param q => !m.haveSameBounds p q
  | _, _ =>
    if m.erasesToObject r && !m.erasesToObject t then false
    else if t = r then m.widensArguments t r
    else
      match r.definite.decl? with
      | none => true
      | some target =>
        match m.supertype? t target with
        | none => true
        | some seen => m.widensArguments seen r.definite

/-- An argument of `t` widens the one of `r` in its place; with
`allowSubtypes`, `t` is first seen as an instantiation of the declaration of
`r`. -/
def widensTypeArguments (m : Model) (t r : Ty) (allowSubtypes : Bool) : Bool :=
  if allowSubtypes then m.widensInherited t r else m.widensArguments t r

end Model

end TreeLowering
