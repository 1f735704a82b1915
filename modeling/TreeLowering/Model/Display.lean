import TreeLowering.Model.Basic
set_option autoImplicit false

/-!
# Model: types as a user writes them

Qualifying types are joined by a point, arguments stand in angle brackets, and
a union of two cases one of which is the absent value's type is written with a
question mark.
-/

namespace TreeLowering

namespace Model

/-- The written form of a union, from its cases and their written forms. -/
def displayUnion : List Ty → List String → String
  | [a, b], [x, y] =>
    if a.isOf Language.nothing then y ++ "?"
    else if b.isOf Language.nothing then x ++ "?"
    else x ++ "|" ++ y
  | _, texts => "|".intercalate texts

mutual

/-- The written form of a type. -/
def display (m : Model) : Ty → String
  | .nominal d as o _ =>
    displayOuter m o ++ (m.decl d).name
      ++ (if as.isEmpty then "" else "<" ++ ", ".intercalate (displayAll m as) ++ ">")
  | .union cases => displayUnion cases (displayAll m cases)
  | .inter bounds => "&".intercalate (displayAll m bounds)
  | .param p => (m.param p).name
  | .bottom => "Bottom"
  | .error => "<error>"

/-- The written forms of several types. -/
def displayAll (m : Model) : List Ty → List String
  | [] => []
  | t :: ts => display m t :: displayAll m ts

/-- The written form of a qualifying type, with the point after it. -/
def displayOuter (m : Model) : Option Ty → String
  | none => ""
  | some t => display m t ++ "."

end

theorem displayAll_eq_map (m : Model) (ts : List Ty) : m.displayAll ts = ts.map m.display := by
  induction ts with
  | nil => simp [displayAll]
  | cons t ts ih => simp [displayAll, ih]

end Model

end TreeLowering
