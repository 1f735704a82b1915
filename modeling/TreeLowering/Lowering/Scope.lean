import TreeLowering.Assoc
set_option autoImplicit false

/-!
# Lowering: source names and synthetic names

While a narrowed binding is in scope, a source name stands for a synthetic one.
A synthetic name ends in a number that is never used again.
-/

namespace TreeLowering

/-- What source names stand for, and the next free number. -/
structure NameScope where
  /-- At most one replacement for each name. -/
  replacements : List (String × String)
  next : Nat
  deriving DecidableEq, Repr

namespace NameScope

/-- Every name stands for itself. -/
def new : NameScope := ⟨[], 0⟩

instance : Inhabited NameScope := ⟨new⟩

/-- The replacement of a name. -/
def find? (s : NameScope) (name : String) : Option String := s.replacements.lookup name

/-- What a source name stands for. -/
def resolve (s : NameScope) (name : String) : String := (s.find? name).getD name

/-- A name stands for another one. -/
def isReplaced (s : NameScope) (name : String) : Bool := (s.find? name).isSome

/-- A new synthetic name. -/
def fresh (s : NameScope) (base : String) : String × NameScope :=
  (base ++ "$" ++ toString s.next, { s with next := s.next + 1 })

/-- Sets or removes what a name stands for. -/
def set (s : NameScope) (name : String) (other : Option String) : NameScope :=
  match other with
  | some t => { s with replacements := Assoc.set name t s.replacements }
  | none => { s with replacements := Assoc.erase name s.replacements }

/-- Makes a name stand for another one; gives back what it stood for. -/
def replace (s : NameScope) (name other : String) : Option String × NameScope :=
  (s.find? name, s.set name (some other))

/-- Undoes a replacement. -/
def restore (s : NameScope) (name : String) (previous : Option String) : NameScope :=
  s.set name previous

theorem find?_set (s : NameScope) (x y : String) (other : Option String) :
    (s.set x other).find? y = if y = x then other else s.find? y := by
  cases other with
  | none => exact Assoc.lookup_erase x y s.replacements
  | some t => exact Assoc.lookup_set x y t s.replacements

/-- Undoing a replacement brings every name back to what it stood for. -/
theorem find?_restore_replace (s : NameScope) (x y other : String) :
    ((s.replace x other).2.restore x (s.replace x other).1).find? y = s.find? y := by
  simp only [replace, restore, find?_set]
  split
  · rename_i h
    rw [h]
  · rfl

end NameScope

end TreeLowering
