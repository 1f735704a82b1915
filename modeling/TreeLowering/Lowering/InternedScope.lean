import TreeLowering.Lowering.Scope
import TreeLowering.Source.Interner
set_option autoImplicit false

/-!
# Lowering: name scopes over an interner

A name scope whose names are numbers of an interner, and whose own numbers are
32-bit words: after the last one comes zero again.  The interner is not the
scope's own, so it comes with each request for a name.
-/

namespace TreeLowering

/-- What source names stand for, and the next free number. -/
structure InternedScope where
  /-- At most one replacement for each name. -/
  replacements : List (Name × Name)
  next : UInt32
  deriving DecidableEq, Repr

namespace InternedScope

/-- Every name stands for itself. -/
def new : InternedScope := ⟨[], 0⟩

instance : Inhabited InternedScope := ⟨new⟩

/-- The replacement of a name. -/
def find? (s : InternedScope) (name : Name) : Option Name := s.replacements.lookup name

/-- What a source name stands for. -/
def resolve (s : InternedScope) (name : Name) : Name := (s.find? name).getD name

/-- A name stands for another one. -/
def isReplaced (s : InternedScope) (name : Name) : Bool := (s.find? name).isSome

/-- A new synthetic name. -/
def fresh (s : InternedScope) (t : Interner) (base : String) :
    Except InternError Name × InternedScope × Interner :=
  let (name, table) := t.tryIntern (base ++ "$" ++ toString s.next.toNat)
  (name, { s with next := s.next + 1 }, table)

/-- A new synthetic name for a source name. -/
def freshFor (s : InternedScope) (t : Interner) (source : Name) :
    Except InternError Name × InternedScope × Interner :=
  s.fresh t (t.lookup source)

/-- Sets or removes what a name stands for. -/
def set (s : InternedScope) (name : Name) (other : Option Name) : InternedScope :=
  match other with
  | some n => { s with replacements := Assoc.set name n s.replacements }
  | none => { s with replacements := Assoc.erase name s.replacements }

/-- Makes a name stand for another one; gives back what it stood for. -/
def replace (s : InternedScope) (name other : Name) : Option Name × InternedScope :=
  (s.find? name, s.set name (some other))

/-- Undoes a replacement. -/
def restore (s : InternedScope) (name : Name) (previous : Option Name) : InternedScope :=
  s.set name previous

end InternedScope

end TreeLowering
