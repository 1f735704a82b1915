import TreeLowering.Model.Pooled
import TreeLowering.Source.Interner
set_option autoImplicit false

/-!
# Shared tables: computations over a pool and an interner

All that is lowered for one program shares a pool of types and an interner of
names.  Both only ever grow, and a type or a name is its number in them.  A
computation reads the tables and adds to them.  It comes to no end when there is
no number left, or when it has to go on without end.
-/

namespace TreeLowering

namespace TypeNode

/-- The declaration of a nominal type. -/
def decl? : TypeNode → Option DeclId
  | nominal d _ _ _ => some d
  | _ => none

/-- The type is a reference to the declaration, whatever its arguments. -/
def isOf (n : TypeNode) (d : DeclId) : Bool := n.decl? == some d

/-- Arguments of a nominal type. -/
def args : TypeNode → List TypeIdx
  | nominal _ as _ _ => as
  | _ => []

/-- Representation hint of a nominal type. -/
def hint? : TypeNode → Option Hint
  | nominal _ _ _ h => h
  | _ => none

/-- The type is a type parameter. -/
def isParam : TypeNode → Bool
  | param _ => true
  | _ => false

/-- The type is a union or an intersection. -/
def isComposite : TypeNode → Bool
  | union _ | inter _ => true
  | _ => false

end TypeNode

namespace Shared

/-- The pool and the interner of a program. -/
structure Tables where
  pool : TypePool
  names : Interner
  deriving Repr

/-- Why a computation comes to no end. -/
inductive Halt where
  /-- No position or name is left in the tables. -/
  | full (t : Tables)
  /-- It goes on without end. -/
  | endless
  deriving Repr

/-- A computation that reads the tables and adds to them. -/
abbrev Tabled (α : Type) : Type := StateT Tables (Except Halt) α

namespace Tabled

variable {α β : Type}

/-- Comes to no end. -/
def halt (h : Halt) : Tabled α := fun _ => .error h

/-- Reads the tables. -/
def reading (f : Tables → α) : Tabled α := fun t => .ok (f t, t)

/-- Builds types, as long as there are positions for them.  Past the last one the
numbers of positions would come round. -/
def building (x : Pooled α) : Tabled α := fun t =>
  match x t.pool with
  | none => .error .endless
  | some (a, p) =>
    if p.size ≤ TypeIdx.count then .ok (a, { t with pool := p })
    else .error (.full { t with pool := p })

/-- The node at a position. -/
def nodeAt (i : TypeIdx) : Tabled TypeNode := reading (·.pool.node i)

/-- The position of a node. -/
def make (n : TypeNode) : Tabled TypeIdx := building (Pooled.building (·.intern n))

/-- The text of a name. -/
def textOf (n : Name) : Tabled String := reading (·.names.lookup n)

/-- The name of a text, as long as there are names. -/
def intern (text : String) : Tabled Name := fun t =>
  match t.names.tryIntern text with
  | (.ok n, names) => .ok (n, { t with names := names })
  | (.error _, names) => .error (.full { t with names := names })

/-! ## Several answers -/

/-- Both answers are yes; the second one is asked for only then. -/
def both (x y : Tabled Bool) : Tabled Bool := do
  if ← x then y else pure false

/-- One of the answers is yes; the second one is asked for only if the first is
no. -/
def either (x y : Tabled Bool) : Tabled Bool := do
  if ← x then pure true else y

/-- The answer is no. -/
def no (x : Tabled Bool) : Tabled Bool := not <$> x

/-- The answer for one of the elements is yes; no more are asked about. -/
def anyOf (f : α → Tabled Bool) : List α → Tabled Bool
  | [] => pure false
  | a :: as => either (f a) (anyOf f as)

/-- The first element with the answer yes. -/
def findOf (f : α → Tabled Bool) : List α → Tabled (Option α)
  | [] => pure none
  | a :: as => do
    if ← f a then pure (some a) else findOf f as

/-- The first thing that is found for an element. -/
def firstOf (f : α → Tabled (Option β)) : List α → Tabled (Option β)
  | [] => pure none
  | a :: as => do
    match ← f a with
    | some found => pure (some found)
    | none => firstOf f as

/-- What is found for the elements, or nothing when it is not found for each. -/
def allOf (f : α → Tabled (Option β)) : List α → Tabled (Option (List β))
  | [] => pure (some [])
  | a :: as => do
    match ← f a with
    | none => pure none
    | some found => Option.map (found :: ·) <$> allOf f as

/-- The elements with the answer yes. -/
def only (f : α → Tabled Bool) : List α → Tabled (List α)
  | [] => pure []
  | a :: as => do
    let keeps ← f a
    let rest ← only f as
    pure (if keeps then a :: rest else rest)

/-- What becomes of each element. -/
def each (f : α → Tabled β) : List α → Tabled (List β)
  | [] => pure []
  | a :: as => do
    let b ← f a
    let bs ← each f as
    pure (b :: bs)

end Tabled

end Shared

end TreeLowering
