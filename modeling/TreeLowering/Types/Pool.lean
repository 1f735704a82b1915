import TreeLowering.Assoc
import TreeLowering.Types.Basic
set_option autoImplicit false

/-!
# Types: the shared pool

A pool stores every type once and names it by its position, so two positions
below the size are equal exactly when they store the same node.  One table holds
the nodes by position, the other the position of each node.  The erroneous type
and the bottom type have the first two positions, and a position past the end
reads as the erroneous type.
-/

namespace TreeLowering

/-- Position of a type in a pool. -/
structure TypeIdx where
  index : Nat
  deriving DecidableEq, Repr, Inhabited

namespace TypeIdx

/-- Position of the erroneous type. -/
def error : TypeIdx := ⟨0⟩

/-- Position of the bottom type. -/
def bottom : TypeIdx := ⟨1⟩

/-- How many positions there are: they are 32-bit words. -/
def count : Nat := 0x100000000

/-- The position of the next node when there are `n` nodes. -/
def next (n : Nat) : TypeIdx := ⟨n % count⟩

/-- The written form of a position. -/
def text (i : TypeIdx) : String :=
  if i = error then "Idx::ERROR"
  else if i = bottom then "Idx::BOTTOM"
  else "Idx(" ++ toString i.index ++ ")"

end TypeIdx

/-- A type whose parts are positions. -/
inductive TypeNode where
  | nominal (decl : DeclId) (args : List TypeIdx) (outer : Option TypeIdx) (hint : Option Hint)
  | union (cases : List TypeIdx)
  | inter (bounds : List TypeIdx)
  | param (param : ParamId)
  | bottom
  | error
  deriving DecidableEq, Repr, Inhabited

namespace TypeNode

/-- The word for a node's form. -/
def tag : TypeNode → String
  | nominal .. => "nominal"
  | union _ => "union"
  | inter _ => "intersection"
  | param _ => "param"
  | bottom => "bottom"
  | error => "error"

/-- The positions a node refers to. -/
def parts : TypeNode → List TypeIdx
  | nominal _ as o _ => o.toList ++ as
  | union ts => ts
  | inter ts => ts
  | param _ => []
  | bottom => []
  | error => []

end TypeNode

/-- The nodes stored so far. -/
structure TypePool where
  nodes : Array TypeNode
  /-- At most one position for each node. -/
  positions : List (TypeNode × TypeIdx)
  deriving Repr

namespace TypePool

/-- A pool that stores nothing. -/
def empty : TypePool := ⟨#[], []⟩

/-- Number of stored nodes. -/
def size (p : TypePool) : Nat := p.nodes.size

/-- The pool stores nothing. -/
def isEmpty (p : TypePool) : Bool := p.nodes.isEmpty

/-- The node at a position. -/
def node (p : TypePool) (i : TypeIdx) : TypeNode := (p.nodes[i.index]?).getD .error

/-- The position already given to a node. -/
def find? (p : TypePool) (n : TypeNode) : Option TypeIdx := p.positions.lookup n

/-- Stores a node at the next position. -/
def add (p : TypePool) (n : TypeNode) : TypePool :=
  ⟨p.nodes.push n, Assoc.set n (.next p.size) p.positions⟩

/-- The position of a node: the known one, else the next one. -/
def intern (p : TypePool) (n : TypeNode) : TypeIdx × TypePool :=
  match p.find? n with
  | some i => (i, p)
  | none => (.next p.size, p.add n)

/-- The pool with the erroneous and the bottom type. -/
def new : TypePool := ((empty.intern .error).2.intern .bottom).2

instance : Inhabited TypePool := ⟨new⟩

/-! ## Building types -/

/-- A class or interface without qualifying type and hint. -/
def nominal (p : TypePool) (d : DeclId) (args : List TypeIdx) : TypeIdx × TypePool :=
  p.intern (.nominal d args none none)

/-- A member class or interface of a qualifying type. -/
def qualified (p : TypePool) (outer : TypeIdx) (d : DeclId) (args : List TypeIdx) :
    TypeIdx × TypePool :=
  p.intern (.nominal d args (some outer) none)

/-- The union of the cases, as given. -/
def union (p : TypePool) (cases : List TypeIdx) : TypeIdx × TypePool := p.intern (.union cases)

/-- The intersection of the bounds, as given. -/
def inter (p : TypePool) (bounds : List TypeIdx) : TypeIdx × TypePool := p.intern (.inter bounds)

/-- A reference to a type parameter. -/
def param (p : TypePool) (q : ParamId) : TypeIdx × TypePool := p.intern (.param q)

/-- A nominal type with a hint attached; any other type as it is. -/
def withHint (p : TypePool) (i : TypeIdx) (h : Hint) : TypeIdx × TypePool :=
  match p.node i with
  | .nominal d as o _ => p.intern (.nominal d as o (some h))
  | _ => (i, p)

/-- A nominal type without its hint; any other type as it is. -/
def withoutHint (p : TypePool) (i : TypeIdx) : TypeIdx × TypePool :=
  match p.node i with
  | .nominal d as o (some _) => p.intern (.nominal d as o none)
  | _ => (i, p)

/-- Drops what was already seen, keeping first occurrences. -/
def distinct (is : List TypeIdx) : List TypeIdx :=
  is.foldl (fun kept i => if i ∈ kept then kept else kept ++ [i]) []

theorem mem_distinct {i : TypeIdx} {is : List TypeIdx} : i ∈ distinct is ↔ i ∈ is :=
  (Ty.mem_foldl_firsts is []).trans (by simp only [List.not_mem_nil, false_or])

/-- The union of distinct cases other than bottom; a sole case stands for
itself. -/
def join (p : TypePool) (cases : List TypeIdx) : TypeIdx × TypePool :=
  match distinct (cases.filter (· ≠ .bottom)) with
  | [] => (.bottom, p)
  | [i] => (i, p)
  | kept => p.union kept

/-- The intersection of distinct bounds; a sole bound stands for itself. -/
def meet (p : TypePool) (bounds : List TypeIdx) : TypeIdx × TypePool :=
  match distinct bounds with
  | [] => (.error, p)
  | [i] => (i, p)
  | kept => p.inter kept

end TypePool

end TreeLowering
