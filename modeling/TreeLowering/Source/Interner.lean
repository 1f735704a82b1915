import TreeLowering.Assoc
set_option autoImplicit false

/-!
# Source: the name table

An interner hands out one small number per distinct text.  One table holds the
texts by number, the other the number of each text.  Number `0` is the empty
text from the start, and a number that was never handed out reads as the empty
text.
-/

namespace TreeLowering

/-- A text's number in an interner. -/
structure Name where
  index : Nat
  deriving DecidableEq, Repr, Inhabited

namespace Name

/-- The name of the empty text. -/
def empty : Name := ⟨0⟩

/-- The name is that of the empty text. -/
def isEmpty (n : Name) : Bool := n.index == 0

/-- How many names there are: they are 32-bit words. -/
def count : Nat := 0x100000000

/-- The name of the next text when `n` texts have one. -/
def next? (n : Nat) : Option Name := if n < count then some ⟨n⟩ else none

end Name

/-- Why a text is not given a name. -/
inductive InternError where
  /-- As many texts as this have one, and no name is left. -/
  | overflow (texts : Nat)
  deriving DecidableEq, Repr, Inhabited

/-- The text of an error. -/
def InternError.message : InternError → String
  | overflow n =>
    "interner exceeded capacity: " ++ toString n ++ " strings, max is "
      ++ toString (Name.count - 1)

/-- The texts seen so far, with their names. -/
structure Interner where
  texts : Array String
  /-- At most one name for each text. -/
  names : List (String × Name)
  deriving Repr

namespace Interner

/-- The table that knows the empty text only. -/
def new : Interner := ⟨#[""], [("", .empty)]⟩

instance : Inhabited Interner := ⟨new⟩

/-- Number of names handed out, the empty one included. -/
def size (t : Interner) : Nat := t.texts.size

/-- Only the empty text has a name. -/
def isEmpty (t : Interner) : Bool := t.size ≤ 1

/-- The text of a name, empty when the name was never handed out. -/
def lookup (t : Interner) (n : Name) : String := (t.texts[n.index]?).getD ""

/-- The name already given to a text. -/
def find? (t : Interner) (s : String) : Option Name := t.names.lookup s

/-- Stores a text under the next name. -/
def add (t : Interner) (s : String) (n : Name) : Interner :=
  ⟨t.texts.push s, Assoc.set s n t.names⟩

/-- The name of a text, given by one who has the table alone.  The text is looked
for, since others may have stored it before. -/
def give (t : Interner) (s : String) : Except InternError Name × Interner :=
  match t.find? s with
  | some n => (.ok n, t)
  | none =>
    match Name.next? t.size with
    | some n => (.ok n, t.add s n)
    | none => (.error (.overflow t.size), t)

/-- The name of a text: the known one, else the next free number.  Known texts
are found without having the table alone. -/
def tryIntern (t : Interner) (s : String) : Except InternError Name × Interner :=
  match t.find? s with
  | some n => (.ok n, t)
  | none => t.give s

/-- The name of a text that can be given one. -/
def intern (t : Interner) (s : String) : Name × Interner :=
  match t.tryIntern s with
  | (.ok n, u) => (n, u)
  | (.error _, u) => (.empty, u)

end Interner

end TreeLowering
