set_option autoImplicit false

/-!
# Text: blanks

The characters with the white-space property, and texts without blanks at
their ends.
-/

namespace TreeLowering.Text

/-- First and last code points of the ranges, in ascending order. -/
def blankRanges : List (Nat × Nat) :=
  [(0x9, 0xd), (0x20, 0x20), (0x85, 0x85), (0xa0, 0xa0), (0x1680, 0x1680), (0x2000, 0x200a),
    (0x2028, 0x2029), (0x202f, 0x202f), (0x205f, 0x205f), (0x3000, 0x3000)]

/-- The character has the white-space property. -/
def isBlank (c : Char) : Bool := blankRanges.any (fun r => r.1 ≤ c.toNat && c.toNat ≤ r.2)

/-- Drops blanks at both ends. -/
def trim (s : List Char) : List Char :=
  ((s.dropWhile isBlank).reverse.dropWhile isBlank).reverse

example : trim ['\u3000', 'a', ' ', 'b', '\n'] = ['a', ' ', 'b'] := by decide

end TreeLowering.Text
