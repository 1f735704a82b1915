set_option autoImplicit false

/-!
# Decimal: the shortest decimal of a binary fraction

A finite double is `m · 2^q`.  Every real number strictly between the midpoints
to its neighbours reads back as it, and the midpoints themselves do exactly
when `m` is even.  The shortest decimal is the one with the fewest digits in
that interval, and among those the one nearest to the double.

All numbers are compared as natural numbers: with `u = 2^(q-2)` the double is
`4·m·u` and the midpoints are whole multiples of `u`.
-/

namespace TreeLowering.Decimal

/-- A positive finite double `mantissa · 2^exponent`. -/
structure Binary where
  mantissa : Nat
  exponent : Int
  /-- The gap below is half the gap above: the least mantissa of its binade. -/
  narrowBelow : Bool
  deriving DecidableEq, Repr, Inhabited

/-- A decimal `digits · 10^exponent`. -/
structure Scaled where
  digits : Nat
  exponent : Int
  deriving DecidableEq, Repr, Inhabited

/-- `base^n` for a non-negative exponent, else one. -/
def powPos (base : Nat) (n : Int) : Nat := Nat.pow base n.toNat

namespace Binary

/-- Numerator of the unit `u`. -/
def unitNum (b : Binary) : Nat := powPos 2 (b.exponent - 2)

/-- Denominator of the unit `u`. -/
def unitDen (b : Binary) : Nat := powPos 2 (2 - b.exponent)

/-- The double in units. -/
def value (b : Binary) : Nat := 4 * b.mantissa

/-- The upper midpoint in units. -/
def high (b : Binary) : Nat := 4 * b.mantissa + 2

/-- The lower midpoint in units. -/
def low (b : Binary) : Nat := if b.narrowBelow then 4 * b.mantissa - 1 else 4 * b.mantissa - 2

/-- Number of digits before the point; zero or less when the double is below
one and has zeros after the point. -/
def magnitude (b : Binary) : Int :=
  let num := b.value * b.unitNum
  let den := b.unitDen
  if den ≤ num then (Nat.toDigits 10 (num / den)).length
  else
    let zeros := (Nat.toDigits 10 (den / num)).length
    if den ≤ num * Nat.pow 10 (zeros - 1) then 2 - (zeros : Int) else 1 - (zeros : Int)

/-- `x` units, on the grid of multiples of `10^scale`, as a fraction over
`gridDen`. -/
def gridNum (b : Binary) (scale : Int) (x : Nat) : Nat := x * b.unitNum * powPos 10 (-scale)

/-- The common denominator on the grid of multiples of `10^scale`. -/
def gridDen (b : Binary) (scale : Int) : Nat := b.unitDen * powPos 10 scale

/-- `d · 10^scale` reads back as the double. -/
def readsBack (b : Binary) (scale : Int) (d : Nat) : Bool :=
  let x := d * b.gridDen scale
  let low := b.gridNum scale b.low
  let high := b.gridNum scale b.high
  if b.mantissa % 2 == 0 then low ≤ x && x ≤ high else low < x && x < high

/-- The multiple of `10^scale` that reads back as the double, if a neighbour of
it does; of two, the nearer one, and the upper one if both are as near. -/
def onGrid (b : Binary) (scale : Int) : Option Nat :=
  let v := b.gridNum scale b.value
  let den := b.gridDen scale
  let below := v / den
  match b.readsBack scale below, b.readsBack scale (below + 1) with
  | true, true => if v - below * den < (below + 1) * den - v then some below else some (below + 1)
  | true, false => some below
  | false, true => some (below + 1)
  | false, false => none

/-- The first grid with a hit, trying the given numbers of digits. -/
def firstGrid (b : Binary) : List Nat → Scaled
  | [] => ⟨b.gridNum 0 b.value / b.gridDen 0, 0⟩
  | count :: rest =>
    let scale := b.magnitude - count
    match b.onGrid scale with
    | some d => ⟨d, scale⟩
    | none => firstGrid b rest

/-- The shortest decimal of the double; seventeen digits always suffice. -/
def shortest (b : Binary) : Scaled := b.firstGrid ((List.range 17).map (· + 1))

end Binary

/-! ## Layout -/

/-- Where a layout writes a number with digits before or after the point only,
and where with an exponent. -/
structure Layout where
  /-- Least exponent of the first digit that is written positionally. -/
  positionalFrom : Int
  /-- Least exponent of the first digit that is written with an exponent. -/
  exponentFrom : Int
  deriving DecidableEq, Repr, Inhabited

/-- Drops zeros at the end. -/
def stripZeros (ds : List Char) : List Char := (ds.reverse.dropWhile (· == '0')).reverse

/-- Zeros to fill a number up with. -/
def zeros (n : Int) : List Char := List.replicate n.toNat '0'

/-- `0.ddd` or `ddd.ddd`, with at least one digit on each side of the point,
for digits of which `point` stand before it. -/
def positional (ds : List Char) (point : Int) : List Char :=
  if point ≤ 0 then ['0', '.'] ++ zeros (-point) ++ ds
  else
    let whole := ds.take point.toNat ++ zeros (point - ds.length)
    match ds.drop point.toNat with
    | [] => whole ++ ['.', '0']
    | fraction => whole ++ ['.'] ++ fraction

/-- `dePPP` or `d.dddePPP`. -/
def scientific (ds : List Char) (exponent : Int) : List Char :=
  let power := 'e' :: (toString exponent).toList
  match ds with
  | [] => power
  | [d] => d :: power
  | d :: rest => d :: '.' :: rest ++ power

namespace Layout

/-- Writes a positive decimal. -/
def write (l : Layout) (x : Scaled) : List Char :=
  let all := Nat.toDigits 10 x.digits
  let point := all.length + x.exponent
  let ds := stripZeros all
  let first := point - 1
  if l.positionalFrom ≤ first && first < l.exponentFrom then positional ds point
  else scientific ds first

end Layout

/-! ## Doubles by their bits -/

/-- What the bits of a double say. -/
inductive Double where
  | nan
  | infinite (negative : Bool)
  | zero (negative : Bool)
  | finite (negative : Bool) (magnitude : Binary)
  deriving DecidableEq, Repr, Inhabited

namespace Double

/-- Reads the sign bit, eleven bits of exponent and fifty-two bits of
fraction. -/
def ofBits (bits : UInt64) : Double :=
  let negative := bits.toNat / 0x8000000000000000 == 1
  let exponent : Nat := bits.toNat / 0x10000000000000 % 0x800
  let fraction : Nat := bits.toNat % 0x10000000000000
  if exponent = 2047 then
    if fraction = 0 then .infinite negative else .nan
  else if exponent = 0 then
    if fraction = 0 then .zero negative else .finite negative ⟨fraction, -1074, false⟩
  else
    .finite negative
      ⟨0x10000000000000 + fraction, (exponent : Int) - 1075, fraction == 0 && 1 < exponent⟩

/-- A minus sign for negative numbers. -/
def signed (negative : Bool) (text : String) : String := if negative then "-" ++ text else text

/-- Writes a double with the fewest digits that read back. -/
def write (l : Layout) : Double → String
  | nan => "NaN"
  | infinite negative => signed negative "inf"
  | zero negative => signed negative "0.0"
  | finite negative b => signed negative (String.ofList (l.write b.shortest))

end Double

end TreeLowering.Decimal
