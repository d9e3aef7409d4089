import SphereSearch.Number.Binary64

/-!
# The shortest decimal that reads back

A finite positive double is `m · 2 ^ q`.  The decimals that read back as it are those in an
interval around it, half way to each neighbour; the ends belong to it when `m` is even.
`shortest` finds the coarsest power-of-ten grid with a point in that interval, and of two
such points the nearer one.  All arithmetic is exact, in the natural numbers.
-/

namespace SphereSearch.Decimal

/-- A decimal number `digits · 10 ^ exponent`. -/
structure Scaled where
  /-- The digits, read as one natural number. -/
  digits : Nat
  /-- The power of ten they are multiplied by. -/
  exponent : Int
deriving DecidableEq, Repr

/-- A positive double as `significand · 2 ^ exponent`. -/
structure Dyadic where
  /-- The significand, below `2 ^ 53`. -/
  significand : Nat
  /-- The power of two it is multiplied by. -/
  exponent : Int
  /-- Whether the next smaller double is only half as far away as the next larger one. -/
  narrowBelow : Bool
deriving DecidableEq, Repr

/-- The magnitude of the finite double with these bits. -/
def Dyadic.ofBits (bits : UInt64) : Dyadic :=
  let fraction : Nat := bits.toNat % 2 ^ 52
  let biased : Nat := bits.toNat / 2 ^ 52 % 2 ^ 11
  if biased = 0 then ⟨fraction, -1074, false⟩
  else ⟨2 ^ 52 + fraction, (biased : Int) - 1075, fraction == 0 && biased > 1⟩

/-- The interval of numbers that read back as a double, in steps of a decimal grid: it runs
from `low / unit` to `high / unit` around `value / unit`. -/
structure Interval where
  /-- Numerator of the lower end. -/
  low : Nat
  /-- Numerator of the double itself. -/
  value : Nat
  /-- Numerator of the upper end. -/
  high : Nat
  /-- The common denominator: one grid step. -/
  unit : Nat
  /-- Whether the ends belong to the interval. -/
  closed : Bool

/-- The interval around `d` on the grid of multiples of `10 ^ k`.  A quarter of the last
binary place is the unit of the numerators, so that every end is whole. -/
def Dyadic.interval (d : Dyadic) (k : Int) : Interval :=
  let numerator := 2 ^ (d.exponent - 2).toNat * 10 ^ (-k).toNat
  let m := 4 * d.significand
  { low := (m - if d.narrowBelow then 1 else 2) * numerator
    value := m * numerator
    high := (m + 2) * numerator
    unit := 2 ^ (2 - d.exponent).toNat * 10 ^ k.toNat
    closed := d.significand % 2 = 0 }

/-- Whether the grid point `n` lies in the interval. -/
def Interval.holds (i : Interval) (n : Nat) : Bool :=
  if i.closed then i.low ≤ n * i.unit && n * i.unit ≤ i.high
  else i.low < n * i.unit && n * i.unit < i.high

/-- The grid point of the interval nearest to its double, if there is one.  Only the two
neighbours of the double can be nearest; an exact tie goes up. -/
def Interval.nearest? (i : Interval) : Option Nat :=
  let below := i.value / i.unit
  match i.holds below, i.holds (below + 1) with
  | true, true =>
    if i.value - below * i.unit < (below + 1) * i.unit - i.value then some below
    else some (below + 1)
  | true, false => some below
  | false, true => some (below + 1)
  | false, false => none

/-- Tries the grids `10 ^ k`, `10 ^ (k - 1)`, … in turn. -/
def Dyadic.firstGrid (d : Dyadic) : (grids : Nat) → (k : Int) → Scaled
  | 0, k => ⟨(d.interval k).value / (d.interval k).unit, k⟩
  | grids + 1, k =>
    match (d.interval k).nearest? with
    | some n => ⟨n, k⟩
    | none => d.firstGrid grids (k - 1)

/-- The shortest decimal that reads back as `d`.  The search starts at a power of ten above
`d`; seventeen digits always suffice, and at most three grids are too coarse to have any. -/
def Dyadic.shortest (d : Dyadic) : Scaled :=
  d.firstGrid 21 ((d.exponent + d.significand.log2 + 1) * 30103 / 100000 + 1)

end SphereSearch.Decimal
