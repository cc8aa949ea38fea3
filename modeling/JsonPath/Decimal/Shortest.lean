/-! The fewest decimal digits that identify a binary fraction `mantissa * 2 ^ exponent` among its
neighbours of the same precision. All arithmetic is exact, on natural numbers. -/
namespace JsonPath

/-- The positive number `significand * 10 ^ exponent`. -/
structure Decimal where
  significand : Nat
  exponent : Int
  deriving DecidableEq, Repr

namespace Decimal

def digits (d : Decimal) : List Char := Nat.toDigits 10 d.significand

/-- The position of the decimal point, counted from the first digit. -/
def point (d : Decimal) : Int := d.digits.length + d.exponent

/-- A positive fraction, not necessarily reduced. -/
structure Ratio where
  num : Nat
  den : Nat

/-- `n * base ^ e` for an exponent of either sign. -/
private def Ratio.scaled (n base : Nat) (e : Int) : Ratio :=
  ⟨n * base.pow e.toNat, base.pow (-e).toNat⟩

/-- The `e` with `10 ^ (e - 1) ≤ r < 10 ^ e`. -/
def Ratio.magnitude (r : Ratio) : Int :=
  if r.den ≤ r.num then (Nat.toDigits 10 (r.num / r.den)).length
  else 1 - (Nat.toDigits 10 ((r.den - 1) / r.num)).length

/-- The numbers that round to a binary fraction: those between `low` and `high` quarters of a unit,
with the ends when the fraction's mantissa is even. `high` is half a unit above; `low` is half a unit
below, or a quarter where the spacing halves. -/
structure Interval where
  low : Nat
  middle : Nat
  high : Nat
  closed : Bool
  unit : Ratio

/-- Spacing halves below a power of two, except at the least exponent. -/
def Interval.around (precision : Nat) (leastExponent : Int) (mantissa : Nat) (exponent : Int) :
    Interval where
  low := if mantissa = 1 <<< (precision - 1) ∧ leastExponent < exponent then 4 * mantissa - 1
    else 4 * mantissa - 2
  middle := 4 * mantissa
  high := 4 * mantissa + 2
  closed := mantissa % 2 == 0
  unit := .scaled 1 2 (exponent - 2)

/-- Whether `c * 10 ^ e` lies in the interval. -/
def Interval.contains (i : Interval) (c : Nat) (e : Int) : Bool :=
  let x := Ratio.scaled c 10 e
  let position := x.num * i.unit.den
  let low := i.low * i.unit.num * x.den
  let high := i.high * i.unit.num * x.den
  if i.closed then low ≤ position && position ≤ high else low < position && position < high

/-- The interval's points on the grid `10 ^ e` next to its middle, the nearer one first. A tie goes
to the even neighbour. -/
def Interval.onGrid? (i : Interval) (e : Int) : Option Nat :=
  let grid := Ratio.scaled 1 10 e
  let num := i.middle * i.unit.num * grid.den
  let den := i.unit.den * grid.num
  let below := num / den
  let gap := 2 * (num % den)
  let upward := den < gap || (gap == den && below % 2 == 1)
  let (near, far) := if upward then (below + 1, below) else (below, below + 1)
  if i.contains near e then some near
  else if i.contains far e then some far
  else none

/-- Tries the grid of `n` digits, then finer ones, `count` grids in all. -/
def Interval.search (i : Interval) (magnitude : Int) (n : Nat) : Nat → Option Decimal
  | 0 => none
  | count + 1 =>
    match i.onGrid? (magnitude - n) with
    | some c => some ⟨c, magnitude - n⟩
    | none => i.search magnitude (n + 1) count

/-- Seventeen digits identify every double. -/
def maxDigits : Nat := 17

/-- The shortest decimal that rounds to the double `mantissa * 2 ^ exponent`. The grid of no digits
comes first: its one candidate is the power of ten just above. -/
def shortest? (mantissa : Nat) (exponent : Int) : Option Decimal :=
  let i := Interval.around 53 (-1074) mantissa exponent
  let value : Ratio := ⟨i.middle * i.unit.num, i.unit.den⟩
  i.search value.magnitude 0 (maxDigits + 1)

end Decimal
end JsonPath
