import TreeQuery.Number.Basic

/-!
Decimals `coefficient · 10 ^ exponent`, and the two ways between them and binary64 values.

`Number.ofDecimal` takes a decimal to the nearest value. `Number.shortest` takes a finite value to
the decimal with the fewest digits that is read back as that value, and among those to the one
nearest to it. The values that read back as a given one form an interval around it, and a shortest
decimal is a multiple in that interval of the largest power of ten that has one.
-/

namespace TreeQuery

/-- The decimal `coefficient · 10 ^ exponent`. -/
structure Decimal where
  coefficient : Nat
  exponent : Int
  deriving DecidableEq, Repr

namespace Decimal

def digits (decimal : Decimal) : List Char :=
  Nat.toDigits 10 decimal.coefficient

def leadingExponent (decimal : Decimal) : Int :=
  decimal.exponent + decimal.digits.length - 1

end Decimal

namespace Number

/-- The value nearest to a decimal. Decimals of 310 digits and more before the point are beyond
the range, and those with more than 330 zeros after the point are nearest to zero, so the power of
ten stays small. -/
def ofDecimal (negative : Bool) (decimal : Decimal) : Number :=
  if decimal.coefficient = 0 then
    zero negative
  else if 310 ≤ decimal.exponent then
    .infinite negative
  else if decimal.coefficient.log2 + 1 + decimal.exponent < -330 then
    zero negative
  else if 0 ≤ decimal.exponent then
    round negative (decimal.coefficient * tenPow decimal.exponent.toNat * unitsPerOne) 1
  else
    round negative (decimal.coefficient * unitsPerOne) (tenPow (-decimal.exponent).toNat)

/-! ## The decimals that read back as a value

Bounds are counted in half units, because the values nearest to `units` end halfway to its
neighbours.
-/

/-- The distance from `units` down to the end of its interval. Below the first value of a binade
the neighbours are twice as dense. -/
def halfGapBelow (units : Nat) : Nat :=
  if units = twoPow units.log2 ∧ 52 < units.log2 then
    spacing units / 2
  else
    spacing units

def halfGapAbove (units : Nat) : Nat :=
  spacing units

/-- Rounding to even gives the ends of the interval to an even significand. -/
def ownsEnds (units : Nat) : Bool :=
  units / spacing units % 2 == 0

/-- The numerator over `2 ^ 1075` of one half unit, on the grid `10 ^ exponent`. -/
def gridNumerator (exponent : Int) : Nat :=
  tenPow (-exponent).toNat

def gridDenominator (exponent : Int) : Nat :=
  tenPow exponent.toNat * (2 * unitsPerOne)

/-- Whether `coefficient · 10 ^ exponent` reads back as the value of `units`. -/
def readsBack (units coefficient : Nat) (exponent : Int) : Bool :=
  let point := coefficient * gridDenominator exponent
  let lower := (2 * units - halfGapBelow units) * gridNumerator exponent
  let upper := (2 * units + halfGapAbove units) * gridNumerator exponent
  if ownsEnds units then
    decide (lower ≤ point ∧ point ≤ upper)
  else
    decide (lower < point ∧ point < upper)

/-- The multiple of `10 ^ exponent` that reads back as the value of `units` and is nearest to it,
if any multiple reads back. One of the two neighbours of the value does if any does. -/
def nearestOnGrid? (tie : Tie) (units : Nat) (exponent : Int) : Option Nat :=
  let numerator := 2 * units * gridNumerator exponent
  let denominator := gridDenominator exponent
  let below := numerator / denominator
  match readsBack units below exponent, readsBack units (below + 1) exponent with
  | true, true => some (roundedQuotient tie numerator denominator)
  | true, false => some below
  | false, true => some (below + 1)
  | false, false => none

/-- The exponent of the finest grid: every value is a multiple of it. -/
def finestExponent : Int :=
  -1074

/-- Searches the grids from `10 ^ (finestExponent + steps)` downward for the first one with a
decimal that reads back. The finest one always has one. -/
def shortestFrom (tie : Tie) (units : Nat) : Nat → Decimal
  | 0 =>
      let exponent := finestExponent
      ⟨(nearestOnGrid? tie units exponent).getD 0, exponent⟩
  | steps + 1 =>
      let exponent := finestExponent + (steps + 1 : Nat)
      match nearestOnGrid? tie units exponent with
      | some coefficient => ⟨coefficient, exponent⟩
      | none => shortestFrom tie units steps

/-- An exponent of ten above which no grid has a decimal that reads back as the value of `units`:
eight is below ten and `10 ^ 3` is below `2 ^ 10`. -/
def coarsestExponent (units : Nat) : Int :=
  let magnitude : Int := (units.log2 : Int) - 1072
  if 0 ≤ magnitude then magnitude / 3 else -(3 * -magnitude / 10)

def shortest (tie : Tie) (units : Nat) : Decimal :=
  if units = 0 then
    ⟨0, 0⟩
  else
    shortestFrom tie units (coarsestExponent units - finestExponent).toNat

end Number

end TreeQuery
