import TreeQuery.Number.Basic

/-!
Decimal arithmetic with a 96-bit coefficient and at most 28 decimal places.

Values that have a short decimal form keep it under arithmetic here, where binary64 arithmetic
would drift: one tenth times three is three tenths. Every operation that can leave the range
answers with an option, and `Operation.apply` falls back to the binary64 operation.
-/

namespace TreeQuery

/-- The decimal `± coefficient / 10 ^ scale`. Zero keeps its sign. -/
structure Decimal96 where
  negative : Bool
  coefficient : Nat
  scale : Nat
  deriving DecidableEq, Repr

namespace Decimal96

/-- The first coefficient that is too large. -/
def limit : Nat :=
  twoPow 96

def maxScale : Nat :=
  28

def zero : Decimal96 :=
  ⟨false, 0, 0⟩

/-! ## From a binary64 value

A value `significand · 2 ^ exponent` is brought to `coefficient · 5 ^ fives · 10 ^ tens` with
`tens = -fives = exponent` at first; then the fives are worked off, then the tens above zero, and
then places are dropped until at most 28 are left and the coefficient has at most 52 bits.
-/

/-- Works off positive powers of five: a factor two of the coefficient cancels one, otherwise the
coefficient takes it in, or is halved when it has no room. -/
def absorbFives : Nat → Nat → Int → Nat × Int
  | 0, coefficient, tens => (coefficient, tens)
  | fives + 1, coefficient, tens =>
      if coefficient % 2 = 0 then
        absorbFives fives (coefficient / 2) (tens + 1)
      else if coefficient * 5 < limit then
        absorbFives fives (coefficient * 5) tens
      else
        absorbFives fives (coefficient / 2) (tens + 1)

/-- Works off negative powers of five by doubling the coefficient, or by dividing it by five when
it has no room and few tens are left. -/
def cancelFives : Nat → Nat → Int → Option (Nat × Int)
  | 0, coefficient, tens => some (coefficient, tens)
  | fives + 1, coefficient, tens =>
      if coefficient < limit / 2 then
        cancelFives fives (coefficient * 2) (tens - 1)
      else if ((fives + 1 : Nat) : Int) < 2 * tens then
        none
      else
        cancelFives fives (coefficient / 5) tens

/-- Multiplies powers of ten into the coefficient. -/
def absorbTens? : Nat → Nat → Option Nat
  | 0, coefficient => some coefficient
  | tens + 1, coefficient =>
      if coefficient * 10 < limit then absorbTens? tens (coefficient * 10) else none

/-- A quotient by ten, a half and more rounded up. -/
def dropDigit (coefficient : Nat) : Nat :=
  roundedQuotient .up coefficient 10

/-- Drops places beyond the largest scale. A coefficient of one digit becomes zero without
places, whatever the digit. -/
def dropExcess : Nat → Nat → Nat × Nat
  | 0, coefficient => (coefficient, maxScale)
  | excess + 1, coefficient =>
      if coefficient < 10 then (0, 0) else dropExcess excess (dropDigit coefficient)

/-- Drops places while the coefficient has more than 52 bits. -/
def dropImprecise : Nat → Nat → Nat × Nat
  | 0, coefficient => (coefficient, 0)
  | scale + 1, coefficient =>
      if twoPow 52 ≤ coefficient then
        dropImprecise scale (dropDigit coefficient)
      else
        (coefficient, scale + 1)

def dropZeros : Nat → Nat → Nat × Nat
  | 0, coefficient => (coefficient, 0)
  | scale + 1, coefficient =>
      if coefficient % 10 = 0 then
        dropZeros scale (coefficient / 10)
      else
        (coefficient, scale + 1)

/-- The decimal `coefficient · 10 ^ tens` with its places limited and trimmed. -/
def ofScaled? (negative : Bool) (coefficient : Nat) (tens : Int) : Option Decimal96 :=
  (absorbTens? tens.toNat coefficient).map fun coefficient =>
    let scale := (-tens).toNat
    let (coefficient, scale) :=
      if maxScale < scale then dropExcess (scale - maxScale) coefficient else (coefficient, scale)
    let (coefficient, scale) := dropImprecise scale coefficient
    let (coefficient, scale) := dropZeros scale coefficient
    ⟨negative, coefficient, scale⟩

/-- The decimal of a finite value in range. -/
def ofNumber? : Number → Option Decimal96
  | .finite negative units _ =>
      if units = 0 then
        some ⟨negative, 0, 0⟩
      else
        let significand := units / Number.spacing units
        let exponent : Int := ((units.log2 - 52 : Nat) : Int) - 1074
        if exponent ≤ 0 then
          let (coefficient, tens) := absorbFives (-exponent).toNat significand exponent
          ofScaled? negative coefficient tens
        else
          (cancelFives exponent.toNat significand exponent).bind fun (coefficient, tens) =>
            ofScaled? negative coefficient tens
  | _ => none

/-! ## To a binary64 value -/

/-- The value of a decimal. With places, the whole part and the fraction are converted apart,
added, and the sum is rounded to the places again. -/
def toNumber (decimal : Decimal96) : Number :=
  if decimal.scale = 0 then
    .ofInt (if decimal.negative then -(decimal.coefficient : Int) else decimal.coefficient)
  else
    let power := tenPow decimal.scale
    let whole := Number.ofNat false (decimal.coefficient / power)
    let fraction :=
      (Number.ofNat false (decimal.coefficient % power)).div (Number.ofNat false power)
    let magnitude :=
      if fraction.isZero then
        whole
      else
        let factor := (Number.ofNat false 10).pow decimal.scale
        (((whole.add fraction).mul factor).roundWhole).div factor
    if decimal.negative then magnitude.neg else magnitude

/-! ## Arithmetic -/

/-- The decimal `coefficient / 10 ^ scale` with as many places as fit, rounded to even. -/
def fit? (negative : Bool) (coefficient scale : Nat) : Option Decimal96 :=
  search (min scale maxScale)
where
  search (places : Nat) : Option Decimal96 :=
    let rounded := roundedQuotient .toEven coefficient (tenPow (scale - places))
    if rounded < limit then
      some ⟨negative, rounded, places⟩
    else
      match places with
      | 0 => none
      | places + 1 => search places

def signedAt (decimal : Decimal96) (scale : Nat) : Int :=
  let magnitude : Int := decimal.coefficient * tenPow (scale - decimal.scale)
  if decimal.negative then -magnitude else magnitude

def add? (left right : Decimal96) : Option Decimal96 :=
  if left.coefficient = 0 then
    some right
  else if right.coefficient = 0 then
    some left
  else
    let scale := max left.scale right.scale
    let sum := left.signedAt scale + right.signedAt scale
    fit? (sum < 0) sum.natAbs scale

def neg (decimal : Decimal96) : Decimal96 :=
  { decimal with negative := !decimal.negative }

def sub? (left right : Decimal96) : Option Decimal96 :=
  left.add? right.neg

/-- Multiplication. A product that rounds to zero is positive unless a coefficient has more than
32 bits. -/
def mul? (left right : Decimal96) : Option Decimal96 :=
  if left.coefficient = 0 ∨ right.coefficient = 0 then
    some zero
  else
    (fit? (left.negative != right.negative) (left.coefficient * right.coefficient)
        (left.scale + right.scale)).map fun product =>
      if product.coefficient = 0 ∧ left.coefficient < twoPow 32 ∧ right.coefficient < twoPow 32 then
        { product with negative := false }
      else
        product

/-- The most places, up to a bound, by which a quotient can be extended. -/
def headroom (quotient : Nat) : Nat → Nat
  | 0 => 0
  | places + 1 =>
      if quotient * tenPow (places + 1) < limit then places + 1 else headroom quotient places

theorem headroom_le (quotient bound : Nat) : headroom quotient bound ≤ bound := by
  induction bound with
  | zero => simp [headroom]
  | succ places induction =>
      simp only [headroom]
      split
      · exact Nat.le_refl _
      · omega

/-- The number of places by which a division is carried on: up to nine at a time, only as many as
are missing when nothing remains, and otherwise as many as the quotient has room for. -/
def placesGained (quotient remainder : Nat) (scale : Int) : Nat :=
  if remainder = 0 then
    min 9 (-scale).toNat
  else
    headroom quotient (min 9 (28 - scale).toNat)

theorem placesGained_le (quotient remainder : Nat) (scale : Int) :
    placesGained quotient remainder scale ≤ (28 - scale).toNat := by
  simp only [placesGained]
  split
  · omega
  · have bounded := headroom_le quotient (min 9 (28 - scale).toNat)
    omega

/-- A quotient that outgrew the coefficient gives up one place. A tie goes up when a remainder is
left, and to even otherwise. -/
def shedPlace? (quotient : Nat) (scale : Int) (remainder : Nat) : Option (Nat × Nat) :=
  if scale - 1 < 0 then
    none
  else if remainder ≠ 0 ∧ quotient % 10 = 5 then
    some (quotient / 10 + 1, (scale - 1).toNat)
  else
    some (roundedQuotient .toEven quotient 10, (scale - 1).toNat)

/-- Extends a quotient by more places until nothing remains or no place is left. The scale starts
negative when the divisor has more places than the dividend. The flag tells that a remainder was
met, so that the quotient may have zeros to spare. -/
def extend? (divisor : Nat) (quotient remainder : Nat) (scale : Int) (inexact : Bool) :
    Option (Nat × Nat × Bool) :=
  if remainder = 0 ∧ 0 ≤ scale then
    some (quotient, scale.toNat, inexact)
  else
    let places := placesGained quotient remainder scale
    if remainder ≠ 0 ∧ places < 9 ∧ places + scale < 0 then
      none
    else if _stuck : places = 0 then
      let rounded := roundedQuotient .toEven (quotient * divisor + remainder) divisor
      if rounded = limit then
        (shedPlace? rounded scale 0).map fun (quotient, scale) => (quotient, scale, true)
      else
        some (rounded, scale.toNat, true)
    else
      let inexact := inexact || remainder ≠ 0
      let scaled := quotient * tenPow places
      if limit ≤ scaled then
        none
      else
        let extended := scaled + remainder * tenPow places / divisor
        let rest := remainder * tenPow places % divisor
        if limit ≤ extended then
          (shedPlace? extended (scale + places) rest).map fun (quotient, scale) =>
            (quotient, scale, inexact)
        else
          extend? divisor extended rest (scale + places) inexact
  termination_by (28 - scale).toNat
  decreasing_by
    have bounded := placesGained_le quotient remainder scale
    omega

/-- Removes `10 ^ places` from a coefficient that is a multiple of it. -/
def stripOnce (places : Nat) (quotient : Nat × Nat) : Nat × Nat :=
  if places ≤ quotient.2 ∧ quotient.1 % tenPow places = 0 then
    (quotient.1 / tenPow places, quotient.2 - places)
  else
    quotient

/-- Removes eight places at a time while the low 32 bits of the coefficient are zero too. -/
def stripEights (coefficient scale : Nat) : Nat × Nat :=
  if _h : coefficient % twoPow 32 = 0 ∧ 8 ≤ scale ∧ coefficient % tenPow 8 = 0 then
    stripEights (coefficient / tenPow 8) (scale - 8)
  else
    (coefficient, scale)
  termination_by scale

/-- Removes the zeros that an inexact division leaves at the end of a coefficient. -/
def stripZeros (coefficient scale : Nat) : Nat × Nat :=
  stripOnce 1 (stripOnce 2 (stripOnce 4 (stripEights coefficient scale)))

def div? (left right : Decimal96) : Option Decimal96 :=
  if right.coefficient = 0 then
    none
  else if left.coefficient = 0 then
    some zero
  else
    (extend? right.coefficient (left.coefficient / right.coefficient)
        (left.coefficient % right.coefficient) ((left.scale : Int) - right.scale) false).map
      fun (coefficient, scale, inexact) =>
        let (coefficient, scale) :=
          if inexact then stripZeros coefficient scale else (coefficient, scale)
        ⟨coefficient ≠ 0 && left.negative != right.negative, coefficient, scale⟩

/-- The remainder of division toward zero; it takes the sign of the dividend. -/
def rem? (left right : Decimal96) : Option Decimal96 :=
  if right.coefficient = 0 then
    none
  else if left.coefficient = 0 then
    some zero
  else
    let scale := max left.scale right.scale
    let dividend := left.coefficient * tenPow (scale - left.scale)
    let divisor := right.coefficient * tenPow (scale - right.scale)
    if dividend = divisor then
      some zero
    else if dividend < divisor then
      some left
    else
      let remainder := dividend % divisor
      some ⟨remainder ≠ 0 && left.negative, remainder, scale⟩

end Decimal96

/-! ## The arithmetic of expressions -/

inductive Operation where
  | multiply
  | divide
  | remainder
  | add
  | subtract
  deriving DecidableEq, Repr

namespace Operation

/-- The operation on decimals; nothing when the result is out of range or the divisor is zero. -/
def onDecimals? : Operation → Decimal96 → Decimal96 → Option Decimal96
  | .multiply => Decimal96.mul?
  | .divide => Decimal96.div?
  | .remainder => Decimal96.rem?
  | .add => Decimal96.add?
  | .subtract => Decimal96.sub?

def onNumbers : Operation → Number → Number → Number
  | .multiply => Number.mul
  | .divide => Number.div
  | .remainder => Number.rem
  | .add => Number.add
  | .subtract => Number.sub

/-- The operation through decimals, if they can hold both operands and the result. -/
def throughDecimals? (operation : Operation) (left right : Number) : Option Number := do
  let leftDecimal ← Decimal96.ofNumber? left
  let rightDecimal ← Decimal96.ofNumber? right
  let result ← operation.onDecimals? leftDecimal rightDecimal
  return result.toNumber

def apply (operation : Operation) (left right : Number) : Number :=
  (operation.throughDecimals? left right).getD (operation.onNumbers left right)

end Operation

end TreeQuery
