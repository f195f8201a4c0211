/-!
The numbers of a document: binary64 values, held exactly.

Every finite binary64 value is a whole multiple of the smallest positive one, so a finite value is
a sign and a count of such units. Arithmetic is done on the counts without loss and rounded once,
to the nearest value and to the even significand on a tie.
-/

namespace TreeQuery

/-! ## Powers of the two bases -/

def twoPow (exponent : Nat) : Nat :=
  Nat.pow 2 exponent

def tenPow (exponent : Nat) : Nat :=
  Nat.pow 10 exponent

theorem twoPow_pos (exponent : Nat) : 0 < twoPow exponent :=
  Nat.pow_pos (by decide)

theorem tenPow_pos (exponent : Nat) : 0 < tenPow exponent :=
  Nat.pow_pos (by decide)

/-! ## Rounding

A quotient halfway between two whole numbers has two nearest ones, so the rule for it is a
parameter. Every number format of this library rounds through `roundedQuotient`.
-/

/-- Which of two equally near whole numbers a rounding takes. -/
inductive Tie where
  | toEven
  | up
  deriving DecidableEq, Repr

/-- The whole number nearest to `numerator / denominator`. -/
def roundedQuotient (tie : Tie) (numerator denominator : Nat) : Nat :=
  let quotient := numerator / denominator
  let remainder := numerator % denominator
  if 2 * remainder < denominator then
    quotient
  else if denominator < 2 * remainder then
    quotient + 1
  else
    match tie with
    | .toEven => quotient + quotient % 2
    | .up => quotient + 1

/-- A quotient without remainder is its own rounding. -/
theorem roundedQuotient_mul (tie : Tie) (quotient : Nat) {denominator : Nat}
    (positive : 0 < denominator) :
    roundedQuotient tie (quotient * denominator) denominator = quotient := by
  simp [roundedQuotient, Nat.mul_div_cancel _ positive, positive]

theorem quotient_le_roundedQuotient (tie : Tie) (numerator denominator : Nat) :
    numerator / denominator ≤ roundedQuotient tie numerator denominator := by
  simp only [roundedQuotient]
  split
  · omega
  · split
    · omega
    · cases tie <;> simp only <;> omega

theorem roundedQuotient_le (tie : Tie) (numerator denominator : Nat) :
    roundedQuotient tie numerator denominator ≤ numerator / denominator + 1 := by
  simp only [roundedQuotient]
  split
  · omega
  · split
    · omega
    · cases tie <;> simp only <;> omega

/-! ## Values -/

namespace Number

/-- The distance between neighbouring values in the binade of `units`, counted in units: a
significand has 53 bits, so a longer count keeps only multiples of this. -/
def spacing (units : Nat) : Nat :=
  twoPow (units.log2 - 52)

def unitsPerOne : Nat :=
  twoPow 1074

/-- The first count of units that is too large for a finite value. -/
def unitsLimit : Nat :=
  twoPow 2098

/-- A count of units that a 53-bit significand and the exponent range can hold. -/
def Representable (units : Nat) : Prop :=
  spacing units ∣ units ∧ units < unitsLimit

instance (units : Nat) : Decidable (Representable units) :=
  inferInstanceAs (Decidable (_ ∧ _))

end Number

/-- A binary64 value. Zero keeps its sign. -/
inductive Number where
  | nan
  | infinite (negative : Bool)
  | finite (negative : Bool) (units : Nat) (representable : Number.Representable units)
  deriving DecidableEq

namespace Number

theorem unitsPerOne_pos : 0 < unitsPerOne :=
  twoPow_pos 1074

theorem unitsLimit_pos : 0 < unitsLimit :=
  twoPow_pos 2098

theorem representable_zero : Representable 0 :=
  ⟨Nat.dvd_zero _, unitsLimit_pos⟩

def zero (negative : Bool) : Number :=
  .finite negative 0 representable_zero

instance : Inhabited Number :=
  ⟨zero false⟩

/-- The finite value of a count of units, or the infinity when the count is out of range. -/
def ofUnits (negative : Bool) (units : Nat) : Number :=
  if representable : Representable units then
    .finite negative units representable
  else
    .infinite negative

/-- The count of units nearest to `numerator / denominator` among those with a 53-bit
significand. -/
def roundedUnits (numerator denominator : Nat) : Nat :=
  let step := spacing (numerator / denominator)
  roundedQuotient .toEven numerator (denominator * step) * step

/-- The value nearest to `numerator / denominator` units. -/
def round (negative : Bool) (numerator denominator : Nat) : Number :=
  ofUnits negative (roundedUnits numerator denominator)

def ofNat (negative : Bool) (value : Nat) : Number :=
  round negative (value * unitsPerOne) 1

/-- The value nearest to an integer; zero is positive. -/
def ofInt (value : Int) : Number :=
  ofNat (value < 0) value.natAbs

/-- The signed count of units of a finite value. -/
def signedUnits (negative : Bool) (units : Nat) : Int :=
  if negative then -(units : Int) else units

def isFinite : Number → Bool
  | .finite .. => true
  | _ => false

def isZero : Number → Bool
  | .finite _ units _ => units == 0
  | _ => false

/-- True for finite values without a fractional part. -/
def isIntegral : Number → Bool
  | .finite _ units _ => units % unitsPerOne == 0
  | _ => false

/-- True for finite values of magnitude below a whole number. -/
def magnitudeBelow (bound : Nat) : Number → Bool
  | .finite _ units _ => decide (units < bound * unitsPerOne)
  | _ => false

/-- The integer part of a finite value, zero for the others. -/
def truncate : Number → Int
  | .finite negative units _ => signedUnits negative (units / unitsPerOne)
  | _ => 0

/-! ## Comparison

A NaN is not equal to anything and is not ordered. The two zeros are equal.
-/

/-- Equality of values: a NaN differs from itself and the zeros agree. -/
def equal : Number → Number → Bool
  | .nan, _ | _, .nan => false
  | .infinite leftNegative, .infinite rightNegative => leftNegative == rightNegative
  | .infinite _, .finite .. | .finite .., .infinite _ => false
  | .finite leftNegative leftUnits _, .finite rightNegative rightUnits _ =>
      signedUnits leftNegative leftUnits == signedUnits rightNegative rightUnits

def less : Number → Number → Bool
  | .nan, _ | _, .nan => false
  | .infinite leftNegative, .infinite rightNegative => leftNegative && !rightNegative
  | .infinite leftNegative, .finite .. => leftNegative
  | .finite .., .infinite rightNegative => !rightNegative
  | .finite leftNegative leftUnits _, .finite rightNegative rightUnits _ =>
      decide (signedUnits leftNegative leftUnits < signedUnits rightNegative rightUnits)

def lessOrEqual (left right : Number) : Bool :=
  left.less right || left.equal right

def isPositive (value : Number) : Bool :=
  (zero false).less value

/-! ## Arithmetic -/

def neg : Number → Number
  | .nan => .nan
  | .infinite negative => .infinite !negative
  | .finite negative units representable => .finite (!negative) units representable

/-- Exact addition, rounded once. Opposite values add up to positive zero. -/
def add : Number → Number → Number
  | .nan, _ | _, .nan => .nan
  | .infinite leftNegative, .infinite rightNegative =>
      if leftNegative == rightNegative then .infinite leftNegative else .nan
  | .infinite negative, .finite .. | .finite .., .infinite negative => .infinite negative
  | .finite leftNegative leftUnits _, .finite rightNegative rightUnits _ =>
      let sum := signedUnits leftNegative leftUnits + signedUnits rightNegative rightUnits
      if sum = 0 then
        zero (leftNegative && rightNegative)
      else
        round (sum < 0) sum.natAbs 1

def sub (left right : Number) : Number :=
  left.add right.neg

def mul : Number → Number → Number
  | .nan, _ | _, .nan => .nan
  | .infinite leftNegative, .infinite rightNegative => .infinite (leftNegative != rightNegative)
  | .infinite infiniteNegative, .finite negative units _
  | .finite negative units _, .infinite infiniteNegative =>
      if units = 0 then .nan else .infinite (infiniteNegative != negative)
  | .finite leftNegative leftUnits _, .finite rightNegative rightUnits _ =>
      round (leftNegative != rightNegative) (leftUnits * rightUnits) unitsPerOne

/-- Exact division, rounded once. A nonzero value over zero is infinite. -/
def div : Number → Number → Number
  | .nan, _ | _, .nan => .nan
  | .infinite _, .infinite _ => .nan
  | .infinite leftNegative, .finite rightNegative _ _ => .infinite (leftNegative != rightNegative)
  | .finite leftNegative _ _, .infinite rightNegative => zero (leftNegative != rightNegative)
  | .finite leftNegative leftUnits _, .finite rightNegative rightUnits _ =>
      if rightUnits = 0 then
        if leftUnits = 0 then .nan else .infinite (leftNegative != rightNegative)
      else
        round (leftNegative != rightNegative) (leftUnits * unitsPerOne) rightUnits

/-- The remainder of division toward zero; it takes the sign of the dividend. -/
def rem : Number → Number → Number
  | .nan, _ | _, .nan => .nan
  | .infinite _, _ => .nan
  | .finite negative units representable, .infinite _ => .finite negative units representable
  | .finite leftNegative leftUnits _, .finite _ rightUnits _ =>
      if rightUnits = 0 then .nan else round leftNegative (leftUnits % rightUnits) 1

/-- The nearest whole number, a half away from zero. -/
def roundWhole : Number → Number
  | .finite negative units _ => ofNat negative (roundedQuotient .up units unitsPerOne)
  | other => other

/-- A power by repeated squaring. Each product is rounded, so the order of the products is part
of the result. -/
def pow (base : Number) (exponent : Nat) : Number :=
  loop base exponent (ofNat false 1)
where
  loop (square : Number) (exponent : Nat) (product : Number) : Number :=
    if exponent = 0 then
      product
    else
      let product := if exponent % 2 = 1 then product.mul square else product
      if exponent / 2 = 0 then product else loop (square.mul square) (exponent / 2) product
  termination_by exponent

theorem neg_neg (value : Number) : value.neg.neg = value := by
  cases value <;> simp [neg]

end Number

end TreeQuery
