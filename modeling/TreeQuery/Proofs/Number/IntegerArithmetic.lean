import TreeQuery.Number.Decimal96
import TreeQuery.Proofs.Number.Exactness

/-!
Arithmetic on integers.

The decimal of an integer value has no places and the integer itself as its coefficient: the
significand is halved back to it. On decimals without places the operations are those of the
integers, and a decimal without places is the value of its integer again. So the way through the
decimals and the binary64 operation have the same result.
-/

namespace TreeQuery

namespace Decimal96

variable {value : Number} {left right : Decimal96} {coefficient : Nat} {negative : Bool}
  {integer leftInteger rightInteger : Int}

/-- A decimal equal to an integer, without places. Zero is so with either sign. -/
inductive IsInteger : Decimal96 → Int → Prop where
  | whole {negative : Bool} {coefficient : Nat} :
      IsInteger ⟨negative, coefficient, 0⟩ (Number.signedUnits negative coefficient)

theorem isInteger_natAbs (integer : Int) :
    IsInteger ⟨decide (integer < 0), integer.natAbs, 0⟩ integer := by
  have found := @IsInteger.whole (decide (integer < 0)) integer.natAbs
  rw [Number.signedUnits_natAbs] at found
  exact found

/-- A zero loses its sign in some operations. -/
theorem isInteger_of_sign (negative : Bool) (coefficient : Nat) :
    IsInteger ⟨decide (coefficient ≠ 0) && negative, coefficient, 0⟩
      (Number.signedUnits negative coefficient) := by
  rcases Nat.eq_zero_or_pos coefficient with rfl | isPositive
  · rw [Number.signedUnits_zero]
    exact isInteger_natAbs 0
  · rw [decide_eq_true (Nat.ne_of_gt isPositive), Bool.true_and]
    exact .whole

theorem isInteger_zero : zero.IsInteger 0 :=
  .whole

/-! ## Conversions -/

/-- Fives are worked off against the factors two of a coefficient that has as many. -/
theorem absorbFives_mul_twoPow (fives coefficient : Nat) (tens : Int) :
    absorbFives fives (coefficient * twoPow fives) tens = (coefficient, tens + fives) := by
  induction fives generalizing tens with
  | zero =>
      rw [absorbFives, twoPow]
      simp
  | succ fives induction =>
      have isEven : coefficient * twoPow (fives + 1) % 2 = 0 := by
        rw [Number.twoPow_succ, ← Nat.mul_assoc, Nat.mul_mod_left]
      have half : coefficient * twoPow (fives + 1) / 2 = coefficient * twoPow fives := by
        rw [Number.twoPow_succ, ← Nat.mul_assoc, Nat.mul_div_cancel _ (by decide)]
      rw [absorbFives, if_pos isEven, half, induction]
      congr 1
      omega

theorem ofScaled?_zero (negative : Bool) (coefficient : Nat) :
    ofScaled? negative coefficient 0 = some ⟨negative, coefficient, 0⟩ :=
  rfl

/-- A value with no more than 53 bits before the point has its fives worked off. -/
theorem ofNumber?_of_le {units fives : Nat} (representable : Number.Representable units)
    (negative : Bool) (notZero : units ≠ 0) (isFives : units.log2 - 52 + fives = 1074) :
    Decimal96.ofNumber? (.finite negative units representable) =
      ofScaled? negative (absorbFives fives (units / Number.spacing units) (-fives)).1
        (absorbFives fives (units / Number.spacing units) (-fives)).2 := by
  have isExponent : ((units.log2 - 52 : Nat) : Int) - 1074 = -fives := by omega
  simp only [Decimal96.ofNumber?, if_neg notZero, isExponent, Int.neg_neg, Int.toNat_natCast]
  rw [if_pos (by omega)]

theorem ofNumber?_twoPow (negative : Bool) :
    ofNumber? (.finite negative (twoPow 53 * Number.unitsPerOne)
      (Number.representable_whole (Nat.le_refl _))) = some ⟨negative, twoPow 53, 0⟩ := by
  cases negative <;> decide +kernel

/-- The decimal of an integer. Below `2 ^ 53`, the significand has the integer's bits and zeros
behind them, as many as there are fives to work off. -/
theorem ofNumber?_whole (small : coefficient ≤ twoPow 53)
    (representable : Number.Representable (coefficient * Number.unitsPerOne)) (negative : Bool) :
    ofNumber? (.finite negative (coefficient * Number.unitsPerOne) representable) =
      some ⟨negative, coefficient, 0⟩ := by
  rcases Nat.eq_zero_or_pos coefficient with rfl | isPositive
  · simp only [ofNumber?, Nat.zero_mul, if_true]
  · rcases Nat.eq_or_lt_of_le small with rfl | isBelow
    · exact ofNumber?_twoPow negative
    · have fewBits := Number.log2_lt_of_lt_twoPow (by decide) isBelow
      have bits := Number.log2_mul_twoPow isPositive 1074
      have split : Number.unitsPerOne = twoPow (52 - coefficient.log2) *
          twoPow (coefficient.log2 + 1074 - 52) := by
        rw [Number.unitsPerOne, ← Number.twoPow_add,
          show 52 - coefficient.log2 + (coefficient.log2 + 1074 - 52) = 1074 by omega]
      rw [← Number.unitsPerOne] at bits
      have isFives : (coefficient * Number.unitsPerOne).log2 - 52 + (52 - coefficient.log2) =
          1074 := by omega
      rw [ofNumber?_of_le representable negative
        (Nat.ne_of_gt (Nat.mul_pos isPositive Number.unitsPerOne_pos)) isFives, Number.spacing,
        bits, split, ← Nat.mul_assoc, Nat.mul_div_cancel _ (twoPow_pos _),
        absorbFives_mul_twoPow, Int.add_left_neg]
      exact ofScaled?_zero negative coefficient

theorem exists_ofNumber? (isInteger : value.IsInteger integer)
    (small : integer.natAbs ≤ twoPow 53) :
    ∃ decimal, Decimal96.ofNumber? value = some decimal ∧ decimal.IsInteger integer := by
  cases isInteger with
  | whole representable =>
      rw [Number.natAbs_signedUnits] at small
      exact ⟨_, ofNumber?_whole small representable _, .whole⟩

theorem IsInteger.toNumber (isInteger : left.IsInteger integer)
    (small : integer.natAbs ≤ twoPow 53) : left.toNumber.IsInteger integer := by
  cases isInteger with
  | whole =>
      rw [Decimal96.toNumber, if_pos rfl]
      exact Number.isInteger_ofInt small

/-! ## Operations -/

/-- A decimal in range is not rounded. -/
theorem fit?_of_lt (negative : Bool) {scale : Nat} (within : coefficient < limit)
    (fewPlaces : scale ≤ maxScale) :
    fit? negative coefficient scale = some ⟨negative, coefficient, scale⟩ := by
  have exact : roundedQuotient .toEven coefficient (tenPow (scale - scale)) = coefficient := by
    have divided := roundedQuotient_mul .toEven coefficient Nat.one_pos
    rw [Nat.mul_one] at divided
    rw [Nat.sub_self]
    exact divided
  rw [fit?, Nat.min_eq_left fewPlaces, fit?.search.eq_def]
  simp only [exact, if_pos within]

theorem IsInteger.neg (isInteger : left.IsInteger integer) : left.neg.IsInteger (-integer) := by
  cases isInteger with
  | whole =>
      rw [← Number.signedUnits_not]
      exact .whole

theorem IsInteger.add? (isLeft : left.IsInteger leftInteger)
    (isRight : right.IsInteger rightInteger)
    (within : (leftInteger + rightInteger).natAbs < limit) :
    ∃ sum, left.add? right = some sum ∧ sum.IsInteger (leftInteger + rightInteger) := by
  cases isLeft with
  | @whole leftNegative leftCoefficient =>
      cases isRight with
      | @whole rightNegative rightCoefficient =>
          simp only [Decimal96.add?]
          split
          · rename_i isZero
            rw [isZero, Number.signedUnits_zero, Int.zero_add]
            exact ⟨_, rfl, .whole⟩
          · split
            · rename_i isZero
              rw [isZero, Number.signedUnits_zero, Int.add_zero]
              exact ⟨_, rfl, .whole⟩
            · have asInteger (negative : Bool) (coefficient : Nat) :
                  signedAt ⟨negative, coefficient, 0⟩ 0 =
                    Number.signedUnits negative coefficient := by
                simp [signedAt, Number.signedUnits, tenPow]
              simp only [Nat.max_self, asInteger]
              exact ⟨_, fit?_of_lt _ within (Nat.zero_le _), isInteger_natAbs _⟩

theorem IsInteger.sub? (isLeft : left.IsInteger leftInteger)
    (isRight : right.IsInteger rightInteger)
    (within : (leftInteger - rightInteger).natAbs < limit) :
    ∃ difference, left.sub? right = some difference ∧
      difference.IsInteger (leftInteger - rightInteger) := by
  rw [Int.sub_eq_add_neg] at within ⊢
  exact isLeft.add? isRight.neg within

theorem IsInteger.mul? (isLeft : left.IsInteger leftInteger)
    (isRight : right.IsInteger rightInteger)
    (within : (leftInteger * rightInteger).natAbs < limit) :
    ∃ product, left.mul? right = some product ∧ product.IsInteger (leftInteger * rightInteger) := by
  cases isLeft with
  | @whole leftNegative leftCoefficient =>
      cases isRight with
      | @whole rightNegative rightCoefficient =>
          simp only [Decimal96.mul?]
          rw [← Number.signedUnits_bne_mul] at within ⊢
          rw [Number.natAbs_signedUnits] at within
          split
          · rename_i isZero
            rw [Nat.mul_eq_zero.mpr isZero, Number.signedUnits_zero]
            exact ⟨_, rfl, isInteger_zero⟩
          · rename_i notZero
            rw [Nat.add_zero, fit?_of_lt _ within (Nat.zero_le _)]
            have isKept := fun isZero => notZero (Nat.mul_eq_zero.mp isZero)
            exact ⟨_, congrArg some (if_neg fun isSmall => isKept isSmall.1), .whole⟩

theorem IsInteger.div? (isLeft : left.IsInteger (rightInteger * integer))
    (isRight : right.IsInteger rightInteger) (notZero : rightInteger ≠ 0) :
    ∃ quotient, left.div? right = some quotient ∧ quotient.IsInteger integer := by
  generalize isProduct : rightInteger * integer = product at isLeft
  cases isLeft with
  | @whole leftNegative dividend =>
      cases isRight with
      | @whole rightNegative divisor =>
          have notNull : divisor ≠ 0 := Number.ne_zero_of_signedUnits notZero
          obtain ⟨rfl, sign⟩ := Number.signedUnits_quotient notZero isProduct
          have isQuotient : divisor * integer.natAbs / divisor = integer.natAbs :=
            Nat.mul_div_cancel_left _ (Nat.pos_of_ne_zero notNull)
          simp only [Decimal96.div?, if_neg notNull, isQuotient, Nat.mul_mod_right]
          split
          · rename_i isZero
            rw [← sign, (Nat.mul_eq_zero.mp isZero).resolve_left notNull, Number.signedUnits_zero]
            exact ⟨_, rfl, isInteger_zero⟩
          · have found := isInteger_of_sign (leftNegative != rightNegative) integer.natAbs
            rw [sign] at found
            rw [extend?, if_pos ⟨rfl, Int.le_refl _⟩]
            exact ⟨_, rfl, found⟩

theorem IsInteger.rem? (isLeft : left.IsInteger leftInteger)
    (isRight : right.IsInteger rightInteger) (notZero : rightInteger ≠ 0) :
    ∃ remainder, left.rem? right = some remainder ∧
      remainder.IsInteger (leftInteger.tmod rightInteger) := by
  cases isLeft with
  | @whole leftNegative dividend =>
      cases isRight with
      | @whole rightNegative divisor =>
          have notNull : divisor ≠ 0 := Number.ne_zero_of_signedUnits notZero
          rw [← Number.signedUnits_mod]
          have noShift (coefficient : Nat) : coefficient * tenPow (0 - 0) = coefficient :=
            Nat.mul_one coefficient
          simp only [Decimal96.rem?, if_neg notNull, Nat.max_self, noShift]
          split
          · rename_i isZero
            rw [isZero, Nat.zero_mod, Number.signedUnits_zero]
            exact ⟨_, rfl, isInteger_zero⟩
          · split
            · rename_i isEqual
              rw [isEqual, Nat.mod_self, Number.signedUnits_zero]
              exact ⟨_, rfl, isInteger_zero⟩
            · split
              · rename_i isLess
                rw [Nat.mod_eq_of_lt isLess]
                exact ⟨_, rfl, .whole⟩
              · exact ⟨_, rfl, isInteger_of_sign _ _⟩

end Decimal96

namespace Operation

variable {operation : Operation} {left right : Number} {leftInteger rightInteger result : Int}

/-- The result of an operation on two integers, where it is an integer again: sums, differences and
products up to `2 ^ 53`, quotients without remainder, and all remainders. -/
inductive IsExact : Operation → Int → Int → Int → Prop where
  | add {left right : Int} (small : (left + right).natAbs ≤ twoPow 53) :
      IsExact .add left right (left + right)
  | subtract {left right : Int} (small : (left - right).natAbs ≤ twoPow 53) :
      IsExact .subtract left right (left - right)
  | multiply {left right : Int} (small : (left * right).natAbs ≤ twoPow 53) :
      IsExact .multiply left right (left * right)
  | divide {quotient right : Int} (notZero : right ≠ 0) :
      IsExact .divide (right * quotient) right quotient
  /-- The remainder has the sign of the dividend. -/
  | remainder {left right : Int} (notZero : right ≠ 0) :
      IsExact .remainder left right (left.tmod right)

theorem IsExact.small (exact : operation.IsExact leftInteger rightInteger result)
    (leftSmall : leftInteger.natAbs ≤ twoPow 53) : result.natAbs ≤ twoPow 53 := by
  cases exact with
  | add small => exact small
  | subtract small => exact small
  | multiply small => exact small
  | divide notZero =>
      rw [Int.natAbs_mul] at leftSmall
      exact Nat.le_trans (Nat.le_mul_of_pos_left _ (Int.natAbs_pos.mpr notZero)) leftSmall
  | remainder =>
      rw [Int.natAbs_tmod]
      exact Nat.le_trans (Nat.mod_le _ _) leftSmall

theorem IsExact.onNumbers (exact : operation.IsExact leftInteger rightInteger result)
    (isLeft : left.IsInteger leftInteger) (isRight : right.IsInteger rightInteger)
    (leftSmall : leftInteger.natAbs ≤ twoPow 53) :
    (operation.onNumbers left right).IsInteger result := by
  have small := exact.small leftSmall
  cases exact with
  | add => exact isLeft.add isRight small
  | subtract => exact isLeft.sub isRight small
  | multiply => exact isLeft.mul isRight small
  | divide notZero => exact isLeft.div isRight notZero small
  | remainder notZero => exact isLeft.rem isRight notZero small

theorem IsExact.onDecimals? (exact : operation.IsExact leftInteger rightInteger result)
    {left right : Decimal96} (isLeft : left.IsInteger leftInteger)
    (isRight : right.IsInteger rightInteger) (leftSmall : leftInteger.natAbs ≤ twoPow 53) :
    ∃ decimal, operation.onDecimals? left right = some decimal ∧ decimal.IsInteger result := by
  have within : result.natAbs < Decimal96.limit :=
    Nat.lt_of_le_of_lt (exact.small leftSmall) (by decide +kernel)
  cases exact with
  | add => exact isLeft.add? isRight within
  | subtract => exact isLeft.sub? isRight within
  | multiply => exact isLeft.mul? isRight within
  | divide notZero => exact isLeft.div? isRight notZero
  | remainder notZero => exact isLeft.rem? isRight notZero

/-- On integers up to `2 ^ 53`, an operation whose result is an integer in this range has this
result. Both ways lead to it: decimals hold the operands and the result, and the binary64 operation
does not round. -/
theorem apply_isInteger (leftSmall : leftInteger.natAbs ≤ twoPow 53)
    (rightSmall : rightInteger.natAbs ≤ twoPow 53) (isLeft : left.IsInteger leftInteger)
    (isRight : right.IsInteger rightInteger)
    (exact : operation.IsExact leftInteger rightInteger result) :
    (operation.apply left right).IsInteger result ∧
      (operation.onNumbers left right).IsInteger result ∧
        ∃ value, operation.throughDecimals? left right = some value ∧ value.IsInteger result ∧
          value.equal (operation.onNumbers left right) = true := by
  obtain ⟨leftDecimal, leftFound, leftIs⟩ := Decimal96.exists_ofNumber? isLeft leftSmall
  obtain ⟨rightDecimal, rightFound, rightIs⟩ := Decimal96.exists_ofNumber? isRight rightSmall
  obtain ⟨decimal, found, isResult⟩ := exact.onDecimals? leftIs rightIs leftSmall
  have through : operation.throughDecimals? left right = some decimal.toNumber := by
    simp only [throughDecimals?, leftFound, rightFound, found, Option.bind_eq_bind,
      Option.bind_some, Option.pure_def]
  have isValue := isResult.toNumber (exact.small leftSmall)
  have isNumber := exact.onNumbers isLeft isRight leftSmall
  refine ⟨?_, isNumber, decimal.toNumber, through, isValue, isValue.unique isNumber⟩
  rw [apply, through, Option.getD_some]
  exact isValue

/-- The largest dividend, negative: the remainder takes its sign. -/
theorem apply_isInteger_remainder :
    (-9007199254740992 : Int).natAbs ≤ twoPow 53 ∧ (3 : Int).natAbs ≤ twoPow 53 ∧
      (Number.ofInt (-9007199254740992)).IsInteger (-9007199254740992) ∧
        (Number.ofInt 3).IsInteger 3 ∧ remainder.IsExact (-9007199254740992) 3 (-2) ∧
          (remainder.apply (.ofInt (-9007199254740992)) (.ofInt 3)).IsInteger (-2) := by
  have leftSmall : (-9007199254740992 : Int).natAbs ≤ twoPow 53 := by decide +kernel
  have rightSmall : (3 : Int).natAbs ≤ twoPow 53 := by decide +kernel
  have isLeft := Number.isInteger_ofInt leftSmall
  have isRight := Number.isInteger_ofInt rightSmall
  have exact : remainder.IsExact (-9007199254740992) 3 (-2) := .remainder (by decide)
  exact ⟨leftSmall, rightSmall, isLeft, isRight, exact,
    (apply_isInteger leftSmall rightSmall isLeft isRight exact).1⟩

end Operation

end TreeQuery
