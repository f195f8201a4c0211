import TreeQuery.Number.Basic
import TreeQuery.Proofs.Number.Nearest

/-!
Operations without rounding.

A quotient that is a value is its own rounding, so an operation whose exact result is a value has
that value. Integers are values up to `2 ^ 53`, and up to there the operations on integers are
those of the integers.
-/

namespace TreeQuery

namespace Number

variable {units denominator whole : Nat} {negative : Bool} {left right : Number}
  {integer leftInteger rightInteger : Int}

/-- A quotient that is a value is not changed by rounding. -/
theorem round_mul (representable : Representable units) (isPositive : 0 < denominator)
    (negative : Bool) :
    round negative (units * denominator) denominator = .finite negative units representable := by
  have inside : InInterval units (units * denominator) denominator := by
    refine ⟨Nat.le_add_right _ _, Nat.le_add_right _ _, fun _ => ⟨?_, ?_⟩⟩
    · exact Nat.lt_add_of_pos_right (Nat.mul_pos (halfGapBelow_pos units) isPositive)
    · exact Nat.lt_add_of_pos_right (Nat.mul_pos (spacing_pos units) isPositive)
  exact inside.round_eq isPositive representable negative

theorem round_one (representable : Representable units) (negative : Bool) :
    round negative units 1 = .finite negative units representable := by
  rw [← round_mul representable Nat.one_pos negative, Nat.mul_one]

/-! ## Signs -/

theorem signedUnits_zero (negative : Bool) : signedUnits negative 0 = 0 := by
  cases negative <;> rfl

theorem ne_zero_of_signedUnits {negative : Bool} {units : Nat}
    (notZero : signedUnits negative units ≠ 0) : units ≠ 0 := by
  intro isZero
  apply notZero
  rw [isZero, signedUnits_zero]

theorem natAbs_signedUnits (negative : Bool) (units : Nat) :
    (signedUnits negative units).natAbs = units := by
  cases negative <;> simp [signedUnits]

theorem signedUnits_natAbs (value : Int) :
    signedUnits (decide (value < 0)) value.natAbs = value := by
  simp only [signedUnits, decide_eq_true_eq]
  split <;> omega

theorem signedUnits_not (negative : Bool) (units : Nat) :
    signedUnits (!negative) units = -signedUnits negative units := by
  cases negative <;> simp [signedUnits]

theorem signedUnits_bne_mul (leftNegative rightNegative : Bool) (leftUnits rightUnits : Nat) :
    signedUnits (leftNegative != rightNegative) (leftUnits * rightUnits) =
      signedUnits leftNegative leftUnits * signedUnits rightNegative rightUnits := by
  cases leftNegative <;> cases rightNegative <;>
    simp only [signedUnits, bne_self_eq_false, Bool.true_bne, Bool.false_bne, Bool.not_false,
      Bool.false_eq_true, if_true, if_false, Int.natCast_mul, Int.neg_mul, Int.mul_neg, Int.neg_neg]

theorem signedUnits_mul (negative : Bool) (units count : Nat) :
    signedUnits negative (units * count) = signedUnits negative units * count := by
  cases negative <;>
    simp only [signedUnits, Bool.false_eq_true, if_true, if_false, Int.natCast_mul, Int.neg_mul]

/-- Magnitude and sign of a quotient without remainder. -/
theorem signedUnits_quotient {leftNegative rightNegative : Bool} {dividend divisor : Nat}
    (notZero : signedUnits rightNegative divisor ≠ 0)
    (isProduct : signedUnits rightNegative divisor * integer = signedUnits leftNegative dividend) :
    dividend = divisor * integer.natAbs ∧
      signedUnits (leftNegative != rightNegative) integer.natAbs = integer := by
  have magnitude : dividend = divisor * integer.natAbs := by
    rw [← natAbs_signedUnits leftNegative dividend, ← isProduct, Int.natAbs_mul,
      natAbs_signedUnits]
  refine ⟨magnitude, Int.eq_of_mul_eq_mul_left notZero ?_⟩
  rw [← signedUnits_bne_mul, ← magnitude, isProduct]
  cases leftNegative <;> cases rightNegative <;> rfl

/-- The remainder of division toward zero has the sign of the dividend. -/
theorem signedUnits_mod (negative divisorNegative : Bool) (units divisor : Nat) :
    signedUnits negative (units % divisor) =
      (signedUnits negative units).tmod (signedUnits divisorNegative divisor) := by
  cases negative <;> cases divisorNegative <;>
    simp only [signedUnits, Int.ofNat_tmod, Int.neg_tmod, Int.tmod_neg, if_true, if_neg,
      Bool.false_eq_true, not_false_iff]

/-- Adding no units, with any sign. -/
theorem add_noUnits (representable : Representable units) (notZero : units ≠ 0)
    (negative zeroNegative : Bool) {noUnits : Representable (0 * unitsPerOne)} :
    (finite negative units representable).add (.finite zeroNegative (0 * unitsPerOne) noUnits) =
      .finite negative units representable := by
  have sum : signedUnits negative units + signedUnits zeroNegative (0 * unitsPerOne) =
      signedUnits negative units := by
    rw [Nat.zero_mul, signedUnits_zero, Int.add_zero]
  have remains : signedUnits negative units ≠ 0 := fun isZero =>
    notZero (by rw [← natAbs_signedUnits negative units, isZero, Int.natAbs_zero])
  have sign : decide (signedUnits negative units < 0) = negative := by
    cases negative <;> simp [signedUnits, Nat.pos_of_ne_zero notZero]
  rw [add, sum]
  simp only [if_neg remains, sign, natAbs_signedUnits]
  exact round_one representable negative

/-! ## Integers -/

theorem log2_mul_twoPow (isPositive : 0 < whole) (exponent : Nat) :
    (whole * twoPow exponent).log2 = whole.log2 + exponent := by
  refine log2_eq_of_bounds ?_ ?_
  · rw [twoPow_add]
    exact Nat.mul_le_mul_right _ (twoPow_log2_le isPositive)
  · rw [Nat.add_right_comm, twoPow_add]
    exact Nat.mul_lt_mul_of_pos_right (lt_twoPow_log2_succ whole) (twoPow_pos exponent)

/-- Every integer of at most 53 bits is a value, and so is the first one of 54 bits. -/
theorem representable_whole (small : whole ≤ twoPow 53) :
    Representable (whole * unitsPerOne) := by
  rcases Nat.eq_zero_or_pos whole with rfl | isPositive
  · rw [Nat.zero_mul]
    exact representable_zero
  · constructor
    · rw [spacing, unitsPerOne, log2_mul_twoPow isPositive]
      rcases Nat.eq_or_lt_of_le small with rfl | isBelow
      · rw [← twoPow_add]
        exact twoPow_dvd_twoPow (by decide +kernel)
      · have fewBits := log2_lt_of_lt_twoPow (by decide) isBelow
        exact Nat.dvd_mul_left_of_dvd (twoPow_dvd_twoPow (by omega)) whole
    · have within : twoPow 53 * unitsPerOne < unitsLimit := by decide +kernel
      exact Nat.lt_of_le_of_lt (Nat.mul_le_mul_right _ small) within

theorem ofNat_eq (small : whole ≤ twoPow 53) (negative : Bool) :
    ofNat negative whole =
      .finite negative (whole * unitsPerOne) (representable_whole small) := by
  rw [ofNat, round_one (representable_whole small)]

/-- A value equal to an integer. Zero is so with either sign. -/
inductive IsInteger : Number → Int → Prop where
  | whole {negative : Bool} {whole : Nat} (representable : Representable (whole * unitsPerOne)) :
      IsInteger (.finite negative (whole * unitsPerOne) representable)
        (signedUnits negative whole)

theorem isInteger_round (small : whole ≤ twoPow 53) (isPositive : 0 < denominator)
    (negative : Bool) :
    (round negative (whole * unitsPerOne * denominator) denominator).IsInteger
      (signedUnits negative whole) := by
  rw [round_mul (representable_whole small) isPositive]
  exact .whole _

theorem isInteger_ofInt (small : integer.natAbs ≤ twoPow 53) :
    (ofInt integer).IsInteger integer := by
  have found := isInteger_round small Nat.one_pos (decide (integer < 0))
  rw [signedUnits_natAbs, Nat.mul_one] at found
  exact found

theorem mul_unitsPerOne_ne_zero (notZero : signedUnits negative whole ≠ 0) :
    whole * unitsPerOne ≠ 0 :=
  Nat.mul_ne_zero (ne_zero_of_signedUnits notZero) (Nat.ne_of_gt unitsPerOne_pos)

theorem isInteger_zero (negative : Bool) : (zero negative).IsInteger 0 := by
  have found := isInteger_round (Nat.zero_le (twoPow 53)) Nat.one_pos negative
  rw [Nat.zero_mul, Nat.zero_mul, round_one representable_zero, signedUnits_zero] at found
  exact found

theorem IsInteger.unique (isLeft : left.IsInteger integer) (isRight : right.IsInteger integer) :
    left.equal right = true := by
  cases isLeft with
  | whole =>
      generalize same : signedUnits _ _ = value at isRight
      cases isRight with
      | whole => simp only [equal, signedUnits_mul, same, beq_self_eq_true]

/-! ## Operations on integers -/

theorem IsInteger.neg (isInteger : left.IsInteger integer) : left.neg.IsInteger (-integer) := by
  cases isInteger with
  | whole representable =>
      rw [← signedUnits_not]
      exact .whole representable

theorem IsInteger.add (isLeft : left.IsInteger leftInteger) (isRight : right.IsInteger rightInteger)
    (small : (leftInteger + rightInteger).natAbs ≤ twoPow 53) :
    (left.add right).IsInteger (leftInteger + rightInteger) := by
  cases isLeft with
  | whole =>
      cases isRight with
      | whole =>
          simp only [Number.add]
          rw [signedUnits_mul, signedUnits_mul, ← Int.add_mul]
          generalize signedUnits _ _ + signedUnits _ _ = sum at small ⊢
          have oneIsPositive : (0 : Int) < unitsPerOne := Int.natCast_pos.mpr unitsPerOne_pos
          split
          · rename_i isZero
            rcases Int.mul_eq_zero.mp isZero with rfl | noUnits
            · exact isInteger_zero _
            · omega
          · have found := isInteger_ofInt small
            have sameSign : (sum * unitsPerOne < 0) = (sum < 0) :=
              propext (Int.mul_neg_iff.trans (by omega))
            simp only [sameSign, Int.natAbs_mul, Int.natAbs_natCast]
            exact found

theorem IsInteger.sub (isLeft : left.IsInteger leftInteger) (isRight : right.IsInteger rightInteger)
    (small : (leftInteger - rightInteger).natAbs ≤ twoPow 53) :
    (left.sub right).IsInteger (leftInteger - rightInteger) := by
  rw [Int.sub_eq_add_neg] at small ⊢
  exact isLeft.add isRight.neg small

theorem IsInteger.mul (isLeft : left.IsInteger leftInteger) (isRight : right.IsInteger rightInteger)
    (small : (leftInteger * rightInteger).natAbs ≤ twoPow 53) :
    (left.mul right).IsInteger (leftInteger * rightInteger) := by
  cases isLeft with
  | whole =>
      cases isRight with
      | whole =>
          rw [← signedUnits_bne_mul] at small ⊢
          rw [natAbs_signedUnits] at small
          simp only [Number.mul]
          rw [Nat.mul_mul_mul_comm, ← Nat.mul_assoc]
          exact isInteger_round small unitsPerOne_pos _

/-- Division of a multiple of the divisor. -/
theorem IsInteger.div (isLeft : left.IsInteger (rightInteger * integer))
    (isRight : right.IsInteger rightInteger) (notZero : rightInteger ≠ 0)
    (small : integer.natAbs ≤ twoPow 53) : (left.div right).IsInteger integer := by
  generalize isProduct : rightInteger * integer = product at isLeft
  cases isLeft with
  | @whole leftNegative dividend =>
      cases isRight with
      | @whole rightNegative divisor =>
          obtain ⟨magnitude, sign⟩ := signedUnits_quotient notZero isProduct
          have notNull := mul_unitsPerOne_ne_zero notZero
          have scaled : dividend * unitsPerOne * unitsPerOne =
              integer.natAbs * unitsPerOne * (divisor * unitsPerOne) := by
            rw [magnitude, Nat.mul_comm divisor, Nat.mul_right_comm _ divisor, ← Nat.mul_assoc]
          have found := isInteger_round small (Nat.pos_of_ne_zero notNull)
            (leftNegative != rightNegative)
          rw [sign, ← scaled] at found
          simp only [Number.div, if_neg notNull]
          exact found

theorem IsInteger.rem (isLeft : left.IsInteger leftInteger) (isRight : right.IsInteger rightInteger)
    (notZero : rightInteger ≠ 0) (small : (leftInteger.tmod rightInteger).natAbs ≤ twoPow 53) :
    (left.rem right).IsInteger (leftInteger.tmod rightInteger) := by
  cases isLeft with
  | whole =>
      cases isRight with
      | whole =>
          rw [← signedUnits_mod] at small ⊢
          rw [natAbs_signedUnits] at small
          have found := isInteger_round small Nat.one_pos
          simp only [Nat.mul_one] at found
          simp only [Number.rem, if_neg (mul_unitsPerOne_ne_zero notZero), Nat.mul_mod_mul_right]
          exact found _

end Number

end TreeQuery
