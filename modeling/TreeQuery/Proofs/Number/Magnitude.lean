import TreeQuery.Number.Decimal96
import TreeQuery.Proofs.Number.Exactness

/-!
Lower bounds of rounded results.

A quotient that reaches a power of two is not rounded below it. So lower bounds by powers of two
go through the operations on positive values, and a decimal that is not zero keeps its sign as a
binary64 value, however often it is rounded on the way.
-/

namespace TreeQuery

namespace Number

variable {exponent other low high numerator denominator units : Nat} {left right value : Number}

/-- Rounding does not go below a power of two that the quotient reaches. -/
theorem twoPow_le_roundedUnits (isPositive : 0 < denominator)
    (bound : twoPow exponent * denominator ≤ numerator) :
    twoPow exponent ≤ roundedUnits numerator denominator := by
  have reached : twoPow exponent ≤ numerator / denominator :=
    (Nat.le_div_iff_mul_le isPositive).mpr bound
  have notZero : numerator / denominator ≠ 0 :=
    Nat.ne_of_gt (Nat.lt_of_lt_of_le (twoPow_pos exponent) reached)
  have starts := twoPow_log2_le (Nat.pos_of_ne_zero notZero)
  have inOrder : exponent ≤ (numerator / denominator).log2 := (Nat.le_log2 notZero).mpr reached
  have onGrid : twoPow (numerator / denominator).log2 ≤ numerator / denominator /
      spacing (numerator / denominator) * spacing (numerator / denominator) := by
    have split : twoPow (numerator / denominator).log2 =
        twoPow ((numerator / denominator).log2 - ((numerator / denominator).log2 - 52)) *
          spacing (numerator / denominator) := by
      rw [spacing, ← twoPow_add, Nat.sub_add_cancel (Nat.sub_le _ _)]
    rw [split] at starts ⊢
    exact Nat.mul_le_mul_right _ ((Nat.le_div_iff_mul_le (spacing_pos _)).mpr starts)
  have rounded := quotient_le_roundedQuotient .toEven numerator
    (denominator * spacing (numerator / denominator))
  rw [← Nat.div_div_eq_div_mul] at rounded
  calc twoPow exponent ≤ twoPow (numerator / denominator).log2 :=
        twoPow_le_twoPow inOrder
    _ ≤ _ := onGrid
    _ ≤ roundedUnits numerator denominator := Nat.mul_le_mul_right _ rounded

theorem neg_round (negative : Bool) (numerator denominator : Nat) :
    (round negative numerator denominator).neg = round (!negative) numerator denominator := by
  simp only [round, ofUnits]
  split <;> rfl

/-! ## Lower bounds -/

/-- A value that is not below zero and has no minus sign. -/
inductive IsMagnitude : Number → Prop where
  | finite {units : Nat} (representable : Representable units) :
      IsMagnitude (.finite false units representable)
  | infinite : IsMagnitude (.infinite false)

/-- A positive value of at least a power of two units. -/
inductive AtLeast (exponent : Nat) : Number → Prop where
  | finite {units : Nat} (representable : Representable units) (bound : twoPow exponent ≤ units) :
      AtLeast exponent (.finite false units representable)
  | infinite : AtLeast exponent (.infinite false)

theorem isMagnitude_round (numerator denominator : Nat) :
    (round false numerator denominator).IsMagnitude := by
  simp only [round, ofUnits]
  split
  · exact .finite _
  · exact .infinite

theorem atLeast_round (isPositive : 0 < denominator)
    (bound : twoPow exponent * denominator ≤ numerator) :
    (round false numerator denominator).AtLeast exponent := by
  simp only [round, ofUnits]
  split
  · exact .finite _ (twoPow_le_roundedUnits isPositive bound)
  · exact .infinite

/-- A whole number above zero is one at least. -/
theorem atLeast_ofNat {count : Nat} (isPositive : 0 < count) :
    (ofNat false count).AtLeast 1074 := by
  refine atLeast_round Nat.one_pos ?_
  rw [Nat.mul_one]
  exact Nat.le_mul_of_pos_left _ isPositive

theorem AtLeast.isZero_eq (atLeast : value.AtLeast exponent) : value.isZero = false := by
  cases atLeast with
  | finite _ bound =>
      exact beq_false_of_ne (Nat.ne_of_gt (Nat.lt_of_lt_of_le (twoPow_pos exponent) bound))
  | infinite => rfl

theorem AtLeast.add (isMagnitude : left.IsMagnitude) (atLeast : right.AtLeast exponent) :
    (left.add right).AtLeast exponent := by
  cases isMagnitude with
  | infinite => cases atLeast <;> exact .infinite
  | @finite units =>
      cases atLeast with
      | infinite => exact .infinite
      | @finite others _ bound =>
          have positive : 0 < others := Nat.lt_of_lt_of_le (twoPow_pos exponent) bound
          have sum : signedUnits false units + signedUnits false others = (units + others : Nat) :=
            (Int.natCast_add units others).symm
          simp only [Number.add, sum]
          rw [if_neg (by omega), decide_eq_false (by omega), Int.natAbs_natCast]
          exact atLeast_round Nat.one_pos (by omega)

theorem AtLeast.mul (isLeft : left.AtLeast low) (isRight : right.AtLeast high)
    (within : exponent + 1074 ≤ low + high) : (left.mul right).AtLeast exponent := by
  cases isLeft with
  | infinite =>
      cases isRight with
      | infinite => exact .infinite
      | finite _ bound =>
          have notZero := Nat.ne_of_gt (Nat.lt_of_lt_of_le (twoPow_pos high) bound)
          rw [Number.mul, if_neg notZero]
          exact .infinite
  | finite _ bound =>
      cases isRight with
      | infinite =>
          have notZero := Nat.ne_of_gt (Nat.lt_of_lt_of_le (twoPow_pos low) bound)
          rw [Number.mul, if_neg notZero]
          exact .infinite
      | finite _ otherBound =>
          refine atLeast_round unitsPerOne_pos ?_
          calc twoPow exponent * unitsPerOne = twoPow (exponent + 1074) :=
                (twoPow_add exponent 1074).symm
            _ ≤ twoPow (low + high) := twoPow_le_twoPow within
            _ = twoPow low * twoPow high := twoPow_add low high
            _ ≤ _ := Nat.mul_le_mul bound otherBound

theorem AtLeast.div (isLeft : left.AtLeast low) {divisor : Nat}
    (representable : Representable divisor) (isPositive : 0 < divisor)
    (bound : divisor ≤ twoPow high) (within : exponent + high ≤ low + 1074) :
    (left.div (.finite false divisor representable)).AtLeast exponent := by
  cases isLeft with
  | infinite => exact .infinite
  | finite _ leftBound =>
      simp only [Number.div, if_neg (Nat.ne_of_gt isPositive)]
      refine atLeast_round isPositive ?_
      calc twoPow exponent * divisor ≤ twoPow exponent * twoPow high :=
            Nat.mul_le_mul_left _ bound
        _ = twoPow (exponent + high) := (twoPow_add exponent high).symm
        _ ≤ twoPow (low + 1074) := twoPow_le_twoPow within
        _ = twoPow low * unitsPerOne := twoPow_add low 1074
        _ ≤ _ := Nat.mul_le_mul_right _ leftBound

/-- A half and more is rounded to one and more. -/
theorem AtLeast.roundWhole (atLeast : value.AtLeast 1073) : value.roundWhole.AtLeast 1074 := by
  cases atLeast with
  | infinite => exact .infinite
  | @finite units _ bound =>
      refine atLeast_ofNat ?_
      have half : unitsPerOne ≤ 2 * units := by
        rw [unitsPerOne, twoPow_succ]
        omega
      have split : unitsPerOne * (units / unitsPerOne) + units % unitsPerOne = units :=
        Nat.div_add_mod units unitsPerOne
      rw [roundedQuotient]
      rcases Nat.eq_zero_or_pos (units / unitsPerOne) with isZero | isPositive
      · rw [isZero, Nat.mul_zero, Nat.zero_add] at split
        rw [split, if_neg (by omega)]
        split <;> omega
      · split
        · exact isPositive
        · split <;> omega

/-! ## Signs -/

def isNegative (value : Number) : Bool :=
  value.less (zero false)

/-- Both are negative, both are zero or both are positive. -/
structure SameSign (left right : Number) : Prop where
  isNegative : left.isNegative = right.isNegative
  isZero : left.isZero = right.isZero
  isPositive : left.isPositive = right.isPositive

/-- A value that is not zero, with a sign. -/
structure HasSign (negative : Bool) (value : Number) : Prop where
  isNegative : value.isNegative = negative
  isZero : value.isZero = false
  isPositive : value.isPositive = !negative

theorem HasSign.sameSign {other : Number} (hasSign : value.HasSign negative)
    (otherSign : other.HasSign negative) : value.SameSign other where
  isNegative := hasSign.isNegative.trans otherSign.isNegative.symm
  isZero := hasSign.isZero.trans otherSign.isZero.symm
  isPositive := hasSign.isPositive.trans otherSign.isPositive.symm

theorem isPositive_of_isZero (isZero : value.isZero = true) : value.isPositive = false := by
  cases value with
  | nan => rfl
  | infinite => cases isZero
  | finite negative units representable =>
      rw [isPositive, zero, less, beq_iff_eq.mp isZero, signedUnits_zero, signedUnits_zero]
      rfl

theorem hasSign_finite (representable : Representable units) (notZero : units ≠ 0)
    (negative : Bool) : (finite negative units representable).HasSign negative := by
  have positive := Nat.pos_of_ne_zero notZero
  constructor <;> cases negative <;>
    simp [Number.isNegative, Number.isZero, Number.isPositive, zero, less, signedUnits, positive,
      notZero]

theorem AtLeast.hasSign (atLeast : value.AtLeast exponent) (negative : Bool) :
    HasSign negative (if negative then value.neg else value) := by
  cases atLeast with
  | finite representable bound =>
      have notZero := Nat.ne_of_gt (Nat.lt_of_lt_of_le (twoPow_pos exponent) bound)
      cases negative with
      | false => exact hasSign_finite representable notZero false
      | true => exact hasSign_finite representable notZero true
  | infinite => cases negative <;> exact ⟨rfl, rfl, rfl⟩

end Number

namespace Decimal96

open Number (AtLeast)

variable {decimal : Decimal96} {places : Nat}

/-! ## Signs of decimals -/

/-- A positive value between two powers of two units. -/
def IsWithin (low high : Nat) : Number → Prop
  | .finite false units _ => twoPow low ≤ units ∧ units ≤ twoPow high
  | _ => False

instance (low high : Nat) : (value : Number) → Decidable (IsWithin low high value)
  | .finite false _ _ => inferInstanceAs (Decidable (_ ∧ _))
  | .finite true _ _ | .nan | .infinite _ => inferInstanceAs (Decidable False)

/-- A power of ten stays in its binade, rounded once or as a product of rounded powers. -/
theorem powers_isWithin : ∀ places ∈ List.range (maxScale + 1),
    (tenPow places).log2 < 94 ∧
      IsWithin ((tenPow places).log2 + 1074) ((tenPow places).log2 + 1075)
          (.ofNat false (tenPow places)) ∧
        IsWithin ((tenPow places).log2 + 1074) ((tenPow places).log2 + 1075)
          ((Number.ofNat false 10).pow places) := by
  decide +kernel

theorem atLeast_of_isWithin {low high : Nat} {value : Number} (within : IsWithin low high value) :
    value.AtLeast low := by
  unfold IsWithin at within
  split at within
  · exact .finite _ within.1
  · cases within

/-- Division by a value between powers of two. -/
theorem atLeast_div {low high dividend exponent : Nat} {left value : Number}
    (isLeft : left.AtLeast dividend) (within : IsWithin low high value)
    (bound : exponent + high ≤ dividend + 1074) : (left.div value).AtLeast exponent := by
  unfold IsWithin at within
  split at within
  · exact isLeft.div _ (Nat.lt_of_lt_of_le (twoPow_pos low) within.1) within.2 bound
  · cases within

theorem isZero_div {low high : Nat} {value : Number} (within : IsWithin low high value) :
    ((Number.ofNat false 0).div value).isZero = true := by
  unfold IsWithin at within
  split at within
  · rename_i units representable
    have positive : 0 < units := Nat.lt_of_lt_of_le (twoPow_pos low) within.1
    have quotient := Number.round_mul Number.representable_zero positive false
    rw [Nat.zero_mul] at quotient
    rw [Number.ofNat, Nat.zero_mul, Number.round_one Number.representable_zero, Number.div,
      if_neg (Nat.ne_of_gt positive), Nat.zero_mul]
    exact congrArg Number.isZero quotient
  · cases within

/-- A decimal that is not zero is a magnitude above zero with the sign of the decimal. The whole
part can be zero, but then the fraction has one place at least, which the power of ten makes a half
or more: the rounding to places does not lose it. -/
theorem exists_magnitude (notZero : decimal.coefficient ≠ 0)
    (fewPlaces : decimal.scale ≤ maxScale) :
    ∃ exponent, ∃ magnitude : Number, magnitude.AtLeast exponent ∧
      decimal.toNumber = if decimal.negative then magnitude.neg else magnitude := by
  have isPositive := Nat.pos_of_ne_zero notZero
  by_cases isWhole : decimal.scale = 0
  · refine ⟨1074, .ofNat false decimal.coefficient, Number.atLeast_ofNat isPositive, ?_⟩
    rw [toNumber, if_pos isWhole]
    cases decimal.negative with
    | false =>
        have notNegative : ¬(decimal.coefficient : Int) < 0 := by omega
        simp [Number.ofInt, notNegative]
    | true =>
        simp [Number.ofInt, isPositive, Number.ofNat, Number.neg_round]
  · obtain ⟨fewBits, within, factorWithin⟩ :=
      powers_isWithin decimal.scale (List.mem_range.mpr (Nat.lt_succ_of_le fewPlaces))
    rw [toNumber, if_neg isWhole]
    dsimp only
    generalize (tenPow decimal.scale).log2 = bits at fewBits within factorWithin
    rcases Nat.eq_zero_or_pos (decimal.coefficient % tenPow decimal.scale) with noRest | hasRest
    · have wholePositive : 0 < decimal.coefficient / tenPow decimal.scale := by
        refine Nat.pos_of_ne_zero fun noWhole => notZero ?_
        rw [← Nat.div_add_mod decimal.coefficient (tenPow decimal.scale), noWhole, noRest]
        rfl
      rw [noRest, if_pos (isZero_div within)]
      exact ⟨1074, _, Number.atLeast_ofNat wholePositive, rfl⟩
    · have fraction : AtLeast (1073 - bits)
          ((Number.ofNat false (decimal.coefficient % tenPow decimal.scale)).div
            (.ofNat false (tenPow decimal.scale))) :=
        atLeast_div (Number.atLeast_ofNat hasRest) within (by omega)
      have whole : (Number.ofNat false (decimal.coefficient / tenPow decimal.scale)).IsMagnitude :=
        Number.isMagnitude_round _ _
      have product := (AtLeast.add whole fraction).mul (atLeast_of_isWithin factorWithin)
        (show 1073 + 1074 ≤ _ by omega)
      have result := atLeast_div product.roundWhole factorWithin
        (show 1073 - bits + (bits + 1075) ≤ 1074 + 1074 by omega)
      rw [fraction.isZero_eq, if_neg Bool.false_ne_true]
      exact ⟨_, _, result, rfl⟩

end Decimal96

end TreeQuery
