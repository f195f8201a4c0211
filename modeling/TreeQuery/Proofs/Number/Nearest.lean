import TreeQuery.Proofs.Number.Shortest

/-!
The value nearest to a decimal.

Reading a decimal rounds it once, on the grid of the binade that the decimal falls into. The grid is
that of the value whose interval the decimal is in, or the finer one below the start of a binade. On
either grid the value is the nearest point, so what reads back as a value is read as that value.
-/

namespace TreeQuery

namespace Number

variable {units numerator denominator nearest : Nat} {decimal : Decimal}

/-! ## Rounding -/

/-- A whole number at most one half away is the rounded quotient, if an odd one is nearer than
that. -/
theorem roundedQuotient_eq_of_near (isPositive : 0 < denominator)
    (low : 2 * (nearest * denominator) ≤ 2 * numerator + denominator)
    (high : 2 * numerator ≤ 2 * (nearest * denominator) + denominator)
    (isOpen : nearest % 2 = 1 → 2 * (nearest * denominator) < 2 * numerator + denominator ∧
      2 * numerator < 2 * (nearest * denominator) + denominator) :
    roundedQuotient .toEven numerator denominator = nearest := by
  have split : denominator * (numerator / denominator) + numerator % denominator = numerator :=
    Nat.div_add_mod numerator denominator
  have isRemainder : numerator % denominator < denominator := Nat.mod_lt _ isPositive
  rw [roundedQuotient]
  generalize numerator / denominator = quotient at split ⊢
  generalize numerator % denominator = remainder at split isRemainder ⊢
  have atMost : nearest < quotient + 2 := by
    refine Nat.lt_of_mul_lt_mul_right (a := denominator) ?_
    rw [Nat.add_mul, Nat.mul_comm quotient]
    omega
  have atLeast : quotient < nearest + 1 := by
    refine Nat.lt_of_mul_lt_mul_right (a := denominator) ?_
    rw [Nat.add_mul, Nat.mul_comm quotient]
    omega
  rcases Nat.le_and_le_add_one_iff.mp ⟨Nat.le_of_lt_succ atLeast, Nat.le_of_lt_succ atMost⟩ with
    rfl | rfl
  · rw [Nat.mul_comm nearest] at low high isOpen
    split
    · rfl
    · split
      · omega
      · omega
  · rw [Nat.add_mul, Nat.mul_comm quotient] at low high isOpen
    split
    · omega
    · split
      · rfl
      · omega

/-! ## The grid of a quotient -/

/-- A quotient lies in the interval of a value. -/
structure InInterval (units numerator denominator : Nat) : Prop where
  low : 2 * (units * denominator) ≤ 2 * numerator + halfGapBelow units * denominator
  high : 2 * numerator ≤ 2 * (units * denominator) + spacing units * denominator
  /-- An odd significand does not own the ends. -/
  isOpen : ownsEnds units = false →
    2 * (units * denominator) < 2 * numerator + halfGapBelow units * denominator ∧
      2 * numerator < 2 * (units * denominator) + spacing units * denominator

theorem inInterval_of_readsBack
    (reads : readsBack units decimal.coefficient decimal.exponent = true)
    (isNumerator : decimal.coefficient * gridDenominator decimal.exponent = 2 * numerator)
    (isDenominator : gridNumerator decimal.exponent = denominator) :
    InInterval units numerator denominator := by
  obtain ⟨low, high, isOpen⟩ := readsBack_iff.mp reads
  rw [isNumerator, isDenominator, Nat.sub_mul, Nat.mul_assoc] at low
  rw [isNumerator, isDenominator, Nat.add_mul, Nat.mul_assoc, halfGapAbove] at high
  rw [isNumerator, isDenominator, Nat.sub_mul, Nat.add_mul, Nat.mul_assoc, halfGapAbove] at isOpen
  refine ⟨by omega, high, fun notOwned => ?_⟩
  have apart := isOpen notOwned
  omega

theorem log2_eq_of_bounds {exponent : Nat} (low : twoPow exponent ≤ units)
    (high : units < twoPow (exponent + 1)) : units.log2 = exponent := by
  have notZero : units ≠ 0 := Nat.ne_of_gt (Nat.lt_of_lt_of_le (twoPow_pos exponent) low)
  have atLeast : exponent ≤ units.log2 := (Nat.le_log2 notZero).mpr low
  have below : units.log2 < exponent + 1 := (Nat.log2_lt notZero).mpr high
  omega

theorem twoPow_add (low high : Nat) : twoPow (low + high) = twoPow low * twoPow high :=
  Nat.pow_add 2 low high

theorem InInterval.quotient_bounds (inside : InInterval units numerator denominator)
    (isPositive : 0 < denominator) :
    2 * (numerator / denominator) ≤ 2 * units + spacing units ∧
      2 * units < 2 * (numerator / denominator) + 2 + halfGapBelow units := by
  have split : denominator * (numerator / denominator) + numerator % denominator = numerator :=
    Nat.div_add_mod numerator denominator
  have isRemainder : numerator % denominator < denominator := Nat.mod_lt _ isPositive
  have low := inside.low
  have high := inside.high
  generalize numerator / denominator = quotient at split ⊢
  constructor
  · refine Nat.le_of_mul_le_mul_right (c := denominator) ?_ isPositive
    rw [Nat.add_mul, Nat.mul_assoc, Nat.mul_assoc, Nat.mul_comm quotient]
    omega
  · refine Nat.lt_of_mul_lt_mul_right (a := denominator) ?_
    rw [Nat.add_mul, Nat.add_mul, Nat.mul_assoc, Nat.mul_assoc, Nat.mul_comm quotient]
    omega

/-- The powers of two around a value, as multiples of the distance below the start of its binade.
The numerals are the powers of two with the exponents 52, 53 and 54. -/
theorem exists_fine (isHigh : 52 < units.log2) :
    ∃ fine, 0 < fine ∧ twoPow (units.log2 - 53) = fine ∧ spacing units = 2 * fine ∧
      twoPow (units.log2 - 1) = 4503599627370496 * fine ∧
        twoPow units.log2 = 9007199254740992 * fine ∧
          twoPow (units.log2 + 1) = 18014398509481984 * fine := by
  obtain ⟨steps, isExponent⟩ := Nat.exists_eq_add_of_lt isHigh
  have start : twoPow units.log2 = 9007199254740992 * twoPow steps := by
    rw [isExponent, Nat.add_right_comm 52 steps 1, twoPow_add]
    rfl
  refine ⟨twoPow steps, twoPow_pos steps, congrArg twoPow (by omega), ?_, ?_, start, ?_⟩
  · rw [spacing, Nat.mul_comm, ← twoPow_succ]
    exact congrArg twoPow (by omega)
  · rw [isExponent, show 52 + steps + 1 - 1 = 52 + steps by omega, twoPow_add]
    rfl
  · have doubled := twoPow_succ units.log2
    omega

theorem spacing_of_bounds {quotient : Nat} (low : twoPow units.log2 ≤ quotient)
    (high : quotient < twoPow (units.log2 + 1)) : spacing quotient = spacing units := by
  rw [spacing, spacing, log2_eq_of_bounds low high]

/-- Inside a binade, the neighbours of a value are in the binade too, or at its ends. -/
theorem binade_bounds (isHigh : 52 < units.log2) (isSpaced : spacing units ∣ units)
    (notStart : units ≠ twoPow units.log2) :
    twoPow units.log2 + spacing units ≤ units ∧
      units + spacing units ≤ twoPow (units.log2 + 1) := by
  obtain ⟨fine, _, _, coarse, _, start, stop⟩ := exists_fine isHigh
  have notZero : units ≠ 0 := fun isZero => by simp [isZero] at isHigh
  constructor
  · refine add_le_of_dvd ⟨4503599627370496, by rw [start, coarse]; omega⟩ isSpaced ?_
    exact Nat.lt_of_le_of_ne (twoPow_log2_le (Nat.pos_of_ne_zero notZero)) notStart.symm
  · refine add_le_of_dvd isSpaced ⟨9007199254740992, by rw [stop, coarse]; omega⟩ ?_
    exact lt_twoPow_log2_succ units

/-- The grid of a quotient is that of the value, or the one below the start of its binade. -/
theorem InInterval.spacing_quotient (inside : InInterval units numerator denominator)
    (isPositive : 0 < denominator) (isSpaced : spacing units ∣ units) :
    spacing (numerator / denominator) = spacing units ∨
      numerator < units * denominator ∧ 2 * halfGapBelow units = spacing units ∧
        spacing (numerator / denominator) = halfGapBelow units := by
  obtain ⟨notAbove, notBelow⟩ := inside.quotient_bounds isPositive
  rcases Nat.lt_or_ge 52 units.log2 with isHigh | isLow
  · obtain ⟨fine, finePositive, isFine, coarse, half, start, stop⟩ := exists_fine isHigh
    rcases halfGapBelow_cases units with ⟨isStart, _, gap⟩ | ⟨within, gap⟩
    · rw [isFine] at gap
      rcases Nat.lt_or_ge (numerator / denominator) units with isBelow | notBelow
      · refine .inr ⟨(Nat.div_lt_iff_lt_mul isPositive).mp isBelow, by omega, ?_⟩
        have same : (numerator / denominator).log2 = units.log2 - 1 := by
          apply log2_eq_of_bounds
          · omega
          · rw [show units.log2 - 1 + 1 = units.log2 by omega]
            omega
        rw [spacing, same, gap, ← isFine]
        exact congrArg twoPow (by omega)
      · exact .inl (spacing_of_bounds (by omega) (by omega))
    · have notStart : units ≠ twoPow units.log2 := fun isStart => absurd (within isStart) (by omega)
      obtain ⟨aboveStart, belowStop⟩ := binade_bounds isHigh isSpaced notStart
      exact .inl (spacing_of_bounds (by omega) (by omega))
  · have one : spacing units = 1 := by
      rw [spacing, Nat.sub_eq_zero_of_le isLow]
      rfl
    refine .inl ?_
    rw [one] at notAbove ⊢
    have isLess : numerator / denominator ≤ units := by omega
    rw [spacing, Nat.sub_eq_zero_of_le (Nat.le_trans (log2_le_log2 isLess) isLow)]
    rfl

theorem halfGapBelow_le (units : Nat) : halfGapBelow units ≤ spacing units := by
  unfold halfGapBelow
  split
  · exact Nat.div_le_self _ _
  · exact Nat.le_refl _

/-- A quotient in the interval of a value is rounded to that value. -/
theorem InInterval.roundedUnits_eq (inside : InInterval units numerator denominator)
    (isPositive : 0 < denominator) (isSpaced : spacing units ∣ units) :
    roundedUnits numerator denominator = units := by
  have grid := inside.spacing_quotient isPositive isSpaced
  obtain ⟨low, high, isOpen⟩ := inside
  obtain ⟨significand, isMultiple⟩ := isSpaced
  simp only [roundedUnits]
  rcases grid with same | ⟨isBelow, halves, same⟩
  · rw [same]
    have onGrid : significand * (denominator * spacing units) = units * denominator := by
      rw [Nat.mul_left_comm, Nat.mul_comm significand, ← isMultiple, Nat.mul_comm]
    have finer := Nat.mul_le_mul_right denominator (halfGapBelow_le units)
    have nearest : roundedQuotient .toEven numerator (denominator * spacing units) =
        significand := by
      refine roundedQuotient_eq_of_near (Nat.mul_pos isPositive (spacing_pos units)) ?_ ?_ ?_ <;>
        rw [onGrid, Nat.mul_comm denominator (spacing units)]
      · omega
      · exact high
      · intro isOdd
        have notOwned : ownsEnds units = false := by
          rw [ownsEnds, Nat.div_eq_of_eq_mul_right (spacing_pos units) isMultiple, isOdd]
          rfl
        have apart := isOpen notOwned
        omega
    rw [nearest, Nat.mul_comm]
    exact isMultiple.symm
  · rw [same]
    have isDouble : 2 * significand * halfGapBelow units = units := by
      rw [Nat.mul_right_comm, halves]
      exact isMultiple.symm
    have onGrid : 2 * significand * (denominator * halfGapBelow units) = units * denominator := by
      rw [Nat.mul_left_comm, isDouble, Nat.mul_comm]
    have nearest : roundedQuotient .toEven numerator (denominator * halfGapBelow units) =
        2 * significand := by
      have divides := Nat.mul_pos isPositive (halfGapBelow_pos units)
      refine roundedQuotient_eq_of_near divides ?_ ?_ ?_ <;>
        rw [onGrid, Nat.mul_comm denominator (halfGapBelow units)]
      · exact low
      · omega
      · omega
    rw [nearest, isDouble]

theorem InInterval.round_eq (inside : InInterval units numerator denominator)
    (isPositive : 0 < denominator) (representable : Representable units) (negative : Bool) :
    round negative numerator denominator = .finite negative units representable := by
  rw [round, inside.roundedUnits_eq isPositive representable.1, ofUnits, dif_pos representable]

/-! ## Decimals -/

theorem gridNumerator_of_nonneg {exponent : Int} (notNegative : 0 ≤ exponent) :
    gridNumerator exponent = 1 := by
  rw [gridNumerator, show (-exponent).toNat = 0 by omega]
  rfl

theorem gridDenominator_of_neg {exponent : Int} (isNegative : exponent < 0) :
    gridDenominator exponent = 2 * unitsPerOne := by
  have noPower : tenPow exponent.toNat = 1 := congrArg tenPow (show exponent.toNat = 0 by omega)
  rw [gridDenominator, noPower, Nat.one_mul]

theorem tenPow_le_tenPow {low high : Nat} (inOrder : low ≤ high) : tenPow low ≤ tenPow high :=
  Nat.pow_le_pow_right (by decide) inOrder

theorem spacing_le (isSpaced : spacing units ∣ units) (notZero : units ≠ 0) :
    spacing units ≤ units :=
  Nat.le_of_dvd (Nat.pos_of_ne_zero notZero) isSpaced

theorem eq_zero_of_readsBack_zero {exponent : Int} (isSpaced : spacing units ∣ units)
    (reads : readsBack units 0 exponent = true) : units = 0 := by
  have zeroReads : readsBack 0 0 exponent = true :=
    readsBack_of_eq (by rw [Nat.zero_mul, Nat.mul_zero, Nat.zero_mul])
  exact eq_of_readsBack isSpaced (Nat.dvd_zero _) reads zeroReads

/-- No decimal of 310 zeros and more reads back as a finite value. -/
theorem exponent_lt_of_readsBack (representable : Representable units)
    (reads : readsBack units decimal.coefficient decimal.exponent = true)
    (notZero : decimal.coefficient ≠ 0) : decimal.exponent < 310 := by
  refine Int.not_le.mp fun isHuge => ?_
  obtain ⟨isSpaced, inRange⟩ := representable
  have high := (readsBack_iff.mp reads).2.1
  rw [gridNumerator_of_nonneg (by omega), Nat.mul_one, halfGapAbove] at high
  have narrow : spacing units ≤ units + 1 := by
    rcases Nat.eq_zero_or_pos units with rfl | isPositive
    · exact Nat.le_refl _
    · exact Nat.le_succ_of_le (Nat.le_of_dvd isPositive isSpaced)
  have beyond : 4 * unitsLimit ≤ tenPow 310 * (2 * unitsPerOne) := by decide +kernel
  have larger : tenPow 310 * (2 * unitsPerOne) ≤ gridDenominator decimal.exponent :=
    Nat.mul_le_mul_right _ (tenPow_le_tenPow (by omega))
  have isMultiple := Nat.le_mul_of_pos_left (gridDenominator decimal.exponent)
    (Nat.pos_of_ne_zero notZero)
  omega

/-- A decimal with more than 330 zeros behind the point reads back as nothing but zero. -/
theorem eq_zero_of_readsBack_tiny (isSpaced : spacing units ∣ units)
    (reads : readsBack units decimal.coefficient decimal.exponent = true)
    (isTiny : decimal.coefficient.log2 + 1 + decimal.exponent < -330) : units = 0 := by
  refine Decidable.byContradiction fun notZero => ?_
  have low := (readsBack_iff.mp reads).1
  rw [gridDenominator_of_neg (by omega), gridNumerator] at low
  have atLeastOne : 1 ≤ 2 * units - halfGapBelow units := by
    have narrow := halfGapBelow_le units
    have notWide := spacing_le isSpaced notZero
    omega
  have isMultiple := Nat.mul_le_mul_right (tenPow (-decimal.exponent).toNat) atLeastOne
  have isSmall : decimal.coefficient < tenPow (decimal.coefficient.log2 + 1) :=
    Nat.lt_of_lt_of_le (lt_twoPow_log2_succ _) (Nat.pow_le_pow_left (by decide) _)
  have wide : 2 * unitsPerOne ≤ tenPow 331 := by decide +kernel
  have places : tenPow (decimal.coefficient.log2 + 1) * tenPow 331 ≤
      tenPow (-decimal.exponent).toNat := by
    rw [← tenPow_add]
    exact tenPow_le_tenPow (by omega)
  have below : decimal.coefficient * (2 * unitsPerOne) <
      tenPow (decimal.coefficient.log2 + 1) * tenPow 331 :=
    Nat.mul_lt_mul_of_lt_of_le isSmall wide (tenPow_pos _)
  omega

/-- What reads back as a value is read as that value. -/
theorem ofDecimal_of_readsBack (representable : Representable units)
    (reads : readsBack units decimal.coefficient decimal.exponent = true) (negative : Bool) :
    ofDecimal negative decimal = .finite negative units representable := by
  have isZero (noUnits : units = 0) : zero negative = .finite negative units representable := by
    subst noUnits
    rfl
  unfold ofDecimal
  split
  · rename_i noDigits
    rw [noDigits] at reads
    exact isZero (eq_zero_of_readsBack_zero representable.1 reads)
  · rename_i notZero
    split
    · rename_i isHuge
      have inRange := exponent_lt_of_readsBack representable reads notZero
      omega
    · split
      · rename_i isTiny
        exact isZero (eq_zero_of_readsBack_tiny representable.1 reads isTiny)
      · split
        · rename_i isWhole
          refine (inInterval_of_readsBack reads ?_ (gridNumerator_of_nonneg isWhole)).round_eq
            Nat.one_pos representable negative
          rw [gridDenominator, Nat.mul_left_comm (tenPow _) 2, Nat.mul_left_comm, ← Nat.mul_assoc
            decimal.coefficient]
        · rename_i notWhole
          refine (inInterval_of_readsBack reads ?_ rfl).round_eq (tenPow_pos _) representable
            negative
          rw [gridDenominator_of_neg (by omega), Nat.mul_left_comm]

end Number

end TreeQuery
