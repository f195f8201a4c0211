import Mathlib.Data.Nat.Log
import TreeQuery.Number.Decimal

/-!
The decimals of binary64 values.

The decimals that read back as a value form an interval around it. The intervals of two values have
no decimal in common: they meet in one point at most, and of two neighbours only the one with the
even significand owns its ends. The shortest decimal of a value is in its interval, because each
grid is asked for a decimal that reads back, and the finest one has the value itself.
-/

namespace TreeQuery

namespace Number

variable {units other coefficient : Nat} {exponent : Int} {tie : Tie}

/-! ## Neighbours -/

theorem spacing_pos (units : Nat) : 0 < spacing units :=
  twoPow_pos _

theorem twoPow_dvd_twoPow {low high : Nat} (inOrder : low ≤ high) : twoPow low ∣ twoPow high :=
  Nat.pow_dvd_pow 2 inOrder

theorem twoPow_le_twoPow {low high : Nat} (inOrder : low ≤ high) : twoPow low ≤ twoPow high :=
  Nat.pow_le_pow_right (by decide) inOrder

theorem twoPow_succ (exponent : Nat) : twoPow (exponent + 1) = twoPow exponent * 2 :=
  Nat.pow_succ 2 exponent

theorem tenPow_add (low high : Nat) : tenPow (low + high) = tenPow low * tenPow high :=
  Nat.pow_add 10 low high

theorem twoPow_dvd_tenPow (exponent : Nat) : twoPow exponent ∣ tenPow exponent :=
  ⟨5 ^ exponent, Nat.mul_pow 2 5 exponent⟩

theorem log2_le_log2 (inOrder : units ≤ other) : units.log2 ≤ other.log2 := by
  simpa only [Nat.log2_eq_log_two] using Nat.log_mono_right inOrder

theorem twoPow_log2_le (positive : 0 < units) : twoPow units.log2 ≤ units :=
  Nat.log2_self_le (by omega)

theorem lt_twoPow_log2_succ (units : Nat) : units < twoPow (units.log2 + 1) :=
  Nat.lt_log2_self

/-- Multiples of a number are at least that number apart. -/
theorem add_le_of_dvd {step low high : Nat} (lowMultiple : step ∣ low) (highMultiple : step ∣ high)
    (inOrder : low < high) : low + step ≤ high := by
  have apart := Nat.le_of_dvd (by omega) (Nat.dvd_sub highMultiple lowMultiple)
  omega

/-- The neighbour above a value is one spacing away. -/
theorem add_spacing_le (isSpaced : spacing units ∣ units) (otherSpaced : spacing other ∣ other)
    (inOrder : units < other) : units + spacing units ≤ other := by
  have coarser : spacing units ∣ spacing other :=
    twoPow_dvd_twoPow (Nat.sub_le_sub_right (log2_le_log2 (Nat.le_of_lt inOrder)) 52)
  exact add_le_of_dvd isSpaced (Nat.dvd_trans coarser otherSpaced) inOrder

/-- The gap below is half the spacing at the start of a binade, and the spacing elsewhere. -/
theorem halfGapBelow_cases (units : Nat) :
    (units = twoPow units.log2 ∧ 52 < units.log2 ∧
      halfGapBelow units = twoPow (units.log2 - 53)) ∨
      ((units = twoPow units.log2 → units.log2 ≤ 52) ∧ halfGapBelow units = spacing units) := by
  unfold halfGapBelow
  split
  · rename_i starts
    refine .inl ⟨starts.1, starts.2, ?_⟩
    rw [spacing, show units.log2 - 52 = units.log2 - 53 + 1 by omega, twoPow_succ]
    exact Nat.mul_div_cancel _ (by decide)
  · rename_i within
    exact .inr ⟨fun isPower => Nat.le_of_not_lt fun above => within ⟨isPower, above⟩, rfl⟩

theorem halfGapBelow_pos (units : Nat) : 0 < halfGapBelow units := by
  rcases halfGapBelow_cases units with ⟨_, _, gap⟩ | ⟨_, gap⟩ <;> rw [gap]
  · exact twoPow_pos _
  · exact spacing_pos units

theorem log2_lt_of_lt_twoPow {exponent : Nat} (positive : 0 < exponent)
    (inside : units < twoPow exponent) : units.log2 < exponent := by
  rcases Nat.eq_zero_or_pos units with rfl | isPositive
  · exact positive
  · exact (Nat.log2_lt (Nat.ne_of_gt isPositive)).mpr inside

/-- The neighbour below a value is one gap away. -/
theorem add_halfGapBelow_le (isSpaced : spacing units ∣ units)
    (otherSpaced : spacing other ∣ other) (inOrder : units < other) :
    units + halfGapBelow other ≤ other := by
  have next := add_spacing_le isSpaced otherSpaced inOrder
  have start := twoPow_log2_le (Nat.zero_lt_of_lt inOrder)
  rcases halfGapBelow_cases other with ⟨isPower, high, gap⟩ | ⟨within, gap⟩
  · have lower : units.log2 < other.log2 :=
      log2_lt_of_lt_twoPow (by omega) (isPower ▸ inOrder)
    rcases Nat.eq_or_lt_of_le (Nat.le_sub_one_of_lt lower) with isLast | isLower
    · -- The last value of the binade below is the neighbour.
      have same : spacing units = halfGapBelow other := by
        rw [gap, spacing, isLast]
        exact congrArg twoPow (by omega)
      omega
    · have inside := lt_twoPow_log2_succ units
      have halves : twoPow other.log2 = twoPow (other.log2 - 1) * 2 := by
        rw [← twoPow_succ]
        exact congrArg twoPow (by omega)
      have belowHalf : twoPow (units.log2 + 1) ≤ twoPow (other.log2 - 1) :=
        twoPow_le_twoPow isLower
      have gapBelowHalf : twoPow (other.log2 - 53) ≤ twoPow (other.log2 - 1) :=
        twoPow_le_twoPow (by omega)
      omega
  · rcases Nat.eq_or_lt_of_le (log2_le_log2 (Nat.le_of_lt inOrder)) with same | lower
    · rw [gap, spacing, ← same]
      exact next
    · have inside := lt_twoPow_log2_succ units
      have below : twoPow (units.log2 + 1) ≤ twoPow other.log2 :=
        twoPow_le_twoPow lower
      rcases Nat.lt_or_ge 52 other.log2 with high | low
      · have isMultiple : spacing other ∣ twoPow other.log2 := twoPow_dvd_twoPow (by omega)
        have behind : twoPow other.log2 < other :=
          Nat.lt_of_le_of_ne start fun isPower => absurd (within isPower.symm) (by omega)
        have apart := add_le_of_dvd isMultiple otherSpaced behind
        omega
      · have one : spacing other = 1 := by
          rw [spacing, Nat.sub_eq_zero_of_le low]
          rfl
        omega

/-- Of two neighbours one has an odd significand. -/
theorem ownsEnds_of_neighbours (isSpaced : spacing units ∣ units)
    (isNext : units + spacing units = other)
    (isPrevious : units + halfGapBelow other = other) :
    ownsEnds units = false ∨ ownsEnds other = false := by
  have sameGap : halfGapBelow other = spacing units := by omega
  have positive := spacing_pos units
  obtain ⟨significand, isMultiple⟩ := isSpaced
  have quotient : units / spacing units = significand :=
    Nat.div_eq_of_eq_mul_right positive isMultiple
  rcases halfGapBelow_cases other with ⟨isPower, high, gap⟩ | ⟨_, gap⟩
  · -- The value below the start of a binade has the largest significand.
    have last : significand + 1 = twoPow 53 := by
      have filled : spacing units * (significand + 1) = spacing units * twoPow 53 := by
        rw [Nat.mul_succ, ← isMultiple, isNext, ← sameGap, gap]
        conv_lhs => rw [isPower]
        exact (Nat.pow_add 2 _ _).symm.trans (congrArg twoPow (by omega)) |>.symm
      exact Nat.eq_of_mul_eq_mul_left positive filled
    have isOdd : significand % 2 = 1 := by
      have isEven : twoPow 53 % 2 = 0 := by decide
      omega
    exact .inl (by rw [ownsEnds, quotient, isOdd]; rfl)
  · have nextQuotient : other / spacing other = significand + 1 := by
      rw [← gap, sameGap, ← isNext, Nat.add_div_right _ positive, quotient]
    rw [ownsEnds, ownsEnds, quotient, nextQuotient]
    rcases Nat.mod_two_eq_zero_or_one significand with even | odd
    · exact .inr (by rw [Nat.add_mod, even]; rfl)
    · exact .inl (by rw [odd]; rfl)

/-! ## The interval of a value -/

theorem gridNumerator_pos (exponent : Int) : 0 < gridNumerator exponent :=
  tenPow_pos _

theorem gridDenominator_pos (exponent : Int) : 0 < gridDenominator exponent :=
  Nat.mul_pos (tenPow_pos _) (Nat.mul_pos (by decide) unitsPerOne_pos)

/-- The ends of the interval, which an odd significand does not own. -/
theorem readsBack_iff :
    readsBack units coefficient exponent = true ↔
      (2 * units - halfGapBelow units) * gridNumerator exponent ≤
          coefficient * gridDenominator exponent ∧
        coefficient * gridDenominator exponent ≤
            (2 * units + halfGapAbove units) * gridNumerator exponent ∧
          (ownsEnds units = false →
            (2 * units - halfGapBelow units) * gridNumerator exponent ≠
                coefficient * gridDenominator exponent ∧
              coefficient * gridDenominator exponent ≠
                (2 * units + halfGapAbove units) * gridNumerator exponent) := by
  unfold readsBack
  split
  · rename_i owned
    simp [owned]
  · rename_i notOwned
    simp only [notOwned, decide_eq_true_eq, forall_const]
    omega

/-- A decimal reads back as one value at most. -/
theorem eq_of_readsBack (isSpaced : spacing units ∣ units) (otherSpaced : spacing other ∣ other)
    (reads : readsBack units coefficient exponent = true)
    (otherReads : readsBack other coefficient exponent = true) : units = other := by
  have apart : ∀ {low high : Nat}, spacing low ∣ low → spacing high ∣ high →
      readsBack low coefficient exponent = true → readsBack high coefficient exponent = true →
        ¬low < high := by
    intro low high lowSpaced highSpaced lowReads highReads inOrder
    obtain ⟨_, lowEnd, lowOpen⟩ := readsBack_iff.mp lowReads
    obtain ⟨highEnd, _, highOpen⟩ := readsBack_iff.mp highReads
    have ends := Nat.le_of_mul_le_mul_right (Nat.le_trans highEnd lowEnd)
      (gridNumerator_pos exponent)
    have isNext := add_spacing_le lowSpaced highSpaced inOrder
    have isPrevious := add_halfGapBelow_le lowSpaced highSpaced inOrder
    unfold halfGapAbove at ends lowEnd lowOpen
    have touch : 2 * high - halfGapBelow high = 2 * low + spacing low := by omega
    have isLast : low + spacing low = high := by omega
    have isFirst : low + halfGapBelow high = high := by omega
    have atEnd : (2 * low + spacing low) * gridNumerator exponent =
        coefficient * gridDenominator exponent := by
      rw [touch] at highEnd
      exact Nat.le_antisymm highEnd lowEnd
    rcases ownsEnds_of_neighbours lowSpaced isLast isFirst with lowOdd | highOdd
    · exact (lowOpen lowOdd).2 atEnd.symm
    · exact (highOpen highOdd).1 (touch ▸ atEnd)
  rcases Nat.lt_trichotomy units other with below | same | above
  · exact absurd below (apart isSpaced otherSpaced reads otherReads)
  · exact same
  · exact absurd above (apart otherSpaced isSpaced otherReads reads)

/-- A value is in its own interval. -/
theorem readsBack_of_eq
    (exact : coefficient * gridDenominator exponent = 2 * units * gridNumerator exponent) :
    readsBack units coefficient exponent = true := by
  have positive := gridNumerator_pos exponent
  refine readsBack_iff.mpr ⟨?_, ?_, fun notOwned => ?_⟩
  · rw [exact]
    exact Nat.mul_le_mul_right _ (Nat.sub_le _ _)
  · rw [exact]
    exact Nat.mul_le_mul_right _ (Nat.le_add_right _ _)
  · have notZero : 0 < units := by
      refine Nat.pos_of_ne_zero fun isZero => ?_
      rw [isZero] at notOwned
      cases notOwned
    have gapBelow := halfGapBelow_pos units
    have gapAbove := spacing_pos units
    unfold halfGapAbove
    rw [exact]
    constructor
    · exact Nat.ne_of_lt (Nat.mul_lt_mul_of_pos_right (by omega) positive)
    · exact Nat.ne_of_lt (Nat.mul_lt_mul_of_pos_right (by omega) positive)

/-! ## The search -/

theorem readsBack_of_nearestOnGrid? {found : Nat}
    (nearest : nearestOnGrid? tie units exponent = some found) :
    readsBack units found exponent = true := by
  unfold nearestOnGrid? at nearest
  dsimp only at nearest
  generalize 2 * units * gridNumerator exponent = numerator at nearest
  generalize gridDenominator exponent = denominator at nearest
  split at nearest
  · rename_i belowReads aboveReads
    have isFound := Option.some.inj nearest
    have low := quotient_le_roundedQuotient tie numerator denominator
    have high := roundedQuotient_le tie numerator denominator
    rcases Nat.le_and_le_add_one_iff.mp ⟨low, high⟩ with isBelow | isAbove
    · exact isFound.symm.trans isBelow ▸ belowReads
    · exact isFound.symm.trans isAbove ▸ aboveReads
  · rename_i belowReads _
    exact Option.some.inj nearest ▸ belowReads
  · rename_i aboveReads
    exact Option.some.inj nearest ▸ aboveReads
  · cases nearest

/-- Every value is a multiple of the finest power of ten. -/
theorem exists_multiple_finest (units : Nat) : ∃ coefficient,
    2 * units * gridNumerator finestExponent =
      coefficient * gridDenominator finestExponent := by
  obtain ⟨five, powers⟩ : unitsPerOne ∣ tenPow 1074 := by
    unfold unitsPerOne
    exact twoPow_dvd_tenPow 1074
  have numerator : gridNumerator finestExponent = tenPow 1074 :=
    congrArg tenPow (show (-finestExponent).toNat = 1074 by decide)
  have denominator : gridDenominator finestExponent = 2 * unitsPerOne := by
    have noPower : tenPow finestExponent.toNat = 1 :=
      congrArg tenPow (show finestExponent.toNat = 0 by decide)
    rw [gridDenominator, noPower, Nat.one_mul]
  refine ⟨units * five, ?_⟩
  rw [numerator, denominator, powers, Nat.mul_mul_mul_comm units five, Nat.mul_comm units,
    Nat.mul_comm five]

theorem exists_nearestOnGrid?_finest (tie : Tie) (units : Nat) :
    ∃ found, nearestOnGrid? tie units finestExponent = some found := by
  obtain ⟨coefficient, exact⟩ := exists_multiple_finest units
  have quotient : 2 * units * gridNumerator finestExponent / gridDenominator finestExponent =
      coefficient := by
    rw [exact]
    exact Nat.mul_div_cancel _ (gridDenominator_pos _)
  have reads := readsBack_of_eq exact.symm
  unfold nearestOnGrid?
  dsimp only
  rw [quotient, reads]
  cases readsBack units (coefficient + 1) finestExponent with
  | true => exact ⟨_, rfl⟩
  | false => exact ⟨_, rfl⟩

theorem readsBack_shortestFrom (tie : Tie) (units steps : Nat) :
    readsBack units (shortestFrom tie units steps).coefficient
      (shortestFrom tie units steps).exponent = true := by
  induction steps with
  | zero =>
      obtain ⟨found, nearest⟩ := exists_nearestOnGrid?_finest tie units
      simp only [shortestFrom, nearest, Option.getD_some]
      exact readsBack_of_nearestOnGrid? nearest
  | succ steps induction =>
      simp only [shortestFrom]
      split
      · rename_i nearest
        exact readsBack_of_nearestOnGrid? nearest
      · exact induction

/-- The shortest decimal of a value reads back as that value. -/
theorem readsBack_shortest (tie : Tie) (units : Nat) :
    readsBack units (shortest tie units).coefficient (shortest tie units).exponent = true := by
  unfold shortest
  split
  · rename_i isZero
    rw [isZero]
    exact readsBack_of_eq (by rw [Nat.zero_mul, Nat.mul_zero, Nat.zero_mul])
  · exact readsBack_shortestFrom tie units _

end Number

end TreeQuery
