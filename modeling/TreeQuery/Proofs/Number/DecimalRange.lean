import Mathlib.Tactic.Ring
import TreeQuery.Proofs.Number.IntegerArithmetic

/-!
The decimals of small values.

A value below one has its fives worked off into a coefficient of up to 96 bits, which loses less
than one part in `2 ^ 93` at a time, and then the places beyond the 28th are rounded away one by
one. What is left is zero if the value is no larger than `85/9 · 10 ^ -29`: each dropped digit
rounds a half up, and the last one is dropped without rounding. No value is near enough to this
bound for the earlier losses to matter.
-/

namespace TreeQuery

def fivePow (exponent : Nat) : Nat :=
  Nat.pow 5 exponent

theorem fivePow_pos (exponent : Nat) : 0 < fivePow exponent :=
  Nat.pow_pos (by decide)

theorem fivePow_succ (exponent : Nat) : fivePow (exponent + 1) = fivePow exponent * 5 :=
  Nat.pow_succ 5 exponent

theorem tenPow_succ (exponent : Nat) : tenPow (exponent + 1) = tenPow exponent * 10 :=
  Nat.pow_succ 10 exponent

theorem tenPow_eq (exponent : Nat) : tenPow exponent = twoPow exponent * fivePow exponent :=
  Nat.mul_pow 2 5 exponent

namespace Decimal96

variable {fives coefficient halves result half : Nat} {tens : Int}

/-! ## Working off fives -/

/-- A halved coefficient that had no room for a five loses at most one part of this many. -/
def finest : Nat :=
  twoPow 93

/-- What is left of a coefficient and its fives: a coefficient in range, and as many tens as factors
two were taken out of it. -/
structure Absorbs (fives coefficient halves result : Nat) : Prop where
  positive : 0 < result
  inRange : result < limit
  few : halves ≤ fives
  atMost : result * tenPow halves ≤ coefficient * fivePow fives
  atLeast : (finest - fives) * (coefficient * fivePow fives) ≤ finest * (result * tenPow halves)

theorem Absorbs.multiply (absorbs : Absorbs fives (coefficient * 5) halves result) :
    Absorbs (fives + 1) coefficient halves result where
  positive := absorbs.positive
  inRange := absorbs.inRange
  few := Nat.le_succ_of_le absorbs.few
  atMost := by
    calc result * tenPow halves ≤ coefficient * 5 * fivePow fives := absorbs.atMost
      _ = coefficient * fivePow (fives + 1) := by rw [fivePow_succ]; ring
  atLeast := by
    calc (finest - (fives + 1)) * (coefficient * fivePow (fives + 1)) ≤
          (finest - fives) * (coefficient * fivePow (fives + 1)) :=
        Nat.mul_le_mul_right _ (Nat.sub_le_sub_left (Nat.le_succ fives) finest)
      _ = (finest - fives) * (coefficient * 5 * fivePow fives) := by rw [fivePow_succ]; ring
      _ ≤ finest * (result * tenPow halves) := absorbs.atLeast

/-- Halving keeps the value but for the part that an odd coefficient loses. -/
theorem Absorbs.halve (absorbs : Absorbs fives half halves result) (isHalf : 2 * half ≤ coefficient)
    (loses : (finest - (fives + 1)) * coefficient ≤ (finest - fives) * (2 * half)) :
    Absorbs (fives + 1) coefficient (halves + 1) result where
  positive := absorbs.positive
  inRange := absorbs.inRange
  few := Nat.succ_le_succ absorbs.few
  atMost := by
    calc result * tenPow (halves + 1) = result * tenPow halves * 10 := by
          rw [tenPow_succ, Nat.mul_assoc]
      _ ≤ half * fivePow fives * 10 := Nat.mul_le_mul_right _ absorbs.atMost
      _ = 2 * half * fivePow (fives + 1) := by rw [fivePow_succ]; ring
      _ ≤ coefficient * fivePow (fives + 1) := Nat.mul_le_mul_right _ isHalf
  atLeast := by
    calc (finest - (fives + 1)) * (coefficient * fivePow (fives + 1)) =
          (finest - (fives + 1)) * coefficient * fivePow (fives + 1) := (Nat.mul_assoc _ _ _).symm
      _ ≤ (finest - fives) * (2 * half) * fivePow (fives + 1) := Nat.mul_le_mul_right _ loses
      _ = (finest - fives) * (half * fivePow fives) * 10 := by rw [fivePow_succ]; ring
      _ ≤ finest * (result * tenPow halves) * 10 := Nat.mul_le_mul_right _ absorbs.atLeast
      _ = finest * (result * tenPow (halves + 1)) := by rw [tenPow_succ]; ring

/-- An odd coefficient without room for a five is so large that the lost half is one part of
many. -/
theorem loses_of_noRoom (fives : Nat) (noRoom : limit ≤ (2 * half + 1) * 5) :
    (finest - (fives + 1)) * (2 * half + 1) ≤ (finest - fives) * (2 * half) := by
  have isBelow : finest * 5 < limit := by decide +kernel
  rcases Nat.eq_zero_or_pos (finest - fives) with isZero | isPositive
  · rw [show finest - (fives + 1) = 0 by omega, Nat.zero_mul]
    exact Nat.zero_le _
  · obtain ⟨parts, isParts⟩ := Nat.exists_eq_add_of_lt isPositive
    rw [Nat.zero_add] at isParts
    rw [isParts, show finest - (fives + 1) = parts by omega]
    calc parts * (2 * half + 1) = parts * (2 * half) + parts := Nat.mul_succ parts _
      _ ≤ parts * (2 * half) + 2 * half := Nat.add_le_add_left (by omega) _
      _ = (parts + 1) * (2 * half) := (Nat.succ_mul parts _).symm

/-- Working off fives takes out factors two where it can, and otherwise multiplies, or halves for
want of room. -/
theorem absorbs_absorbFives (positive : 0 < coefficient) (inRange : coefficient < limit)
    (fives : Nat) (tens : Int) :
    ∃ result halves : Nat, absorbFives fives coefficient tens = (result, tens + halves) ∧
      Absorbs fives coefficient halves result := by
  induction fives generalizing coefficient tens with
  | zero =>
      refine ⟨coefficient, 0, by simp [absorbFives], positive, inRange, Nat.le_refl _, ?_, ?_⟩
      · exact Nat.le_refl _
      · exact Nat.le_refl _
  | succ fives induction =>
      rw [absorbFives]
      have halved (halfPositive : 0 < coefficient / 2)
          (loses : (finest - (fives + 1)) * coefficient ≤
            (finest - fives) * (2 * (coefficient / 2))) :
          ∃ result halves : Nat, absorbFives fives (coefficient / 2) (tens + 1) =
            (result, tens + halves) ∧ Absorbs (fives + 1) coefficient halves result := by
        obtain ⟨result, halves, found, absorbs⟩ :=
          induction halfPositive (Nat.lt_of_le_of_lt (Nat.div_le_self _ 2) inRange) (tens + 1)
        refine ⟨result, halves + 1, ?_, absorbs.halve (Nat.mul_div_le coefficient 2) loses⟩
        rw [found]
        congr 1
        omega
      split
      · rename_i isEven
        refine halved (by omega) ?_
        rw [show 2 * (coefficient / 2) = coefficient by omega]
        exact Nat.mul_le_mul_right _ (Nat.sub_le_sub_left (Nat.le_succ fives) finest)
      · split
        · rename_i hasRoom
          have fivefold : 0 < coefficient * 5 := by omega
          obtain ⟨result, halves, found, absorbs⟩ := induction fivefold hasRoom tens
          exact ⟨result, halves, found, absorbs.multiply⟩
        · rename_i isOdd noRoom
          have isLarge : 5 < limit := by decide +kernel
          have isSplit : 2 * (coefficient / 2) + 1 = coefficient := by omega
          have loses := @loses_of_noRoom (coefficient / 2) fives (by omega)
          rw [isSplit] at loses
          exact halved (by omega) loses

/-! ## Dropping places -/

theorem dropDigit_eq (coefficient : Nat) : dropDigit coefficient = (coefficient + 5) / 10 := by
  simp only [dropDigit, roundedQuotient]
  split
  · omega
  · split <;> omega

/-- What is left of a coefficient and a scale: no larger than they were, and zero only for zero. -/
structure Trims (coefficient scale : Nat) (result : Nat × Nat) : Prop where
  isZero : result.1 = 0 ↔ coefficient = 0
  inRange : result.1 ≤ coefficient
  fewPlaces : result.2 ≤ scale

theorem trims_dropImprecise (coefficient scale : Nat) :
    Trims coefficient scale (dropImprecise scale coefficient) := by
  induction scale generalizing coefficient with
  | zero => exact ⟨Iff.rfl, Nat.le_refl _, Nat.le_refl _⟩
  | succ scale induction =>
      rw [dropImprecise]
      split
      · rename_i isLarge
        have tenDigits : 10 ≤ twoPow 52 := by decide +kernel
        have dropped := induction (dropDigit coefficient)
        obtain ⟨isZero, inRange, fewPlaces⟩ := dropped
        rw [dropDigit_eq] at isZero inRange fewPlaces ⊢
        exact ⟨by omega, by omega, by omega⟩
      · exact ⟨Iff.rfl, Nat.le_refl _, Nat.le_refl _⟩

theorem trims_dropZeros (coefficient scale : Nat) :
    Trims coefficient scale (dropZeros scale coefficient) := by
  induction scale generalizing coefficient with
  | zero => exact ⟨Iff.rfl, Nat.le_refl _, Nat.le_refl _⟩
  | succ scale induction =>
      rw [dropZeros]
      split
      · rename_i endsInZero
        obtain ⟨isZero, inRange, fewPlaces⟩ := induction (coefficient / 10)
        exact ⟨by omega, by omega, by omega⟩
      · exact ⟨Iff.rfl, Nat.le_refl _, Nat.le_refl _⟩

theorem tenPow_mod_nine (exponent : Nat) : tenPow exponent % 9 = 1 := by
  induction exponent with
  | zero => rfl
  | succ exponent induction =>
      rw [tenPow_succ]
      omega

/-- Dropping places leaves zero up to 85 tenths of the last place but one: a half of each dropped
digit rounds up, but the last digit is dropped without rounding. -/
theorem dropExcess_eq_zero_iff (excess coefficient : Nat) :
    (dropExcess (excess + 1) coefficient).1 = 0 ↔ 9 * coefficient ≤ 85 * tenPow excess := by
  induction excess generalizing coefficient with
  | zero =>
      rw [dropExcess, tenPow]
      split
      · simp
        omega
      · simp [dropExcess, dropDigit_eq]
        omega
  | succ excess induction =>
      rw [dropExcess, tenPow_succ]
      split
      · have positive := tenPow_pos excess
        simp
        omega
      · rw [induction, dropDigit_eq]
        have nines := tenPow_mod_nine excess
        omega

theorem dropExcess_bounds (excess coefficient : Nat) :
    (dropExcess excess coefficient).1 ≤ coefficient ∧
      (dropExcess excess coefficient).2 ≤ maxScale := by
  induction excess generalizing coefficient with
  | zero => exact ⟨Nat.le_refl _, Nat.le_refl _⟩
  | succ excess induction =>
      rw [dropExcess]
      split
      · exact ⟨Nat.zero_le _, Nat.zero_le _⟩
      · obtain ⟨inRange, fewPlaces⟩ := induction (dropDigit coefficient)
        rw [dropDigit_eq] at inRange fewPlaces ⊢
        exact ⟨by omega, fewPlaces⟩

/-- A coefficient and its places, without those beyond the largest scale. -/
def limitPlaces (coefficient places : Nat) : Nat × Nat :=
  if maxScale < places then dropExcess (places - maxScale) coefficient else (coefficient, places)

theorem limitPlaces_bounds (coefficient places : Nat) :
    (limitPlaces coefficient places).1 ≤ coefficient ∧
      (limitPlaces coefficient places).2 ≤ maxScale := by
  rw [limitPlaces]
  split
  · exact dropExcess_bounds _ _
  · rename_i fits
    exact ⟨Nat.le_refl _, Nat.le_of_not_lt fits⟩

theorem limitPlaces_eq_zero_iff (positive : 0 < coefficient) (places : Nat) :
    (limitPlaces coefficient places).1 = 0 ↔
      9 * tenPow 29 * coefficient ≤ 85 * tenPow places := by
  rw [limitPlaces]
  split
  · rename_i isBeyond
    obtain ⟨excess, rfl⟩ := Nat.exists_eq_add_of_lt isBeyond
    have split : tenPow (maxScale + excess + 1) = tenPow 29 * tenPow excess := by
      rw [show maxScale + excess + 1 = 29 + excess by simp only [maxScale]; omega,
        Number.tenPow_add]
    rw [show maxScale + excess + 1 - maxScale = excess + 1 by omega, dropExcess_eq_zero_iff, split,
      show 9 * tenPow 29 * coefficient = tenPow 29 * (9 * coefficient) by ring,
      show 85 * (tenPow 29 * tenPow excess) = tenPow 29 * (85 * tenPow excess) by ring]
    exact (Nat.mul_le_mul_left_iff (tenPow_pos 29)).symm
  · rename_i fits
    have isSmall : tenPow places ≤ tenPow 28 := Number.tenPow_le_tenPow (Nat.le_of_not_lt fits)
    have apart : 85 * tenPow 28 < 9 * tenPow 29 := by decide +kernel
    have isMultiple := Nat.le_mul_of_pos_right (9 * tenPow 29) positive
    simp only
    omega

/-- A coefficient and its scale, without imprecise places and zeros at the end. -/
def trimPlaces (coefficient scale : Nat) : Nat × Nat :=
  let precise := dropImprecise scale coefficient
  dropZeros precise.2 precise.1

theorem trims_trimPlaces (coefficient scale : Nat) :
    Trims coefficient scale (trimPlaces coefficient scale) := by
  have precise := trims_dropImprecise coefficient scale
  have trimmed := trims_dropZeros (dropImprecise scale coefficient).1
    (dropImprecise scale coefficient).2
  exact ⟨trimmed.isZero.trans precise.isZero, Nat.le_trans trimmed.inRange precise.inRange,
    Nat.le_trans trimmed.fewPlaces precise.fewPlaces⟩

theorem ofScaled?_neg (negative : Bool) (coefficient places : Nat) :
    ofScaled? negative coefficient (-places) =
      let limited := limitPlaces coefficient places
      let trimmed := trimPlaces limited.1 limited.2
      some ⟨negative, trimmed.1, trimmed.2⟩ := by
  rw [ofScaled?, Int.neg_neg, Int.toNat_natCast, show (-(places : Int)).toNat = 0 by omega]
  rfl

/-- The decimal that is left of a coefficient with places. -/
theorem exists_ofScaled? (negative : Bool) (positive : 0 < coefficient) (places : Nat) :
    ∃ decimal, ofScaled? negative coefficient (-places) = some decimal ∧
      decimal.negative = negative ∧ decimal.coefficient ≤ coefficient ∧
        decimal.scale ≤ maxScale ∧
          (decimal.coefficient = 0 ↔ 9 * tenPow 29 * coefficient ≤ 85 * tenPow places) := by
  obtain ⟨inRange, fewPlaces⟩ := limitPlaces_bounds coefficient places
  have trimmed := trims_trimPlaces (limitPlaces coefficient places).1
    (limitPlaces coefficient places).2
  exact ⟨_, ofScaled?_neg negative coefficient places, rfl,
    Nat.le_trans trimmed.inRange inRange, Nat.le_trans trimmed.fewPlaces fewPlaces,
    trimmed.isZero.trans (limitPlaces_eq_zero_iff positive places)⟩

end Decimal96

/-! ## Values -/

namespace Number

variable {units fives significand : Nat}

/-- A value of so few units that nothing is left of it in 28 places: no more than
`85/9 · 10 ^ -29`. -/
def IsLost (units : Nat) : Prop :=
  9 * tenPow 29 * units ≤ 85 * unitsPerOne

instance (units : Nat) : Decidable (IsLost units) :=
  inferInstanceAs (Decidable (_ ≤ _))

theorem significand_lt (units : Nat) : units / spacing units < twoPow 53 := by
  have above := lt_twoPow_log2_succ units
  rw [Nat.div_lt_iff_lt_mul (spacing_pos units), spacing, ← twoPow_add]
  exact Nat.lt_of_lt_of_le above (twoPow_le_twoPow (by omega))

theorem twoPow_le_significand (notZero : units ≠ 0) (isNormal : 52 ≤ units.log2) :
    twoPow 52 ≤ units / spacing units := by
  rw [Nat.le_div_iff_mul_le (spacing_pos units), spacing, ← twoPow_add,
    show 52 + (units.log2 - 52) = units.log2 by omega]
  exact twoPow_log2_le (Nat.pos_of_ne_zero notZero)

theorem isLost_iff (isSpaced : spacing units ∣ units) (isFives : units.log2 - 52 + fives = 1074) :
    IsLost units ↔ 9 * tenPow 29 * (units / spacing units) ≤ 85 * twoPow fives := by
  have split : unitsPerOne = twoPow fives * spacing units := by
    rw [unitsPerOne, ← isFives, Nat.add_comm, twoPow_add, spacing]
  have multiple : 9 * tenPow 29 * units =
      9 * tenPow 29 * (units / spacing units) * spacing units := by
    rw [Nat.mul_assoc _ (_ / _), Nat.div_mul_cancel isSpaced]
  rw [IsLost, multiple, split, ← Nat.mul_assoc]
  exact Nat.mul_le_mul_right_iff (spacing_pos units)

/-- The significand of a value that is not lost is so much larger than the bound that losses of one
part in `2 ^ 93` for each five do not make up for it. At the binade of the bound this is seen from
the next significand, whose digits are given; the binades above it are apart as a whole. -/
theorem apart_of_not_isLost (notLost : 85 * twoPow fives < 9 * tenPow 29 * significand)
    (inRange : significand < twoPow 53) (isNormal : fives < 1074 → twoPow 52 ≤ significand) :
    Decimal96.finest * (85 * twoPow fives) <
      (Decimal96.finest - fives) * (9 * tenPow 29 * significand) := by
  rcases Nat.lt_or_ge fives 146 with isAbove | notAbove
  · have binade : Decimal96.finest * (85 * twoPow 145) <
        (Decimal96.finest - 145) * (9 * tenPow 29 * twoPow 52) := by decide +kernel
    calc Decimal96.finest * (85 * twoPow fives) ≤ Decimal96.finest * (85 * twoPow 145) :=
          Nat.mul_le_mul_left _ (Nat.mul_le_mul_left _
            (twoPow_le_twoPow (Nat.le_of_lt_succ isAbove)))
      _ < (Decimal96.finest - 145) * (9 * tenPow 29 * twoPow 52) := binade
      _ ≤ _ := Nat.mul_le_mul (Nat.sub_le_sub_left (Nat.le_of_lt_succ isAbove) _)
        (Nat.mul_le_mul_left _ (isNormal (by omega)))
  · rcases Nat.eq_or_lt_of_le notAbove with rfl | isBelow
    · have largestLost : 9 * tenPow 29 * 8424725963889346 ≤ 85 * twoPow 146 := by decide +kernel
      have next : Decimal96.finest * (85 * twoPow 146) <
          (Decimal96.finest - 146) * (9 * tenPow 29 * 8424725963889347) := by decide +kernel
      have isNext : 8424725963889346 < significand := by
        refine Nat.lt_of_not_le fun isLess => ?_
        have lost := Nat.le_trans (Nat.mul_le_mul_left (9 * tenPow 29) isLess) largestLost
        omega
      exact Nat.lt_of_lt_of_le next
        (Nat.mul_le_mul_left _ (Nat.mul_le_mul_left _ (Nat.succ_le_of_lt isNext)))
    · have binade : 9 * tenPow 29 * twoPow 53 ≤ 85 * twoPow 147 := by decide +kernel
      have lost : 9 * tenPow 29 * significand ≤ 85 * twoPow fives :=
        calc 9 * tenPow 29 * significand ≤ 9 * tenPow 29 * twoPow 53 :=
              Nat.mul_le_mul_left _ (Nat.le_of_lt inRange)
          _ ≤ 85 * twoPow 147 := binade
          _ ≤ 85 * twoPow fives :=
              Nat.mul_le_mul_left _ (twoPow_le_twoPow isBelow)
      omega

theorem not_isLost_of_le (isLarge : 1074 ≤ units.log2) : ¬IsLost units := by
  intro isLost
  have notZero : units ≠ 0 := by
    rintro rfl
    simp at isLarge
  have isWhole : unitsPerOne ≤ units :=
    calc twoPow 1074 ≤ twoPow units.log2 := twoPow_le_twoPow isLarge
      _ ≤ units := twoPow_log2_le (Nat.pos_of_ne_zero notZero)
  have isFactor : 85 < 9 * tenPow 29 := by decide +kernel
  have more : 85 * unitsPerOne < 9 * tenPow 29 * unitsPerOne :=
    Nat.mul_lt_mul_of_pos_right isFactor unitsPerOne_pos
  exact absurd (Nat.le_trans (Nat.mul_le_mul_left _ isWhole) isLost) (Nat.not_le.mpr more)

end Number

namespace Decimal96

variable {fives significand halves result units coefficient : Nat} {tens : Int} {pair : Nat × Int}

/-- Whether the coefficient that is left is dropped depends on the value alone. -/
theorem Absorbs.isDropped_iff (absorbs : Absorbs fives significand halves result)
    (inRange : significand < twoPow 53) (isNormal : fives < 1074 → twoPow 52 ≤ significand) :
    9 * tenPow 29 * result ≤ 85 * tenPow (fives - halves) ↔
      9 * tenPow 29 * significand ≤ 85 * twoPow fives := by
  have split : tenPow fives = tenPow (fives - halves) * tenPow halves := by
    rw [← Number.tenPow_add, Nat.sub_add_cancel absorbs.few]
  have scaled : 9 * tenPow 29 * result ≤ 85 * tenPow (fives - halves) ↔
      9 * tenPow 29 * (result * tenPow halves) ≤ 85 * twoPow fives * fivePow fives := by
    rw [Nat.mul_assoc 85, ← tenPow_eq, split, ← Nat.mul_assoc, ← Nat.mul_assoc]
    exact (Nat.mul_le_mul_right_iff (tenPow_pos halves)).symm
  rw [scaled]
  constructor
  · intro isDropped
    refine Nat.le_of_not_lt fun notLost => ?_
    have apart := Number.apart_of_not_isLost notLost inRange isNormal
    refine Nat.lt_irrefl (finest * (85 * twoPow fives * fivePow fives)) ?_
    calc finest * (85 * twoPow fives * fivePow fives) =
          finest * (85 * twoPow fives) * fivePow fives := (Nat.mul_assoc _ _ _).symm
      _ < (finest - fives) * (9 * tenPow 29 * significand) * fivePow fives :=
          Nat.mul_lt_mul_of_pos_right apart (fivePow_pos fives)
      _ = 9 * tenPow 29 * ((finest - fives) * (significand * fivePow fives)) := by ring
      _ ≤ 9 * tenPow 29 * (finest * (result * tenPow halves)) :=
          Nat.mul_le_mul_left _ absorbs.atLeast
      _ = finest * (9 * tenPow 29 * (result * tenPow halves)) := by ring
      _ ≤ finest * (85 * twoPow fives * fivePow fives) := Nat.mul_le_mul_left _ isDropped
  · intro isLost
    calc 9 * tenPow 29 * (result * tenPow halves) ≤
          9 * tenPow 29 * (significand * fivePow fives) := Nat.mul_le_mul_left _ absorbs.atMost
      _ = 9 * tenPow 29 * significand * fivePow fives := (Nat.mul_assoc _ _ _).symm
      _ ≤ 85 * twoPow fives * fivePow fives := Nat.mul_le_mul_right _ isLost

/-- The decimal of a value: in range, with the sign of the value, and zero only for a value that is
lost. -/
structure IsDecimalOf (negative : Bool) (units : Nat) (decimal : Decimal96) : Prop where
  sign : decimal.negative = negative
  inRange : decimal.coefficient < limit
  fewPlaces : decimal.scale ≤ maxScale
  isZero : decimal.coefficient = 0 ↔ Number.IsLost units

/-- A value of at most 53 bits before the point has a decimal. -/
theorem exists_ofNumber?_of_le (representable : Number.Representable units) (negative : Bool)
    (notZero : units ≠ 0) (isFives : units.log2 - 52 + fives = 1074) :
    ∃ decimal, ofNumber? (.finite negative units representable) = some decimal ∧
      IsDecimalOf negative units decimal := by
  have inRange := Number.significand_lt units
  have notLarge : twoPow 53 < limit := by decide +kernel
  have positive : 0 < units / Number.spacing units :=
    Nat.div_pos (Number.spacing_le representable.1 notZero) (Number.spacing_pos units)
  obtain ⟨result, halves, found, absorbs⟩ :=
    absorbs_absorbFives positive (Nat.lt_trans inRange notLarge) fives (-fives)
  have places : (-(fives : Int) + halves) = -((fives - halves : Nat) : Int) := by
    have few := absorbs.few
    omega
  obtain ⟨decimal, isDecimal, sign, notMore, fewPlaces, isZero⟩ :=
    exists_ofScaled? negative absorbs.positive (fives - halves)
  rw [ofNumber?_of_le representable negative notZero isFives, found, places]
  refine ⟨decimal, isDecimal, sign, Nat.lt_of_le_of_lt notMore absorbs.inRange, fewPlaces, ?_⟩
  rw [isZero, Number.isLost_iff representable.1 isFives]
  refine absorbs.isDropped_iff inRange fun isNormal => ?_
  exact Number.twoPow_le_significand notZero (by omega)

/-! ### Large values -/

theorem cancelFives_bounds (positive : 0 < coefficient) (inRange : coefficient < limit)
    (enough : (fives : Int) ≤ tens) (found : cancelFives fives coefficient tens = some pair) :
    0 < pair.1 ∧ pair.1 < limit ∧ 0 ≤ pair.2 := by
  induction fives generalizing coefficient tens with
  | zero =>
      cases found
      exact ⟨positive, inRange, enough⟩
  | succ fives induction =>
      have isLarge : 10 < limit := by decide +kernel
      rw [cancelFives] at found
      split at found
      · exact induction (by omega) (by omega) (by omega) found
      · split at found
        · cases found
        · exact induction (by omega) (by omega) (by omega) found

theorem absorbTens?_bounds {count : Nat} (positive : 0 < coefficient)
    (inRange : coefficient < limit) (found : absorbTens? count coefficient = some result) :
    0 < result ∧ result < limit := by
  induction count generalizing coefficient with
  | zero =>
      cases found
      exact ⟨positive, inRange⟩
  | succ count induction =>
      rw [absorbTens?] at found
      split at found
      · rename_i hasRoom
        exact induction (by omega) hasRoom found
      · cases found

theorem exists_coefficient_of_ofScaled? {negative : Bool} {decimal : Decimal96}
    (noPlaces : 0 ≤ tens) (found : ofScaled? negative coefficient tens = some decimal) :
    ∃ result, absorbTens? tens.toNat coefficient = some result ∧
      decimal = ⟨negative, result, 0⟩ := by
  rw [ofScaled?, show (-tens).toNat = 0 by omega] at found
  obtain ⟨result, absorbed, spelled⟩ := Option.map_eq_some_iff.mp found
  exact ⟨result, absorbed, spelled.symm⟩

/-- A value of more than 53 bits before the point has a decimal without places, if any. -/
theorem isDecimalOf_of_lt (representable : Number.Representable units) {negative : Bool}
    (isLarge : 1074 < units.log2 - 52) {decimal : Decimal96}
    (found : ofNumber? (.finite negative units representable) = some decimal) :
    IsDecimalOf negative units decimal := by
  have notZero : units ≠ 0 := by
    rintro rfl
    simp at isLarge
  have notLost : ¬Number.IsLost units := Number.not_isLost_of_le (by omega)
  have notMore : twoPow 53 < limit := by decide +kernel
  have inRange := Nat.lt_trans (Number.significand_lt units) notMore
  have positive : 0 < units / Number.spacing units :=
    Nat.div_pos (Number.spacing_le representable.1 notZero) (Number.spacing_pos units)
  simp only [ofNumber?, if_neg notZero] at found
  rw [if_neg (by omega)] at found
  obtain ⟨pair, cancelled, scaled⟩ := Option.bind_eq_some_iff.mp found
  obtain ⟨pairPositive, pairInRange, noPlaces⟩ :=
    cancelFives_bounds positive inRange (by omega) cancelled
  obtain ⟨result, absorbed, rfl⟩ := exists_coefficient_of_ofScaled? noPlaces scaled
  obtain ⟨resultPositive, resultInRange⟩ := absorbTens?_bounds pairPositive pairInRange absorbed
  exact ⟨rfl, resultInRange, Nat.zero_le _, iff_of_false (Nat.ne_of_gt resultPositive) notLost⟩

/-- Every value has a decimal with its sign, or has none and is large. -/
theorem ofNumber?_cases (representable : Number.Representable units) (negative : Bool) :
    (∃ decimal, ofNumber? (.finite negative units representable) = some decimal ∧
      IsDecimalOf negative units decimal) ∨
    ofNumber? (.finite negative units representable) = none ∧ ¬Number.IsLost units := by
  by_cases isZero : units = 0
  · subst isZero
    refine .inl ⟨⟨negative, 0, 0⟩, by simp only [ofNumber?, if_true], rfl, ?_, ?_, ?_⟩
    · exact twoPow_pos 96
    · exact Nat.zero_le _
    · exact iff_of_true rfl (Nat.zero_le _)
  · rcases Nat.lt_or_ge 1074 (units.log2 - 52) with isLarge | isSmall
    · cases found : ofNumber? (.finite negative units representable) with
      | some decimal => exact .inl ⟨decimal, rfl, isDecimalOf_of_lt representable isLarge found⟩
      | none => exact .inr ⟨rfl, Number.not_isLost_of_le (by omega)⟩
    · exact .inl (exists_ofNumber?_of_le representable negative isZero
        (Nat.add_sub_cancel' isSmall))

end Decimal96

end TreeQuery
