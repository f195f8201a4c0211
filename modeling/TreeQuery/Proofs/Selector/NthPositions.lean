import Mathlib.Data.Int.ModEq
import Mathlib.Order.Bounds.Basic
import TreeQuery.Selector.Nth

/-!
Selected positions and arithmetic progressions.

The positions `step · n + offset` are those on the far side of the offset, away from it in the
direction of the step. Membership tests the sign of another number, `position · step + offset`, so
the selected positions are the listed ones for some steps and offsets only: without a step, for
`-1`, for a positive step if the first candidate passes and the offset is not beyond the step, and
for other negative steps where nothing is listed at all.
-/

namespace TreeQuery

namespace Nth

variable {nth : Nth} {position : Int}

/-- The positions of the progression that starts at the offset. -/
def Lists (nth : Nth) (position : Int) : Prop :=
  ∃ count : Nat, position = nth.step * count + nth.offset

/-- A selected position is a multiple of the step away from the offset, on either side of it. -/
theorem contains_iff (hasStep : nth.step ≠ 0) :
    nth.contains position = true ↔
      nth.step ∣ position - nth.offset ∧ 0 ≤ position * nth.step + nth.offset := by
  rw [contains, if_neg hasStep, Bool.and_eq_true, beq_iff_eq, decide_eq_true_eq,
    ← Int.dvd_iff_tmod_eq_zero]

theorem contains_iff_of_zero (noStep : nth.step = 0) :
    nth.contains position = true ↔ position = nth.offset := by
  rw [contains, if_pos noStep, beq_iff_eq]

theorem lists_iff_of_zero (noStep : nth.step = 0) : nth.Lists position ↔ position = nth.offset := by
  simp [Lists, noStep]

theorem lists_iff : nth.Lists position ↔
    ∃ count : Int, 0 ≤ count ∧ position - nth.offset = nth.step * count := by
  constructor
  · rintro ⟨count, rfl⟩
    exact ⟨count, Int.natCast_nonneg count, by omega⟩
  · rintro ⟨count, nonneg, distance⟩
    refine ⟨count.toNat, ?_⟩
    rw [Int.toNat_of_nonneg nonneg]
    omega

theorem lists_iff_of_pos (forward : 0 < nth.step) :
    nth.Lists position ↔ nth.step ∣ position - nth.offset ∧ nth.offset ≤ position := by
  rw [lists_iff]
  constructor
  · rintro ⟨count, nonneg, distance⟩
    have further := Int.mul_nonneg forward.le nonneg
    exact ⟨⟨count, distance⟩, by omega⟩
  · rintro ⟨⟨count, distance⟩, notBefore⟩
    have nonneg : 0 ≤ nth.step * count := by omega
    exact ⟨count, Int.nonneg_of_mul_nonneg_right nonneg forward, distance⟩

theorem lists_iff_of_neg (backward : nth.step < 0) :
    nth.Lists position ↔ nth.step ∣ position - nth.offset ∧ position ≤ nth.offset := by
  rw [lists_iff]
  constructor
  · rintro ⟨count, nonneg, distance⟩
    have further := Int.mul_nonpos_of_nonpos_of_nonneg backward.le nonneg
    exact ⟨⟨count, distance⟩, by omega⟩
  · rintro ⟨⟨count, distance⟩, notBehind⟩
    have nonneg : 0 ≤ -nth.step * count := by
      rw [Int.neg_mul]
      omega
    exact ⟨count, Int.nonneg_of_mul_nonneg_right nonneg (Int.neg_pos.mpr backward), distance⟩

/-- Whether the selected positions are those of the progression. -/
def SelectsListed (nth : Nth) : Prop :=
  ∀ position, 1 ≤ position → (nth.contains position = true ↔ nth.Lists position)

/-- The first position that is congruent to the offset. -/
def IsFirst (nth : Nth) (first : Int) : Prop :=
  IsLeast {position : Int | 0 < position ∧ position ≡ nth.offset [ZMOD nth.step]} first

/-- Candidates are at least a step apart. -/
theorem step_le_sub {other : Int} (congruent : nth.step ∣ position - other)
    (isBefore : position < other) : nth.step ≤ other - position := by
  have swapped := Int.dvd_neg.mpr congruent
  rw [Int.neg_sub] at swapped
  exact Int.le_of_dvd (Int.sub_pos_of_lt isBefore) swapped

/-- The remainder of the offset, counted from one. -/
theorem exists_isFirst (forward : 0 < nth.step) :
    ∃ first, nth.IsFirst first ∧ first ≤ nth.step := by
  have notNegative := Int.emod_nonneg (nth.offset - 1) forward.ne'
  have belowStep := Int.emod_lt_of_pos (nth.offset - 1) forward
  refine ⟨(nth.offset - 1) % nth.step + 1, ⟨⟨by omega, ?_⟩, ?_⟩, by omega⟩
  · have congruent := (Int.mod_modEq (nth.offset - 1) nth.step).add_right 1
    rwa [Int.sub_add_cancel] at congruent
  · rintro position ⟨isPositive, congruent⟩
    have shifted : (position - 1) % nth.step = (nth.offset - 1) % nth.step :=
      congruent.sub_right 1
    have before : 0 ≤ position - 1 := Int.sub_nonneg_of_le isPositive
    have whole := Int.emod_add_mul_ediv (position - 1) nth.step
    have steps := Int.mul_nonneg forward.le (Int.ediv_nonneg before forward.le)
    omega

namespace IsFirst

variable {first : Int} (isFirst : nth.IsFirst first)

include isFirst

theorem dvd : nth.step ∣ first - nth.offset :=
  (Int.modEq_iff_dvd.mp isFirst.1.2.symm)

theorem le_step (forward : 0 < nth.step) : first ≤ nth.step := by
  obtain ⟨other, isOther, withinStep⟩ := exists_isFirst forward
  rwa [isFirst.unique isOther]

theorem le (isPositive : 1 ≤ position) (candidate : nth.step ∣ position - nth.offset) :
    first ≤ position :=
  isFirst.2 ⟨isPositive, (Int.modEq_iff_dvd.mpr candidate).symm⟩

end IsFirst

theorem selectsListed_of_zero (noStep : nth.step = 0) : nth.SelectsListed := by
  intro position _
  rw [contains_iff_of_zero noStep, lists_iff_of_zero noStep]

/-- For a positive step, the offset may not be beyond the step, and the first candidate has to
pass. -/
theorem selectsListed_iff_of_pos (forward : 0 < nth.step) {first : Int}
    (isFirst : nth.IsFirst first) :
    nth.SelectsListed ↔ nth.offset ≤ nth.step ∧ 0 ≤ nth.step * first + nth.offset := by
  constructor
  · intro agree
    have atFirst := agree first isFirst.1.1
    rw [contains_iff forward.ne', lists_iff_of_pos forward, and_congr_right_iff] at atFirst
    have passesIff := atFirst isFirst.dvd
    have isPositive : 0 < first := isFirst.1.1
    have further : 0 < first * nth.step := Int.mul_pos isPositive forward
    have withinStep := isFirst.le_step forward
    have offsetWithin : nth.offset ≤ nth.step := by
      by_contra beyond
      have listed := passesIff.mp (by omega)
      omega
    have notAfter : nth.offset ≤ first := by
      by_contra after
      have apart := step_le_sub isFirst.dvd (by omega)
      omega
    have passes := passesIff.mpr notAfter
    rw [Int.mul_comm] at passes
    exact ⟨offsetWithin, passes⟩
  · rintro ⟨offsetWithin, firstPasses⟩ position isPositive
    rw [contains_iff forward.ne', lists_iff_of_pos forward]
    refine and_congr_right fun candidate => ?_
    have notBefore := isFirst.le isPositive candidate
    have further := Int.mul_le_mul_of_nonneg_left notBefore forward.le
    rw [Int.mul_comm position]
    refine iff_of_true (by omega) ?_
    by_contra before
    have apart := step_le_sub candidate (by omega)
    omega

theorem selectsListed_of_neg_one (isNegOne : nth.step = -1) : nth.SelectsListed := by
  intro position _
  rw [contains_iff (by omega), lists_iff_of_neg (by omega), isNegOne]
  refine and_congr_right fun _ => ?_
  omega

/-- For other negative steps, the offset is listed and not selected if it is a position. -/
theorem selectsListed_iff_of_lt (backward : nth.step < -1) :
    nth.SelectsListed ↔ nth.offset ≤ 0 := by
  have isNegative : nth.step < 0 := by omega
  constructor
  · intro agree
    by_contra beyond
    have atOffset := agree nth.offset (by omega)
    rw [contains_iff isNegative.ne, lists_iff_of_neg isNegative] at atOffset
    have passes := (atOffset.mpr (by simp)).2
    have tooSmall := Int.mul_le_mul_of_nonneg_left (show nth.step ≤ -2 by omega)
      (show 0 ≤ nth.offset by omega)
    omega
  · intro notPositive position isPositive
    rw [contains_iff isNegative.ne, lists_iff_of_neg isNegative]
    refine and_congr_right fun _ => iff_of_false ?_ (by omega)
    have further := Int.mul_neg_of_pos_of_neg (show 0 < position by omega) isNegative
    omega

/-- Selection is membership in the progression exactly without a step, for a positive step that the
offset does not exceed if the first candidate passes, for the step `-1`, and for other negative
steps if the offset is no position. -/
theorem selectsListed_iff (nth : Nth) :
    nth.SelectsListed ↔ nth.step = 0 ∨
      (0 < nth.step ∧ nth.offset ≤ nth.step ∧
        ∃ first, nth.IsFirst first ∧ 0 ≤ nth.step * first + nth.offset) ∨
      nth.step = -1 ∨ (nth.step < -1 ∧ nth.offset ≤ 0) := by
  constructor
  · intro agree
    rcases lt_trichotomy nth.step 0 with backward | noStep | forward
    · by_cases isNegOne : nth.step = -1
      · exact .inr (.inr (.inl isNegOne))
      · have steep : nth.step < -1 := by omega
        exact .inr (.inr (.inr ⟨steep, (selectsListed_iff_of_lt steep).mp agree⟩))
    · exact .inl noStep
    · obtain ⟨first, isFirst, _⟩ := exists_isFirst forward
      obtain ⟨offsetWithin, passes⟩ := (selectsListed_iff_of_pos forward isFirst).mp agree
      exact .inr (.inl ⟨forward, offsetWithin, first, isFirst, passes⟩)
  · rintro (noStep | ⟨forward, offsetWithin, first, isFirst, passes⟩ | isNegOne |
      ⟨steep, notPositive⟩)
    · exact selectsListed_of_zero noStep
    · exact (selectsListed_iff_of_pos forward isFirst).mpr ⟨offsetWithin, passes⟩
    · exact selectsListed_of_neg_one isNegOne
    · exact (selectsListed_iff_of_lt steep).mpr notPositive

/-- The odd positions from `2n-1`, and the positions of `2n+3`, of which the first is selected
too. -/
theorem selectsListed_iff_odd :
    SelectsListed ⟨2, -1, false⟩ ∧ ¬ SelectsListed ⟨2, 3, false⟩ := by
  constructor
  · refine (selectsListed_iff ⟨2, -1, false⟩).mpr
      (.inr (.inl ⟨by decide, by decide, 1, ?_, by decide⟩))
    exact ⟨⟨by decide, by decide⟩, fun position isCandidate => isCandidate.1⟩
  · intro agree
    have listed := (selectsListed_iff ⟨2, 3, false⟩).mp agree
    simp at listed

end Nth

end TreeQuery
