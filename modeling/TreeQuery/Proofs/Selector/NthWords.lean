import TreeQuery.Selector.Nth

/-!
Positions in machine words.

Steps and offsets are kept in words of 64 bits with a sign, indices and sibling counts in words of
64 bits without one, and membership computes with their values in words of 128 bits. All integers on
the way fit there, down to the least one, which a step and an offset of `-2 ^ 63` reach at the last
index. So membership in words is membership among the integers, also for an index behind the last
sibling.
-/

namespace TreeQuery

/-! ## Words of 128 bits -/

/-- A word of 128 bits with a sign. -/
abbrev WideWord := BitVec 128

namespace WideWord

variable {left right result word : WideWord} {value bound : Int}

/-- Whether a word holds an integer. -/
def InRange (value : Int) : Prop :=
  -(twoPow 127 : Int) ≤ value ∧ value < twoPow 127

instance (value : Int) : Decidable (InRange value) :=
  inferInstanceAs (Decidable (_ ∧ _))

/-- The result of an operation, unless it overflows. -/
def guarded (overflows : Bool) (result : WideWord) : Option WideWord :=
  if overflows then none else some result

def sub? (left right : WideWord) : Option WideWord :=
  guarded (left.ssubOverflow right) (left - right)

def add? (left right : WideWord) : Option WideWord :=
  guarded (left.saddOverflow right) (left + right)

def mul? (left right : WideWord) : Option WideWord :=
  guarded (left.smulOverflow right) (left * right)

/-- The remainder of division toward zero. There is none by zero, and none of the least word by
minus one, whose quotient is out of range. -/
def rem? (left right : WideWord) : Option WideWord :=
  if right = 0 ∨ left = BitVec.intMin 128 ∧ right = -1 then none else some (left.srem right)

theorem twoPow_127 : (twoPow 127 : Int) = 170141183460469231731687303715884105728 := rfl

theorem inRange_toInt (word : WideWord) : InRange word.toInt := by
  have atLeast := word.le_toInt
  have below : word.toInt < 2 ^ (128 - 1) := BitVec.toInt_lt
  rw [InRange, twoPow_127]
  omega

theorem exists_toInt_eq (inRange : InRange value) : ∃ word : WideWord, word.toInt = value := by
  rw [InRange, twoPow_127] at inRange
  exact ⟨BitVec.ofInt 128 value, BitVec.toInt_ofInt_eq_self (by decide) (by omega) (by omega)⟩

/-- An operation that is exact without overflow has the exact result or none. -/
theorem guarded_eq_some_iff (isBound : bound = twoPow 127)
    (exact : ¬(decide (value ≥ bound) || decide (value < -bound)) = true → result.toInt = value) :
    guarded (decide (value ≥ bound) || decide (value < -bound)) result = some word ↔
      word.toInt = value := by
  have fits := inRange_toInt word
  unfold guarded
  split
  · rename_i overflows
    simp only [Bool.or_eq_true, decide_eq_true_eq] at overflows
    simp only [InRange, ← isBound] at fits
    simp only [reduceCtorEq, false_iff]
    omega
  · rename_i isExact
    rw [Option.some.injEq, ← BitVec.toInt_inj, exact isExact, eq_comm]

theorem sub?_eq_some_iff :
    sub? left right = some word ↔ word.toInt = left.toInt - right.toInt :=
  guarded_eq_some_iff rfl BitVec.toInt_sub_of_not_ssubOverflow

theorem add?_eq_some_iff :
    add? left right = some word ↔ word.toInt = left.toInt + right.toInt :=
  guarded_eq_some_iff rfl BitVec.toInt_add_of_not_saddOverflow

theorem mul?_eq_some_iff :
    mul? left right = some word ↔ word.toInt = left.toInt * right.toInt :=
  guarded_eq_some_iff rfl BitVec.toInt_mul_of_not_smulOverflow

theorem rem?_eq_some (notZero : right ≠ 0) (notLeast : left ≠ BitVec.intMin 128) :
    ∃ remainder, rem? left right = some remainder ∧
      remainder.toInt = left.toInt.tmod right.toInt := by
  refine ⟨left.srem right, if_neg ?_, BitVec.toInt_srem left right⟩
  rintro (isZero | ⟨isLeast, _⟩)
  · exact notZero isZero
  · exact notLeast isLeast

end WideWord

namespace Nth

/-! ## Membership in words -/

/-- Step and offset as they are kept, in words of 64 bits with a sign. -/
structure Stored where
  step : Int64
  offset : Int64
  fromEnd : Bool

namespace Stored

open WideWord

/-- The positions that the words stand for. -/
def toNth (stored : Stored) : Nth :=
  ⟨stored.step.toInt, stored.offset.toInt, stored.fromEnd⟩

/-- Membership in words. There is no answer if an integer on the way is out of range, or if a
remainder cannot be taken. -/
def contains? (stored : Stored) (position : WideWord) : Option Bool :=
  let step := stored.step.toBitVec.signExtend 128
  let offset := stored.offset.toBitVec.signExtend 128
  if step = 0 then
    some (position == offset)
  else do
    let distance ← sub? position offset
    let remainder ← rem? distance step
    if remainder = 0 then
      let product ← mul? position step
      let sum ← add? product offset
      return (0 : WideWord).sle sum
    else
      return false

/-- The position of an element in words, counted from 1 at the chosen end. -/
def position? (stored : Stored) (index siblings : UInt64) : Option WideWord :=
  let index := index.toBitVec.setWidth 128
  let siblings := siblings.toBitVec.setWidth 128
  if stored.fromEnd then do
    let before ← sub? index 1
    sub? siblings before
  else
    some index

/-- The test of an array element in words. -/
def test? (stored : Stored) (index siblings : UInt64) : Option Bool :=
  if siblings = 0 ∨ index = 0 then
    some false
  else
    (stored.position? index siblings).bind stored.contains?

end Stored

/-! ## The integers on the way -/

/-- The integers that the test of an element goes through, in either direction and whatever the
remainder is. What has index or sibling count zero is not tested. -/
def workings (nth : Nth) (index siblings : Nat) : List Int :=
  if siblings = 0 ∨ index = 0 then
    []
  else
    let position := nth.position index siblings
    [index - 1, siblings - (index - 1), position - nth.offset,
      (position - nth.offset).tmod nth.step, position * nth.step,
      position * nth.step + nth.offset]

namespace Stored

open WideWord

variable (stored : Stored) {index siblings : UInt64} {position : Int} {word : WideWord}

theorem twoPow_64 : twoPow 64 = 18446744073709551616 := rfl

theorem bounds :
    stored.toNth.step.natAbs ≤ 9223372036854775808 ∧
      -9223372036854775808 ≤ stored.toNth.offset ∧ stored.toNth.offset < 9223372036854775808 := by
  have stepAtLeast := stored.step.le_toInt
  have stepBelow := stored.step.toInt_lt
  have offsetAtLeast := stored.offset.le_toInt
  have offsetBelow := stored.offset.toInt_lt
  simp only [toNth]
  omega

/-- A position is less than `2 ^ 64` away from zero, also before the first element. -/
theorem natAbs_position_lt (siblings : UInt64) (tested : index ≠ 0) :
    (stored.toNth.position index.toNat siblings.toNat).natAbs < twoPow 64 := by
  have indexBelow := index.toNat_lt
  have siblingsBelow := siblings.toNat_lt
  have isPositive : index.toNat ≠ 0 := fun isZero => tested (UInt64.toNat_inj.mp isZero)
  rw [twoPow_64, Nth.position]
  split <;> omega

theorem natAbs_product_le (small : position.natAbs < twoPow 64) :
    (position * stored.toNth.step).natAbs ≤ 18446744073709551615 * 9223372036854775808 := by
  rw [twoPow_64] at small
  rw [Int.natAbs_mul]
  exact Nat.mul_le_mul (Nat.le_of_lt_succ small) stored.bounds.1

/-- The integers that membership goes through at a position. The last one is the least of the range
if step, offset and position are extreme. -/
theorem inRange_of_small (small : position.natAbs < twoPow 64) :
    InRange (position - stored.toNth.offset) ∧
      InRange ((position - stored.toNth.offset).tmod stored.toNth.step) ∧
        InRange (position * stored.toNth.step) ∧
          InRange (position * stored.toNth.step + stored.toNth.offset) := by
  have product := stored.natAbs_product_le small
  obtain ⟨_, offsetAtLeast, offsetBelow⟩ := stored.bounds
  have remainder := Int.natAbs_tmod (position - stored.toNth.offset) stored.toNth.step
  have notLarger := Nat.mod_le (position - stored.toNth.offset).natAbs stored.toNth.step.natAbs
  rw [twoPow_64] at small
  simp only [InRange, twoPow_127]
  omega

theorem inRange_counts (index siblings : UInt64) :
    InRange ((index.toNat : Int) - 1) ∧ InRange ((siblings.toNat : Int) - (index.toNat - 1)) := by
  have indexBelow := index.toNat_lt
  have siblingsBelow := siblings.toNat_lt
  simp only [InRange, twoPow_127]
  omega

theorem inRange_workings (index siblings : UInt64) :
    ∀ value ∈ stored.toNth.workings index.toNat siblings.toNat, InRange value := by
  rw [workings]
  split
  · exact List.forall_mem_nil _
  · rename_i isTested
    have notFirst : index ≠ 0 := fun isZero => isTested (.inr (congrArg UInt64.toNat isZero))
    obtain ⟨distance, remainder, product, sum⟩ :=
      stored.inRange_of_small (stored.natAbs_position_lt siblings notFirst)
    obtain ⟨before, mirrored⟩ := inRange_counts index siblings
    simp only [List.forall_mem_cons]
    exact ⟨before, mirrored, distance, remainder, product, sum, List.forall_mem_nil _⟩

/-! ## Exactness -/

theorem toInt_step : (stored.step.toBitVec.signExtend 128).toInt = stored.toNth.step :=
  BitVec.toInt_signExtend_of_le (by decide)

theorem toInt_offset : (stored.offset.toBitVec.signExtend 128).toInt = stored.toNth.offset :=
  BitVec.toInt_signExtend_of_le (by decide)

theorem toInt_setWidth (count : UInt64) : (count.toBitVec.setWidth 128).toInt = count.toNat := by
  have below := count.toNat_lt
  rw [BitVec.toInt_setWidth, UInt64.toNat_toBitVec]
  exact Int.bmod_eq_of_le (by omega) (by omega)

theorem toInt_eq_zero_iff : word.toInt = 0 ↔ word = 0 := by
  rw [← BitVec.toInt_inj, show (0 : WideWord).toInt = 0 from rfl]

/-- The distance from the offset has at most 65 bits, so its remainder can be taken. -/
theorem exists_distance (small : word.toInt.natAbs < twoPow 64) :
    ∃ distance, sub? word (stored.offset.toBitVec.signExtend 128) = some distance ∧
      distance.toInt = word.toInt - stored.toNth.offset ∧ distance ≠ BitVec.intMin 128 := by
  obtain ⟨distance, isDistance⟩ := exists_toInt_eq (stored.inRange_of_small small).1
  refine ⟨distance, ?_, isDistance, ?_⟩
  · rw [sub?_eq_some_iff, toInt_offset, isDistance]
  · rintro rfl
    have least : (BitVec.intMin 128).toInt = -170141183460469231731687303715884105728 := rfl
    obtain ⟨_, offsetAtLeast, offsetBelow⟩ := stored.bounds
    rw [twoPow_64] at small
    omega

theorem exists_sum (small : word.toInt.natAbs < twoPow 64) :
    ∃ product sum, mul? word (stored.step.toBitVec.signExtend 128) = some product ∧
      add? product (stored.offset.toBitVec.signExtend 128) = some sum ∧
        sum.toInt = word.toInt * stored.toNth.step + stored.toNth.offset := by
  obtain ⟨_, _, productInside, sumInside⟩ := stored.inRange_of_small small
  obtain ⟨product, isProduct⟩ := exists_toInt_eq productInside
  obtain ⟨sum, isSum⟩ := exists_toInt_eq sumInside
  refine ⟨product, sum, ?_, ?_, isSum⟩
  · rw [mul?_eq_some_iff, toInt_step, isProduct]
  · rw [add?_eq_some_iff, toInt_offset, isProduct, isSum]

/-- Membership in words is membership among the integers. -/
theorem contains?_eq (small : word.toInt.natAbs < twoPow 64) :
    stored.contains? word = some (stored.toNth.contains word.toInt) := by
  have isZeroIff : stored.step.toBitVec.signExtend 128 = 0 ↔ stored.toNth.step = 0 := by
    rw [← toInt_eq_zero_iff, toInt_step]
  simp only [contains?, Nth.contains, isZeroIff]
  split
  · rw [Option.some.injEq, Bool.eq_iff_iff, beq_iff_eq, beq_iff_eq, ← BitVec.toInt_inj,
      toInt_offset]
  · rename_i hasStep
    obtain ⟨distance, subtracted, isDistance, notLeast⟩ := stored.exists_distance small
    obtain ⟨remainder, divided, isRemainder⟩ := rem?_eq_some (mt isZeroIff.mp hasStep) notLeast
    obtain ⟨product, sum, multiplied, added, isSum⟩ := stored.exists_sum small
    rw [isDistance, toInt_step] at isRemainder
    simp only [subtracted, divided, multiplied, added, Option.bind_eq_bind, Option.bind_some,
      ← toInt_eq_zero_iff, isRemainder]
    split
    · rename_i isMultiple
      rw [isMultiple, beq_self_eq_true, Bool.true_and, ← isSum]
      rfl
    · rename_i notMultiple
      rw [beq_false_of_ne notMultiple, Bool.false_and]
      rfl

theorem position?_eq (index siblings : UInt64) :
    ∃ position, stored.position? index siblings = some position ∧
      position.toInt = stored.toNth.position index.toNat siblings.toNat := by
  obtain ⟨step, offset, fromEnd⟩ := stored
  cases fromEnd with
  | false => exact ⟨_, rfl, toInt_setWidth index⟩
  | true =>
      obtain ⟨beforeInside, mirroredInside⟩ := inRange_counts index siblings
      obtain ⟨before, isBefore⟩ := exists_toInt_eq beforeInside
      obtain ⟨position, isPosition⟩ := exists_toInt_eq mirroredInside
      refine ⟨position, ?_, isPosition⟩
      have subtracted : sub? (index.toBitVec.setWidth 128) 1 = some before := by
        rw [sub?_eq_some_iff, toInt_setWidth, isBefore]
        rfl
      have mirrored : sub? (siblings.toBitVec.setWidth 128) before = some position := by
        rw [sub?_eq_some_iff, toInt_setWidth, isPosition, isBefore]
      simp only [position?, if_true, subtracted, Option.bind_eq_bind, Option.bind_some, mirrored]

/-- No integer on the way of a test is out of range, no remainder is one by zero or of the least
integer by minus one, and the answer is that of the integers. -/
theorem test_exact (stored : Stored) (index siblings : UInt64) :
    (∀ value ∈ stored.toNth.workings index.toNat siblings.toNat, InRange value) ∧
      stored.test? index siblings = some (stored.toNth.test index.toNat siblings.toNat) := by
  refine ⟨stored.inRange_workings index siblings, ?_⟩
  by_cases untested : siblings = 0 ∨ index = 0
  · rw [test?, if_pos untested, Nth.test]
    rcases untested with rfl | rfl <;> simp
  · obtain ⟨hasSiblings, tested⟩ := not_or.mp untested
    obtain ⟨position, counted, isPosition⟩ := stored.position?_eq index siblings
    have small := stored.natAbs_position_lt siblings tested
    rw [← isPosition] at small
    rw [test?, if_neg untested, counted, Option.bind_some, stored.contains?_eq small, isPosition,
      Nth.test]
    have isTested : (siblings.toNat != 0 && index.toNat != 0) = true := by
      simpa [← UInt64.toNat_inj] using And.intro hasSiblings tested
    rw [isTested, Bool.true_and]

/-- The least step and offset at the last index, where the sum is the least integer of the range. -/
theorem test_exact_least :
    let stored : Stored := ⟨-9223372036854775808, -9223372036854775808, false⟩
    let last : UInt64 := 18446744073709551615
    InRange (-(twoPow 127 : Int)) ∧ ¬ InRange (-(twoPow 127 : Int) - 1) ∧
      -(twoPow 127 : Int) ∈ stored.toNth.workings last.toNat last.toNat ∧
        stored.test? last last = some (stored.toNth.test last.toNat last.toNat) := by
  intro stored last
  have isReached : -(twoPow 127 : Int) ∈ stored.toNth.workings last.toNat last.toNat := by
    decide +kernel
  obtain ⟨inside, answers⟩ := test_exact stored last last
  exact ⟨inside _ isReached, by decide +kernel, isReached, answers⟩

end Stored

end Nth

end TreeQuery
