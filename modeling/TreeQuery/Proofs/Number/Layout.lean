import TreeQuery.Number.Layout
import TreeQuery.Proofs.Number.Reading
import TreeQuery.Proofs.Number.Shortest

/-!
Written numbers read back.

Every layout writes a finite number as a sign and a decimal that reads back as the number, whether
with zeros or with an exponent. So the text of a number in one layout is the text of no other number
in it.
-/

namespace TreeQuery

open TokenRule

namespace Number

variable {units other : Nat} {text : List Char}

/-! ## Digits -/

theorem digitsValue_toDigits (value : Nat) : digitsValue (Nat.toDigits 10 value) = value :=
  Nat.ofDigitChars_toDigits (by decide) (by decide)

theorem isDigits_toDigits (value : Nat) : IsDigits (Nat.toDigits 10 value) :=
  ⟨Nat.toDigits_ne_nil, fun _ isMember =>
    Nat.isDigit_of_mem_toDigits (by decide) (by decide) isMember⟩

theorem digitsValue_append_zeros (digits : List Char) (count : Nat) :
    digitsValue (digits ++ List.replicate count '0') = tenPow count * digitsValue digits := by
  rw [digitsValue, Nat.ofDigitChars_append, Nat.ofDigitChars_replicate_zero]
  rfl

theorem digitsValue_zeros_append (count : Nat) (digits : List Char) :
    digitsValue (List.replicate count '0' ++ digits) = digitsValue digits := by
  rw [digitsValue, Nat.ofDigitChars_append, Nat.ofDigitChars_replicate_zero, Nat.mul_zero]
  rfl

theorem isDigits_append_zeros {digits : List Char} (areDigits : IsDigits digits) (count : Nat) :
    IsDigits (digits ++ List.replicate count '0') := by
  refine ⟨List.append_ne_nil_of_left_ne_nil areDigits.1 _, fun c isMember => ?_⟩
  rcases List.mem_append.mp isMember with isDigit | isZero
  · exact areDigits.2 c isDigit
  · rw [List.eq_of_mem_replicate isZero]
    rfl

theorem isDigits_zeros_append (count : Nat) {digits : List Char} (areDigits : IsDigits digits) :
    IsDigits (List.replicate count '0' ++ digits) := by
  refine ⟨List.append_ne_nil_of_right_ne_nil _ areDigits.1, fun c isMember => ?_⟩
  rcases List.mem_append.mp isMember with isZero | isDigit
  · rw [List.eq_of_mem_replicate isZero]
    rfl
  · exact areDigits.2 c isDigit

/-! ## Texts of decimals -/

/-- The characters of written numbers besides digits. -/
def numberMarks : List Char := ['-', '+', '.', 'e', 'E', 'N', 'a', 'i', 'n', 'f']

/-- A text in digits that is read as a decimal which reads back as the value of `units`. -/
structure Spells (text : List Char) (units : Nat) : Prop where
  isNumber : unsignedNumber.Matches text
  starts : ∃ first rest, text = first :: rest ∧ first.isDigit = true
  characters : ∀ c ∈ text, c.isDigit = true ∨ c ∈ numberMarks
  reads : ∃ decimal, readDecimal? text = some decimal ∧
    readsBack units decimal.coefficient decimal.exponent = true

/-- A text spells one value at most. -/
theorem Spells.unique (spells : Spells text units) (alsoSpells : Spells text other)
    (isSpaced : spacing units ∣ units) (otherSpaced : spacing other ∣ other) : units = other := by
  obtain ⟨decimal, reads, readsBack⟩ := spells.reads
  obtain ⟨same, alsoReads, alsoReadsBack⟩ := alsoSpells.reads
  cases reads.symm.trans alsoReads
  exact eq_of_readsBack isSpaced otherSpaced readsBack alsoReadsBack

theorem Spells.ne_cons (spells : Spells text units) {c : Char} (notDigit : c.isDigit = false)
    (rest : List Char) : text ≠ c :: rest := by
  intro spelled
  obtain ⟨first, others, isText, isDigit⟩ := spells.starts
  cases isText.symm.trans spelled
  cases notDigit.symm.trans isDigit

theorem isDigit_or_mem_of_isFraction {fraction : List Char} (isFraction : IsFraction fraction) :
    ∀ c ∈ fraction, c.isDigit = true ∨ c ∈ numberMarks := by
  cases isFraction with
  | none => simp
  | places areDigits =>
      exact List.forall_mem_cons.mpr
        ⟨.inr (by decide), fun c isMember => .inl (areDigits.2 c isMember)⟩

theorem isDigit_or_mem_of_isExponent {exponent : List Char} (isExponent : IsExponent exponent) :
    ∀ c ∈ exponent, c.isDigit = true ∨ c ∈ numberMarks := by
  cases isExponent with
  | none => simp
  | @power letter sign digits isLetter isSign areDigits =>
      refine List.forall_mem_cons.mpr ⟨.inr ?_, List.forall_mem_append.mpr
        ⟨fun c isMember => .inr ?_, fun c isMember => .inl (areDigits.2 c isMember)⟩⟩
      · rcases isLetter with rfl | rfl <;> decide
      · rcases isSign with rfl | rfl | rfl
        · cases isMember
        · rw [List.mem_singleton.mp isMember]
          decide
        · rw [List.mem_singleton.mp isMember]
          decide

theorem spells_of_parts {whole fraction exponent : List Char} {power : Int}
    (areDigits : IsDigits whole) (isFraction : IsFraction fraction)
    (isExponent : IsExponent exponent) (readsPower : readExponent? exponent = some power)
    (reads : readsBack units (digitsValue (whole ++ fraction.drop 1))
      (power - (fraction.drop 1).length) = true) :
    Spells (whole ++ (fraction ++ exponent)) units := by
  refine ⟨matches_of_parts areDigits isFraction isExponent, ?_, ?_, ?_⟩
  · obtain ⟨first, rest, rfl⟩ := List.exists_cons_of_ne_nil areDigits.1
    exact ⟨first, rest ++ (fraction ++ exponent), rfl, areDigits.2 first List.mem_cons_self⟩
  · exact List.forall_mem_append.mpr ⟨fun c isMember => .inl (areDigits.2 c isMember),
      List.forall_mem_append.mpr
        ⟨isDigit_or_mem_of_isFraction isFraction, isDigit_or_mem_of_isExponent isExponent⟩⟩
  · have isDecimal := readDecimal?_of_parts areDigits isFraction isExponent
    rw [readsPower] at isDecimal
    exact ⟨_, isDecimal, reads⟩

theorem spells_of_fraction {whole fraction : List Char} (areDigits : IsDigits whole)
    (isFraction : IsFraction fraction)
    (reads : readsBack units (digitsValue (whole ++ fraction.drop 1))
      (-((fraction.drop 1).length : Int)) = true) : Spells (whole ++ fraction) units := by
  have spells := spells_of_parts areDigits isFraction .none rfl (by rwa [Int.zero_sub])
  rwa [List.append_nil] at spells

theorem spells_of_digits {whole : List Char} (areDigits : IsDigits whole)
    (reads : readsBack units (digitsValue whole) 0 = true) : Spells whole units := by
  have spells := spells_of_fraction areDigits .none (by simpa using reads)
  rwa [List.append_nil] at spells

/-- Two grids compare a point with a bound in the same way. -/
theorem scaled_le_iff {scale finePoint fineBound point bound : Nat} (isPositive : 0 < fineBound)
    (alsoPositive : 0 < bound) (sameGrid : scale * finePoint * bound = point * fineBound)
    (coefficient value : Nat) :
    (value * fineBound ≤ scale * coefficient * finePoint ↔ value * bound ≤ coefficient * point) ∧
      (scale * coefficient * finePoint ≤ value * fineBound ↔
        coefficient * point ≤ value * bound) := by
  have samePoint : scale * coefficient * finePoint * bound = coefficient * point * fineBound := by
    rw [Nat.mul_comm scale, Nat.mul_assoc, Nat.mul_assoc, ← Nat.mul_assoc scale, sameGrid,
      Nat.mul_assoc]
  have sameValue : value * fineBound * bound = value * bound * fineBound := Nat.mul_right_comm ..
  constructor
  · rw [← Nat.mul_le_mul_right_iff alsoPositive, samePoint, sameValue,
      Nat.mul_le_mul_right_iff isPositive]
  · rw [← Nat.mul_le_mul_right_iff alsoPositive, samePoint, sameValue,
      Nat.mul_le_mul_right_iff isPositive]

/-- Powers of ten that a decimal counts may be written as zeros. -/
theorem readsBack_mul_tenPow (units coefficient count : Nat) (exponent : Int) :
    readsBack units (tenPow count * coefficient) (exponent - count) =
      readsBack units coefficient exponent := by
  have sameGrid : tenPow count * gridDenominator (exponent - count) * gridNumerator exponent =
      gridDenominator exponent * gridNumerator (exponent - count) := by
    have samePower : count + (exponent - count).toNat + (-exponent).toNat =
        exponent.toNat + (-(exponent - count)).toNat := by omega
    have powers := congrArg tenPow samePower
    rw [tenPow_add, tenPow_add, tenPow_add] at powers
    rw [gridDenominator, gridDenominator, gridNumerator, gridNumerator, ← Nat.mul_assoc,
      Nat.mul_right_comm, powers, Nat.mul_right_comm]
  -- Both grids compare their points with the ends of the same interval.
  have sameOrder := scaled_le_iff (gridNumerator_pos (exponent - count))
    (gridNumerator_pos exponent) sameGrid coefficient
  simp only [readsBack, ← Nat.not_le, sameOrder]

/-- Digits with a point among them or before them. -/
theorem spells_point {digits : List Char} (areDigits : IsDigits digits) {places : Nat}
    (isPositive : 0 < places)
    (reads : readsBack units (digitsValue digits) (-(places : Int)) = true) :
    Spells (if places < digits.length then
        digits.take (digits.length - places) ++ '.' :: digits.drop (digits.length - places)
      else
        '0' :: '.' :: (List.replicate (places - digits.length) '0' ++ digits)) units := by
  split
  · rename_i isInside
    have length : (digits.drop (digits.length - places)).length = places := by
      rw [List.length_drop]
      omega
    have wholeDigits : IsDigits (digits.take (digits.length - places)) := by
      refine ⟨List.ne_nil_of_length_pos ?_, fun c isMember =>
        areDigits.2 c (List.mem_of_mem_take isMember)⟩
      rw [List.length_take]
      omega
    have fractionDigits : IsDigits (digits.drop (digits.length - places)) :=
      ⟨List.ne_nil_of_length_pos (by omega), fun c isMember =>
        areDigits.2 c (List.mem_of_mem_drop isMember)⟩
    refine spells_of_fraction wholeDigits (.places fractionDigits) ?_
    rwa [List.drop_one, List.tail_cons, List.take_append_drop, length]
  · rename_i notInside
    have zero : IsDigits (List.replicate 1 '0') :=
      ⟨by decide, List.forall_mem_singleton.mpr rfl⟩
    have length : (List.replicate (places - digits.length) '0' ++ digits).length = places := by
      rw [List.length_append, List.length_replicate]
      omega
    have fractionDigits := isDigits_zeros_append (places - digits.length) areDigits
    refine spells_of_fraction zero (.places fractionDigits) ?_
    rwa [List.drop_one, List.tail_cons, length, digitsValue_zeros_append,
      digitsValue_zeros_append]

/-- A decimal without an exponent in its text is read as it is, or with zeros of its own. -/
theorem spells_positional (layout : Layout) {decimal : Decimal}
    (reads : readsBack units decimal.coefficient decimal.exponent = true) :
    Spells (layout.positional decimal) units := by
  have areDigits : IsDigits decimal.digits := isDigits_toDigits _
  have value : digitsValue decimal.digits = decimal.coefficient := digitsValue_toDigits _
  rw [← value] at reads
  unfold Layout.positional
  dsimp only
  split
  · rename_i notNegative
    have isPower : ((decimal.exponent.toNat : Nat) : Int) = decimal.exponent :=
      Int.toNat_of_nonneg notNegative
    have zeroDigits := isDigits_append_zeros areDigits decimal.exponent.toNat
    split
    · have point : IsFraction ['.', '0'] := .places ⟨by decide, List.forall_mem_singleton.mpr rfl⟩
      refine spells_of_fraction zeroDigits point ?_
      have oneZero : List.replicate decimal.exponent.toNat '0' ++ ['0'] =
          List.replicate (decimal.exponent.toNat + 1) '0' := List.replicate_succ'.symm
      rw [List.drop_one, List.tail_cons, List.append_assoc, oneZero, digitsValue_append_zeros,
        ← reads, ← readsBack_mul_tenPow units _ (decimal.exponent.toNat + 1) decimal.exponent]
      congr 1
      simp only [List.length_singleton]
      omega
    · rw [List.append_nil]
      refine spells_of_digits zeroDigits ?_
      rw [digitsValue_append_zeros, ← reads,
        ← readsBack_mul_tenPow units _ decimal.exponent.toNat decimal.exponent, isPower,
        Int.sub_self]
  · rename_i isNegative
    have isPower : -(((-decimal.exponent).toNat : Nat) : Int) = decimal.exponent := by omega
    rw [← isPower] at reads
    exact spells_point areDigits (by omega) reads

/-- The exponent that is written for a leading power of ten. -/
def powerChars (layout : Layout) (leading : Int) : List Char :=
  'e' :: ((if leading < 0 then ['-'] else if layout.signsExponent then ['+'] else []) ++
    Nat.toDigits 10 leading.natAbs)

theorem isExponent_powerChars (layout : Layout) (leading : Int) :
    IsExponent (powerChars layout leading) := by
  refine .power (.inl rfl) ?_ (isDigits_toDigits _)
  split
  · exact .inr (.inr rfl)
  · split
    · exact .inr (.inl rfl)
    · exact .inl rfl

theorem readExponent?_powerChars (layout : Layout) (leading : Int) :
    readExponent? (powerChars layout leading) = some leading := by
  have areDigits := isDigits_toDigits leading.natAbs
  have value := digitsValue_toDigits leading.natAbs
  unfold powerChars
  split
  · rename_i isNegative
    have isSplit : splitSign (['-'] ++ Nat.toDigits 10 leading.natAbs) =
        (true, Nat.toDigits 10 leading.natAbs) := rfl
    rw [readExponent?_power (.inl rfl) isSplit areDigits, value, if_pos rfl]
    exact congrArg some (by omega)
  · rename_i notNegative
    have isMagnitude : ((leading.natAbs : Nat) : Int) = leading := Int.natAbs_of_nonneg (by omega)
    have isSplit : splitSign ((if layout.signsExponent then ['+'] else []) ++
        Nat.toDigits 10 leading.natAbs) = (false, Nat.toDigits 10 leading.natAbs) := by
      split
      · rfl
      · exact splitSign_of_isDigits areDigits
    rw [readExponent?_power (.inl rfl) isSplit areDigits, value, isMagnitude, if_neg (by decide)]

/-- A decimal with an exponent in its text is read as it is. -/
theorem spells_exponential (layout : Layout) {decimal : Decimal}
    (reads : readsBack units decimal.coefficient decimal.exponent = true) :
    Spells (layout.exponential decimal) units := by
  have areDigits : IsDigits decimal.digits := isDigits_toDigits _
  have value : digitsValue decimal.digits = decimal.coefficient := digitsValue_toDigits _
  obtain ⟨first, others, spelled⟩ := List.exists_cons_of_ne_nil areDigits.1
  have power : decimal.leadingExponent - others.length = decimal.exponent := by
    rw [Decimal.leadingExponent, spelled, List.length_cons]
    omega
  rw [spelled] at areDigits value
  rw [← value, ← power] at reads
  have oneDigit : IsDigits [first] :=
    ⟨List.cons_ne_nil _ _, List.forall_mem_singleton.mpr (areDigits.2 first List.mem_cons_self)⟩
  have isExponent := isExponent_powerChars layout decimal.leadingExponent
  have readsPower := readExponent?_powerChars layout decimal.leadingExponent
  have isText : layout.exponential decimal = [first] ++
      ((if others.isEmpty then [] else '.' :: others) ++
        powerChars layout decimal.leadingExponent) := by
    simp only [Layout.exponential, powerChars, spelled, List.take_one, List.head?_cons,
      Option.toList_some, List.drop_one, List.tail_cons, List.append_assoc]
  rw [isText]
  cases others with
  | nil => exact spells_of_parts oneDigit .none isExponent readsPower reads
  | cons second others =>
      have fractionDigits : IsDigits (second :: others) :=
        ⟨List.cons_ne_nil _ _, fun c isMember => areDigits.2 c (List.mem_cons_of_mem _ isMember)⟩
      exact spells_of_parts oneDigit (.places fractionDigits) isExponent readsPower reads

theorem spells_decimalChars (layout : Layout) (units : Nat) :
    Spells (layout.decimalChars (shortest layout.tie units)) units := by
  have reads := readsBack_shortest layout.tie units
  unfold Layout.decimalChars
  split
  · exact spells_positional layout reads
  · exact spells_exponential layout reads

/-! ## Signs -/

/-- A sign and what follows it can be told apart. -/
theorem append_sign_inj {first second : List Char} {left right : Prop} [Decidable left]
    [Decidable right] (firstUnsigned : ∀ rest, first ≠ '-' :: rest)
    (secondUnsigned : ∀ rest, second ≠ '-' :: rest) :
    (if left then ['-'] else []) ++ first = (if right then ['-'] else []) ++ second ↔
      (left ↔ right) ∧ first = second := by
  by_cases isLeft : left <;> by_cases isRight : right <;>
    simp [isLeft, isRight, firstUnsigned]
  exact (secondUnsigned _).symm

theorem wholeChars_injective : Function.Injective wholeChars := by
  intro left right same
  have unsigned (value : Nat) (rest : List Char) : Nat.toDigits 10 value ≠ '-' :: rest := by
    intro spelled
    have isDigit := (isDigits_toDigits value).2 '-' (spelled ▸ List.mem_cons_self)
    cases isDigit
  obtain ⟨sameSign, sameDigits⟩ := (append_sign_inj (unsigned _) (unsigned _)).mp same
  have sameMagnitude : left.natAbs = right.natAbs := by
    rw [← digitsValue_toDigits left.natAbs, sameDigits, digitsValue_toDigits]
  omega

theorem isDigit_or_sign_of_mem_wholeChars {value : Int} {c : Char}
    (isMember : c ∈ wholeChars value) : c.isDigit = true ∨ c = '-' := by
  rcases List.mem_append.mp isMember with isSign | isDigit
  · split at isSign
    · exact .inr (List.mem_singleton.mp isSign)
    · cases isSign
  · exact .inl ((isDigits_toDigits _).2 c isDigit)

theorem isDigit_or_mem_of_mem_wholeChars {value : Int} {c : Char}
    (isMember : c ∈ wholeChars value) : c.isDigit = true ∨ c ∈ numberMarks := by
  rcases isDigit_or_sign_of_mem_wholeChars isMember with isDigit | rfl
  · exact .inl isDigit
  · exact .inr (by decide)

end Number

namespace Layout

open Number

variable {layout : Layout} {units : Nat} {negative : Bool} {c : Char}

theorem isDigit_or_mem_of_mem_chars {number : Number} (isMember : c ∈ layout.chars number) :
    c.isDigit = true ∨ c ∈ numberMarks := by
  have signed {text : List Char} (negative : Bool)
      (inText : ∀ c ∈ text, c.isDigit = true ∨ c ∈ numberMarks)
      (isMember : c ∈ (if negative then ['-'] else []) ++ text) :
      c.isDigit = true ∨ c ∈ numberMarks := by
    cases negative with
    | false => exact inText c isMember
    | true =>
        rcases List.mem_cons.mp isMember with rfl | inside
        · exact .inr (by decide)
        · exact inText c inside
  have inInfinity : ∀ c ∈ ['i', 'n', 'f'], c ∈ numberMarks := by simp [numberMarks]
  have inNan : ∀ c ∈ ['N', 'a', 'N'], c ∈ numberMarks := by simp [numberMarks]
  cases number with
  | nan => exact .inr (inNan c isMember)
  | infinite negative => exact signed negative (fun c inside => .inr (inInfinity c inside)) isMember
  | finite negative units =>
      exact signed negative (spells_decimalChars layout units).characters isMember

/-- What is not finite is written in letters. -/
theorem chars_finite_ne {representable : Representable units} {other : Number}
    (notFinite : other.isFinite = false) :
    layout.chars (.finite negative units representable) ≠ layout.chars other := by
  have spells := spells_decimalChars layout units
  have noSign := spells.ne_cons (show '-'.isDigit = false by decide)
  have noLetter := spells.ne_cons (show 'i'.isDigit = false by decide)
  have noCapital := spells.ne_cons (show 'N'.isDigit = false by decide)
  cases other with
  | nan => cases negative <;> simp [chars, noCapital]
  | infinite otherNegative =>
      cases negative <;> cases otherNegative <;> simp [chars, noSign, noLetter]
  | finite => cases notFinite

/-- The text of a number in a layout is the text of no other number in it. -/
theorem chars_injective (layout : Layout) : Function.Injective layout.chars := by
  intro left right same
  cases left with
  | finite leftNegative leftUnits leftRepresentable =>
      cases right with
      | finite rightNegative rightUnits rightRepresentable =>
          have leftSpells := spells_decimalChars layout leftUnits
          have rightSpells := spells_decimalChars layout rightUnits
          obtain ⟨sameSign, sameDigits⟩ :=
            (append_sign_inj (leftSpells.ne_cons rfl) (rightSpells.ne_cons rfl)).mp same
          have sameUnits := leftSpells.unique (sameDigits ▸ rightSpells) leftRepresentable.1
            rightRepresentable.1
          have sameNegative := Bool.eq_iff_iff.mpr sameSign
          subst sameUnits sameNegative
          rfl
      | _ => exact absurd same (chars_finite_ne rfl)
  | nan =>
      cases right with
      | nan => rfl
      | infinite negative => cases negative <;> cases same
      | finite => exact absurd same.symm (chars_finite_ne rfl)
  | infinite leftNegative =>
      cases right with
      | nan => cases leftNegative <;> cases same
      | infinite rightNegative =>
          cases leftNegative <;> cases rightNegative <;> first | rfl | cases same
      | finite => exact absurd same.symm (chars_finite_ne rfl)

theorem exists_mark_of_decimal (marks : layout.marksWhole = true) (decimal : Decimal) :
    ∃ c ∈ layout.decimalChars decimal, c.isDigit = false ∧ c ≠ '-' := by
  unfold decimalChars
  split
  · refine ⟨'.', ?_, by decide⟩
    simp only [positional, marks, if_true]
    split
    · simp
    · split <;> simp
  · exact ⟨'e', by simp [exponential], by decide⟩

/-- Where whole numbers are marked, every number is written with more than a sign and digits. -/
theorem exists_mark_of_marksWhole (marks : layout.marksWhole = true) (number : Number) :
    ∃ c ∈ layout.chars number, c.isDigit = false ∧ c ≠ '-' := by
  cases number with
  | nan => exact ⟨'N', by simp [chars], by decide⟩
  | infinite => exact ⟨'i', by simp [chars], by decide⟩
  | finite negative units =>
      obtain ⟨c, isMember, isMark⟩ := exists_mark_of_decimal marks (shortest layout.tie units)
      exact ⟨c, List.mem_append_right _ isMember, isMark⟩

end Layout

end TreeQuery
