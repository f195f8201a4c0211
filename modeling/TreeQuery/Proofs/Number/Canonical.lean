import TreeQuery.Proofs.Number.Layout
import TreeQuery.Proofs.Number.Nearest

/-!
Canonical texts and the values of numbers.

The canonical text of a finite number is a minus sign, unless the number is not below zero, and the
digits of a decimal that reads back as the number. So equal numbers are the ones with equal texts,
and the text is read as a number equal to the one that it was written for.
-/

namespace TreeQuery

open TokenRule

namespace Number

variable {units other : Nat} {negative : Bool} {text : List Char}

/-! ## Canonical texts -/

/-- The canonical text of a magnitude. -/
def magnitudeChars (units : Nat) : List Char :=
  if units % unitsPerOne = 0 ∧ units < tenPow 21 * unitsPerOne then
    Nat.toDigits 10 (units / unitsPerOne)
  else
    Layout.plain.positional (shortest .up units)

theorem spells_magnitudeChars (units : Nat) : Spells (magnitudeChars units) units := by
  unfold magnitudeChars
  split
  · rename_i isWhole
    refine spells_of_digits (isDigits_toDigits _) (readsBack_of_eq ?_)
    have exact : units / unitsPerOne * unitsPerOne = units :=
      Nat.div_mul_cancel (Nat.dvd_of_mod_eq_zero isWhole.1)
    have noPower : tenPow (0 : Int).toNat = 1 := rfl
    have noFraction : gridNumerator 0 = 1 := rfl
    rw [digitsValue_toDigits, gridDenominator, noPower, noFraction, Nat.one_mul, Nat.mul_one,
      Nat.mul_left_comm, exact]
  · exact spells_positional .plain (readsBack_shortest .up units)

theorem wholeChars_signedUnits (negative : Bool) (magnitude : Nat) :
    wholeChars (signedUnits negative magnitude) =
      (if negative ∧ magnitude ≠ 0 then ['-'] else []) ++ Nat.toDigits 10 magnitude := by
  have isMagnitude : (signedUnits negative magnitude).natAbs = magnitude := by
    cases negative
    · rfl
    · exact Int.natAbs_neg _
  have isBelow : signedUnits negative magnitude < 0 ↔ negative ∧ magnitude ≠ 0 := by
    cases negative
    · simp [signedUnits]
    · simp [signedUnits, Nat.pos_iff_ne_zero]
  rw [wholeChars, isMagnitude]
  simp only [isBelow]

theorem canonicalChars_finite (representable : Representable units) :
    (finite negative units representable).canonicalChars =
      (if negative ∧ units ≠ 0 then ['-'] else []) ++ magnitudeChars units := by
  by_cases isWhole : units % unitsPerOne = 0 ∧ units < tenPow 21 * unitsPerOne
  · have isZero : units / unitsPerOne = 0 ↔ units = 0 := by
      have exact : units / unitsPerOne * unitsPerOne = units :=
        Nat.div_mul_cancel (Nat.dvd_of_mod_eq_zero isWhole.1)
      constructor
      · intro noQuotient
        rw [← exact, noQuotient, Nat.zero_mul]
      · rintro rfl
        exact Nat.zero_div _
    simp only [canonicalChars, isFinite, isIntegral, magnitudeBelow, truncate, magnitudeChars,
      isWhole, wholeChars_signedUnits, isZero, ne_eq, Bool.not_true, Bool.false_eq_true, if_false,
      beq_self_eq_true, decide_true, Bool.and_self, if_true, and_self]
  · have notZero : units ≠ 0 := by
      rintro rfl
      exact isWhole ⟨Nat.zero_mod _, Nat.mul_pos (tenPow_pos _) unitsPerOne_pos⟩
    have notShort : (units % unitsPerOne == 0 && decide (units < tenPow 21 * unitsPerOne)) =
        false := by
      simpa only [Bool.and_eq_false_iff, beq_eq_false_iff_ne, decide_eq_false_iff_not, ne_eq,
        not_and_or] using isWhole
    have isPositional : Layout.plain.decimalChars (shortest .up units) =
        Layout.plain.positional (shortest .up units) := by
      rw [Layout.decimalChars]
      exact if_pos rfl
    simp only [canonicalChars, isFinite, isIntegral, magnitudeBelow, notShort, Layout.chars,
      magnitudeChars, isWhole, notZero, ne_eq, not_false_eq_true, and_true, Bool.not_true,
      Bool.false_eq_true, if_false]
    rw [show Layout.plain.tie = .up from rfl, isPositional]

theorem signedUnits_eq_iff {left right : Bool} {leftUnits rightUnits : Nat} :
    signedUnits left leftUnits = signedUnits right rightUnits ↔
      ((left ∧ leftUnits ≠ 0) ↔ (right ∧ rightUnits ≠ 0)) ∧ leftUnits = rightUnits := by
  cases left <;> cases right <;> simp [signedUnits] <;> omega

theorem magnitudeChars_inj (isSpaced : spacing units ∣ units)
    (otherSpaced : spacing other ∣ other) :
    magnitudeChars units = magnitudeChars other ↔ units = other := by
  refine ⟨fun same => ?_, congrArg magnitudeChars⟩
  exact (spells_magnitudeChars units).unique (same ▸ spells_magnitudeChars other) isSpaced
    otherSpaced

/-- A finite number is written with digits behind its sign. -/
theorem canonicalChars_ne_cons {number : Number} (isFinite : number.isFinite = true) {c : Char}
    (notDigit : c.isDigit = false) (notSign : c ≠ '-') (rest : List Char) :
    number.canonicalChars ≠ c :: rest := by
  intro spelled
  cases number with
  | finite negative units =>
      rw [canonicalChars_finite] at spelled
      split at spelled
      · exact notSign (List.cons.inj spelled).1.symm
      · exact (spells_magnitudeChars units).ne_cons notDigit rest spelled
  | _ => cases isFinite

theorem canonicalChars_of_not_finite {number : Number} (notFinite : number.isFinite = false) :
    number.canonicalChars = ['n', 'u', 'l', 'l'] := by
  rw [canonicalChars, notFinite]
  rfl

theorem canonicalText_of_not_finite {number : Number} (notFinite : number.isFinite = false) :
    number.canonicalText = "null" :=
  congrArg String.ofList (canonicalChars_of_not_finite notFinite)

/-- A finite number and another number are written in the same way where they are equal. -/
theorem canonicalChars_eq_iff {left right : Number} (isFinite : left.isFinite = true) :
    left.canonicalChars = right.canonicalChars ↔ left.equal right = true := by
  have noWord := canonicalChars_ne_cons isFinite (c := 'n') rfl (by decide)
  cases left with
  | nan => cases isFinite
  | infinite => cases isFinite
  | finite leftNegative leftUnits leftRepresentable =>
      cases right with
      | nan => exact ⟨fun same => absurd same (noWord _), fun same => by cases same⟩
      | infinite => exact ⟨fun same => absurd same (noWord _), fun same => by cases same⟩
      | finite rightNegative rightUnits rightRepresentable =>
          have unsigned (units : Nat) := (spells_magnitudeChars units).ne_cons (c := '-') rfl
          rw [canonicalChars_finite, canonicalChars_finite,
            append_sign_inj (unsigned _) (unsigned _),
            magnitudeChars_inj leftRepresentable.1 rightRepresentable.1, equal, beq_iff_eq,
            signedUnits_eq_iff]

theorem canonicalText_eq_iff {left right : Number} (isFinite : left.isFinite = true) :
    left.canonicalText = right.canonicalText ↔ left.equal right = true := by
  rw [canonicalText, canonicalText, String.ofList_inj]
  exact canonicalChars_eq_iff isFinite

/-! ## Reading canonical texts -/

theorem matches_canonicalChars {value : Number} (isFinite : value.isFinite = true) :
    number.Matches value.canonicalChars := by
  cases value with
  | finite negative units =>
      have isUnsigned := (spells_magnitudeChars units).isNumber
      rw [canonicalChars_finite]
      split
      · exact .seq (.left (.one rfl)) isUnsigned
      · exact .seq (.right .done) isUnsigned
  | _ => cases isFinite

theorem ofChars?_of_spells (spells : Spells text units) (representable : Representable units) :
    ofChars? text = some (.finite false units representable) ∧
      ofChars? ('-' :: text) = some (.finite true units representable) := by
  obtain ⟨decimal, reads, readsBack⟩ := spells.reads
  have values := ofChars?_of_readDecimal? spells.isNumber reads
  rw [ofDecimal_of_readsBack representable readsBack,
    ofDecimal_of_readsBack representable readsBack] at values
  exact values

/-- The canonical text of a finite number is read as a number equal to it. -/
theorem exists_ofText?_canonicalText {value : Number} (isFinite : value.isFinite = true) :
    ∃ other, ofText? value.canonicalText = some other ∧ value.equal other = true := by
  cases value with
  | finite negative units representable =>
      obtain ⟨unsigned, signed⟩ := ofChars?_of_spells (spells_magnitudeChars units) representable
      rw [ofText?, canonicalText, String.toList_ofList, canonicalChars_finite]
      split
      · rename_i isSigned
        refine ⟨_, signed, ?_⟩
        rw [equal, isSigned.1, beq_self_eq_true]
      · rename_i notSigned
        refine ⟨_, unsigned, ?_⟩
        rw [equal, beq_iff_eq, signedUnits_eq_iff]
        simp [notSigned]
  | _ => cases isFinite

end Number

end TreeQuery
