import TreeQuery.Number.Reading
import TreeQuery.Proofs.Token.RuleTexts

/-!
Reading the numbers of expressions.

A number token has digits, and may have a fraction and an exponent. Every text of this form is read
as a decimal without a sign, and with a minus sign before it as the decimal with the other sign.
-/

namespace TreeQuery

namespace TokenRule

open Pattern

/-- A row of digits that is not empty. -/
def IsDigits (text : List Char) : Prop :=
  text ≠ [] ∧ ∀ c ∈ text, c.isDigit = true

/-- The fraction of a number: nothing, or a point and digits. -/
inductive IsFraction : List Char → Prop where
  | none : IsFraction []
  | places {digits : List Char} (areDigits : IsDigits digits) : IsFraction ('.' :: digits)

/-- The exponent of a number: nothing, or a letter, a sign that may be left out, and digits. -/
inductive IsExponent : List Char → Prop where
  | none : IsExponent []
  | power {letter : Char} {sign digits : List Char} (isLetter : letter = 'e' ∨ letter = 'E')
      (isSign : sign = [] ∨ sign = ['+'] ∨ sign = ['-']) (areDigits : IsDigits digits) :
      IsExponent (letter :: (sign ++ digits))

variable {text : List Char}

theorem isDigits_of_matches (found : digits.Matches text) : IsDigits text :=
  matches_atLeastOnce_one_iff.mp found

theorem isFraction_of_matches
    (found : (Pattern.optional (.seq (.char '.') digits)).Matches text) : IsFraction text := by
  rcases matches_optional_iff.mp found with isSome | rfl
  · obtain ⟨point, places, rfl, isPoint, arePlaces⟩ := matches_seq_iff.mp isSome
    obtain ⟨c, rfl, accepted⟩ := matches_one_iff.mp isPoint
    rw [beq_iff_eq.mp accepted]
    exact .places (isDigits_of_matches arePlaces)
  · exact .none

theorem isExponent_of_matches
    (found : (Pattern.optional (.all [.one fun c => c == 'e' || c == 'E',
      .optional (.one fun c => c == '+' || c == '-'), digits])).Matches text) :
    IsExponent text := by
  rcases matches_optional_iff.mp found with isSome | rfl
  · obtain ⟨first, others, rfl, isFirst, othersMatch⟩ := matches_seq_iff.mp isSome
    obtain ⟨sign, back, rfl, isSign, backMatches⟩ := matches_seq_iff.mp othersMatch
    obtain ⟨power, ended, rfl, arePower, isEnd⟩ := matches_seq_iff.mp backMatches
    obtain ⟨letter, rfl, isLetter⟩ := matches_one_iff.mp isFirst
    rw [Bool.or_eq_true, beq_iff_eq, beq_iff_eq] at isLetter
    rw [matches_done_iff.mp isEnd, List.append_nil]
    refine @IsExponent.power letter sign power isLetter ?_ (isDigits_of_matches arePower)
    rcases matches_optional_iff.mp isSign with signMatches | rfl
    · obtain ⟨c, rfl, accepted⟩ := matches_one_iff.mp signMatches
      rw [Bool.or_eq_true, beq_iff_eq, beq_iff_eq] at accepted
      rcases accepted with rfl | rfl <;> simp
    · exact .inl rfl
  · exact .none

/-- The parts of a number. -/
theorem exists_parts_of_matches (found : unsignedNumber.Matches text) :
    ∃ whole fraction exponent, text = whole ++ (fraction ++ exponent) ∧ IsDigits whole ∧
      IsFraction fraction ∧ IsExponent exponent := by
  obtain ⟨whole, others, rfl, areDigits, othersMatch⟩ := matches_seq_iff.mp found
  obtain ⟨fraction, back, rfl, fractionMatches, backMatches⟩ := matches_seq_iff.mp othersMatch
  obtain ⟨exponent, ended, rfl, exponentMatches, isEnd⟩ := matches_seq_iff.mp backMatches
  rw [matches_done_iff.mp isEnd, List.append_nil]
  exact ⟨whole, fraction, exponent, rfl, isDigits_of_matches areDigits,
    isFraction_of_matches fractionMatches, isExponent_of_matches exponentMatches⟩

theorem matches_of_isFraction {fraction : List Char} (isFraction : IsFraction fraction) :
    (Pattern.optional (.seq (.char '.') digits)).Matches fraction := by
  cases isFraction with
  | none => exact .right .done
  | places areDigits =>
      have places : digits.Matches _ := matches_atLeastOnce_one_iff.mpr areDigits
      exact .left (.seq (.one rfl) places)

theorem matches_of_isExponent {exponent : List Char} (isExponent : IsExponent exponent) :
    (Pattern.optional (.all [.one fun c => c == 'e' || c == 'E',
      .optional (.one fun c => c == '+' || c == '-'), digits])).Matches exponent := by
  cases isExponent with
  | none => exact .right .done
  | @power letter sign digits isLetter isSign areDigits =>
      have power : TokenRule.digits.Matches digits := matches_atLeastOnce_one_iff.mpr areDigits
      have ended : (Pattern.seq TokenRule.digits .done).Matches digits := by
        simpa using Pattern.Matches.seq power .done
      have letterMatches : (Pattern.one fun c => c == 'e' || c == 'E').Matches [letter] :=
        .one (by simpa using isLetter)
      have signMatches :
          (Pattern.optional (.one fun c => c == '+' || c == '-')).Matches sign := by
        rcases isSign with rfl | rfl | rfl
        · exact .right .done
        · exact .left (.one rfl)
        · exact .left (.one rfl)
      exact .left (.seq letterMatches (.seq signMatches ended))

/-- Parts of these forms make a number. -/
theorem matches_of_parts {whole fraction exponent : List Char} (areDigits : IsDigits whole)
    (isFraction : IsFraction fraction) (isExponent : IsExponent exponent) :
    unsignedNumber.Matches (whole ++ (fraction ++ exponent)) := by
  have wholeMatches : digits.Matches whole := matches_atLeastOnce_one_iff.mpr areDigits
  have exponentMatches := Pattern.Matches.seq (matches_of_isExponent isExponent) .done
  rw [List.append_nil] at exponentMatches
  exact .seq wholeMatches (.seq (matches_of_isFraction isFraction) exponentMatches)

end TokenRule

namespace Number

open TokenRule

variable {whole fraction exponent text digits rest : List Char} {negative : Bool}

theorem splitDigits_append (areDigits : ∀ c ∈ digits, c.isDigit = true)
    (apart : ∀ c ∈ rest.head?, c.isDigit = false) :
    splitDigits (digits ++ rest) = (digits, rest) := by
  have stops : rest.takeWhile Char.isDigit = [] ∧ rest.dropWhile Char.isDigit = rest := by
    cases rest with
    | nil => exact ⟨rfl, rfl⟩
    | cons c others =>
        have notDigit : c.isDigit = false := apart c rfl
        simp [notDigit]
  rw [splitDigits, List.takeWhile_append_of_pos areDigits, List.dropWhile_append_of_pos areDigits,
    stops.1, stops.2, List.append_nil]

theorem splitSign_of_isDigits (areDigits : IsDigits digits) :
    splitSign digits = (false, digits) := by
  obtain ⟨first, others, rfl⟩ := List.exists_cons_of_ne_nil areDigits.1
  have isDigit := areDigits.2 first List.mem_cons_self
  unfold splitSign
  split
  · rename_i spelled
    cases spelled
    exact absurd isDigit (by decide)
  · rename_i spelled
    cases spelled
    exact absurd isDigit (by decide)
  · rfl

/-- A power of ten is read with its sign. -/
theorem readExponent?_power {letter : Char} (isLetter : letter = 'e' ∨ letter = 'E')
    (isSplit : splitSign text = (negative, digits)) (areDigits : IsDigits digits) :
    readExponent? (letter :: text) =
      some (if negative then -(digitsValue digits : Int) else digitsValue digits) := by
  have accepted : (digits.isEmpty || !digits.all Char.isDigit) = false := by
    simpa [areDigits.1] using areDigits.2
  simp only [readExponent?, isLetter, if_true, isSplit, accepted, Bool.false_eq_true, if_false]

theorem readExponent?_of_isExponent (isExponent : IsExponent exponent) :
    ∃ power, readExponent? exponent = some power := by
  cases isExponent with
  | none => exact ⟨0, rfl⟩
  | @power letter sign digits isLetter isSign areDigits =>
      have isSplit : ∃ negative, splitSign (sign ++ digits) = (negative, digits) := by
        rcases isSign with rfl | rfl | rfl
        · exact ⟨false, splitSign_of_isDigits areDigits⟩
        · exact ⟨false, rfl⟩
        · exact ⟨true, rfl⟩
      obtain ⟨negative, split⟩ := isSplit
      exact ⟨_, readExponent?_power isLetter split areDigits⟩

theorem not_digit_of_isExponent (isExponent : IsExponent exponent) :
    ∀ c ∈ exponent.head?, c.isDigit = false ∧ c ≠ '.' := by
  cases isExponent with
  | none => simp
  | power isLetter =>
      intro c isHead
      cases isHead
      rcases isLetter with rfl | rfl <;> decide

theorem splitFraction_append (isFraction : IsFraction fraction) (isExponent : IsExponent exponent) :
    splitFraction (fraction ++ exponent) = (fraction.drop 1, exponent) := by
  have apart := not_digit_of_isExponent isExponent
  cases isFraction with
  | none =>
      unfold splitFraction
      split
      · rename_i spelled
        exact absurd rfl (apart '.' (by simpa using congrArg List.head? spelled)).2
      · rfl
  | places areDigits =>
      exact splitDigits_append areDigits.2 fun c isHead => (apart c isHead).1

/-- The decimal of a whole part, a fraction and an exponent. -/
theorem readDecimal?_of_parts (areDigits : IsDigits whole) (isFraction : IsFraction fraction)
    (isExponent : IsExponent exponent) :
    readDecimal? (whole ++ (fraction ++ exponent)) =
      (readExponent? exponent).map fun power =>
        ⟨digitsValue (whole ++ fraction.drop 1), power - (fraction.drop 1).length⟩ := by
  have apart : ∀ c ∈ (fraction ++ exponent).head?, c.isDigit = false := by
    cases isFraction with
    | none => exact fun c isHead => (not_digit_of_isExponent isExponent c isHead).1
    | places =>
        intro c isHead
        cases isHead
        decide
  have notEmpty : (whole.isEmpty && (fraction.drop 1).isEmpty) = false := by simp [areDigits.1]
  simp only [readDecimal?, splitDigits_append areDigits.2 apart,
    splitFraction_append isFraction isExponent, notEmpty, Bool.false_eq_true, if_false]

theorem readWord?_of_isDigits (areDigits : IsDigits whole) :
    readWord? negative (whole ++ text) = none := by
  obtain ⟨first, others, rfl⟩ := List.exists_cons_of_ne_nil areDigits.1
  have isDigit := areDigits.2 first List.mem_cons_self
  have notLetter : first.toLower ∉ ['i', 'n'] := by
    have isHead := mem_numberHeads_of_isDigit isDigit
    have apart : numberHeads.all (fun c => c.toLower != 'i' && c.toLower != 'n') = true := by
      decide
    simpa using List.all_eq_true.mp apart first isHead
  unfold readWord?
  have heads : ∀ word : String, String.ofList ((first :: others ++ text).map Char.toLower) = word →
      word.toList.head? = some first.toLower := by
    rintro _ rfl
    simp
  split
  · rename_i spelled
    have isHead : some 'i' = some first.toLower := heads _ spelled
    exact absurd (by simp [← Option.some.inj isHead]) notLetter
  · rename_i spelled
    have isHead : some 'i' = some first.toLower := heads _ spelled
    exact absurd (by simp [← Option.some.inj isHead]) notLetter
  · rename_i spelled
    have isHead : some 'n' = some first.toLower := heads _ spelled
    exact absurd (by simp [← Option.some.inj isHead]) notLetter
  · rfl

/-- A number is read as its decimal, and with a minus sign before it as the decimal with the other
sign. -/
theorem ofChars?_of_readDecimal? {decimal : Decimal} (found : unsignedNumber.Matches text)
    (reads : readDecimal? text = some decimal) :
    ofChars? text = some (ofDecimal false decimal) ∧
      ofChars? ('-' :: text) = some (ofDecimal true decimal) := by
  obtain ⟨whole, fraction, exponent, rfl, areDigits, _⟩ := exists_parts_of_matches found
  have unsigned : splitSign (whole ++ (fraction ++ exponent)) =
      (false, whole ++ (fraction ++ exponent)) := by
    have isSplit := splitSign_of_isDigits areDigits
    obtain ⟨first, others, rfl⟩ := List.exists_cons_of_ne_nil areDigits.1
    unfold splitSign at isSplit ⊢
    split at isSplit <;> simp_all
  constructor
  · rw [ofChars?, unsigned]
    simp only [readWord?_of_isDigits areDigits, reads, Option.map_some]
  · rw [ofChars?]
    simp only [splitSign, readWord?_of_isDigits areDigits, reads, Option.map_some]

theorem exists_decimal_of_matches (found : unsignedNumber.Matches text) :
    ∃ decimal, ofChars? text = some (ofDecimal false decimal) ∧
      ofChars? ('-' :: text) = some (ofDecimal true decimal) := by
  obtain ⟨whole, fraction, exponent, rfl, areDigits, isFraction, isExponent⟩ :=
    exists_parts_of_matches found
  obtain ⟨power, readsPower⟩ := readExponent?_of_isExponent isExponent
  have reads := readDecimal?_of_parts areDigits isFraction isExponent
  rw [readsPower, Option.map_some] at reads
  exact ⟨_, ofChars?_of_readDecimal? found reads⟩

theorem neg_ofDecimal (decimal : Decimal) : (ofDecimal negative decimal).neg =
    ofDecimal (!negative) decimal := by
  have ofRound : ∀ numerator denominator : Nat,
      (round negative numerator denominator).neg = round (!negative) numerator denominator := by
    intro numerator denominator
    unfold round ofUnits
    split <;> rfl
  unfold ofDecimal
  split
  · rfl
  · split
    · rfl
    · split
      · rfl
      · split <;> exact ofRound _ _

end Number

end TreeQuery
