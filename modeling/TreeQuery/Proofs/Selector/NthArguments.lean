import TreeQuery.Proofs.Selector.NthGrammar

/-!
Reading `An+B` arguments.

A text is read where it starts with an argument, and gives the step and the offset of that argument.
No text starts with two of them, and what follows a closing parenthesis does not matter.
-/

namespace TreeQuery

namespace Nth

variable {text rest sign digits gap : List Char} {factor step offset : Int} {magnitude : Nat}

/-! ## Arguments -/

/-- A sign, digits and the letter `n` are not white space. -/
theorem skipBlanks_lead (isSign : IsOptionalSign sign factor)
    (areDigits : ∀ c ∈ digits, c.isDigit = true)
    (starts : digits ≠ [] ∨ rest.head? = some 'n') :
    skipBlanks (sign ++ (digits ++ rest)) = sign ++ (digits ++ rest) := by
  cases isSign with
  | present isSign => cases isSign <;> exact skipBlanks_cons rfl _
  | absent =>
      cases digits with
      | cons digit digits =>
          exact skipBlanks_cons (isAsciiBlank_of_isDigit (areDigits digit List.mem_cons_self)) _
      | nil =>
          obtain ⟨behind, rfl⟩ := List.head?_eq_some_iff.mp (starts.resolve_left (by simp))
          exact skipBlanks_cons rfl _

theorem IsBody.skipBlanks (isBody : IsBody text step offset) (rest : List Char) :
    skipBlanks (text ++ rest) = text ++ rest := by
  cases isBody with
  | steps isSign isCoefficient =>
      rw [List.append_assoc, List.append_assoc, List.cons_append]
      exact skipBlanks_lead isSign isCoefficient.areDigits (.inr rfl)
  | word isWord => cases isWord <;> exact skipBlanks_cons rfl _
  | integer isSign isRun =>
      rw [List.append_assoc]
      exact skipBlanks_lead isSign isRun.areDigits (.inl isRun.nonempty)

theorem IsExcess.skipBlanks (isExcess : IsExcess text) (rest : List Char) :
    skipBlanks (text ++ rest) = text ++ rest := by
  cases isExcess with
  | coefficient isSign isRun =>
      rw [List.append_assoc, List.append_assoc]
      exact skipBlanks_lead isSign isRun.areDigits (.inl isRun.nonempty)
  | integer isSign isRun =>
      rw [List.append_assoc, List.append_assoc]
      exact skipBlanks_lead isSign isRun.areDigits (.inl isRun.nonempty)

theorem readPair_append {opening : List Char} (isOpening : IsOpening opening) (text : List Char) :
    readPair (opening ++ text) = readBody (skipBlanks text) := by
  cases isOpening with
  | mk isBefore isInside =>
      rw [List.append_assoc, List.cons_append, readPair, skipBlanks_append isBefore,
        skipBlanks_cons rfl]
      exact congrArg readBody (skipBlanks_append isInside text)

/-- Unless a text is invalid, its body stands behind its opening parenthesis. -/
theorem readPair_cases (text : List Char) :
    readPair text = .error .invalid ∨
      ∃ opening body,
        IsOpening opening ∧ text = opening ++ body ∧ readPair text = readBody body := by
  obtain ⟨before, isBefore, split⟩ := exists_gap text
  rw [readPair]
  split
  · rename_i rest opened
    obtain ⟨inside, isInside, insideSplit⟩ := exists_gap rest
    refine .inr ⟨before ++ '(' :: inside, skipBlanks rest, .mk isBefore isInside, ?_, rfl⟩
    rw [List.append_assoc, List.cons_append, ← insideSplit, ← opened, ← split]
  · exact .inl rfl

theorem readPair_ok_iff :
    readPair text = .ok (step, offset) ↔
      ∃ argument, argument <+: text ∧ IsArgument argument step offset := by
  constructor
  · intro reads
    rcases readPair_cases text with failed | ⟨opening, body, isOpening, rfl, isBodyOf⟩
    · rw [failed] at reads
      cases reads
    · rw [isBodyOf] at reads
      obtain ⟨written, rest, isBody, isClosed, rfl⟩ := readBody_ok_iff.mp reads
      obtain ⟨closing, ⟨behind, rfl⟩, isClosing⟩ := closes_iff.mp isClosed
      refine ⟨_, ⟨behind, ?_⟩, .mk isOpening isBody isClosing⟩
      simp
  · rintro ⟨_, ⟨behind, rfl⟩, isArgument⟩
    cases isArgument with
    | @mk opening body closing step offset isOpening isBody isClosing =>
        rw [List.append_assoc, List.append_assoc, readPair_append isOpening, isBody.skipBlanks]
        exact readBody_ok_iff.mpr ⟨body, _, isBody,
          closes_iff.mpr ⟨closing, List.prefix_append _ _, isClosing⟩, rfl⟩

theorem readPair_overflow_iff :
    readPair text = .error .overflow ↔ ∃ start, start <+: text ∧ IsOutOfRange start := by
  constructor
  · intro failed
    rcases readPair_cases text with invalid | ⟨opening, body, isOpening, rfl, isBodyOf⟩
    · rw [invalid] at failed
      cases failed
    · rw [isBodyOf] at failed
      obtain ⟨excess, ⟨behind, rfl⟩, isExcess⟩ := readBody_overflow_iff.mp failed
      refine ⟨_, ⟨behind, ?_⟩, .mk isOpening isExcess⟩
      rw [List.append_assoc]
  · rintro ⟨_, ⟨behind, rfl⟩, isOutOfRange⟩
    cases isOutOfRange with
    | @mk opening excess isOpening isExcess =>
        rw [List.append_assoc, readPair_append isOpening, isExcess.skipBlanks]
        exact readBody_overflow_iff.mpr ⟨excess, List.prefix_append _ _, isExcess⟩

/-! ## The end of an argument -/

/-- The characters that stand inside the parentheses of an argument. -/
def isWritten (c : Char) : Bool :=
  isAsciiBlank c || c.isDigit || ['+', '-', 'n', 'o', 'd', 'e', 'v'].contains c

theorem apart_of_isWritten {c : Char} (written : isWritten c = true) :
    c ≠ '"' ∧ c ≠ '(' ∧ c ≠ ')' := by
  refine ⟨?_, ?_, ?_⟩ <;> rintro rfl <;> cases written

theorem unclosed_of_isWritten (written : ∀ c ∈ text, isWritten c = true) : ')' ∉ text :=
  fun isCloser => (apart_of_isWritten (written _ isCloser)).2.2 rfl

theorem IsGap.isWritten (isGap : IsGap gap) : ∀ c ∈ gap, isWritten c = true :=
  fun c isMember => by simp [Nth.isWritten, isGap c isMember]

theorem isWritten_of_digits (areDigits : ∀ c ∈ digits, c.isDigit = true) :
    ∀ c ∈ digits, isWritten c = true :=
  fun c isMember => by simp [isWritten, areDigits c isMember]

theorem IsOptionalSign.isWritten (isSign : IsOptionalSign sign factor) :
    ∀ c ∈ sign, isWritten c = true := by
  cases isSign with
  | absent => simp
  | present isSign => cases isSign <;> exact List.forall_mem_singleton.mpr rfl

theorem IsOffset.isWritten (isOffset : IsOffset text offset) : ∀ c ∈ text, isWritten c = true := by
  cases isOffset with
  | absent => simp
  | @digit sign digit factor gap isSign isGap isDigit =>
      have signWritten : Nth.isWritten sign = true := by cases isSign <;> rfl
      have digitWritten : Nth.isWritten digit = true := by simp [Nth.isWritten, isDigit]
      exact List.forall_mem_cons.mpr ⟨signWritten,
        List.forall_mem_append.mpr ⟨isGap.isWritten, List.forall_mem_singleton.mpr digitWritten⟩⟩

theorem IsBody.isWritten (isBody : IsBody text step offset) : ∀ c ∈ text, isWritten c = true := by
  cases isBody with
  | steps isSign isCoefficient isGap isOffset =>
      refine List.forall_mem_append.mpr ⟨isSign.isWritten, List.forall_mem_append.mpr
        ⟨isWritten_of_digits isCoefficient.areDigits, List.forall_mem_cons.mpr ⟨rfl, ?_⟩⟩⟩
      exact List.forall_mem_append.mpr ⟨isGap.isWritten, isOffset.isWritten⟩
  | word isWord => cases isWord <;> simp [Nth.isWritten]
  | integer isSign isRun =>
      exact List.forall_mem_append.mpr ⟨isSign.isWritten, isWritten_of_digits isRun.areDigits⟩

theorem IsOpening.unclosed (isOpening : IsOpening text) : ')' ∉ text := by
  cases isOpening with
  | mk isBefore isInside =>
      simp [unclosed_of_isWritten isBefore.isWritten, unclosed_of_isWritten isInside.isWritten]

/-- An argument is written inside its parentheses, of which the closing one is its end. -/
theorem IsArgument.exists_inner (isArgument : IsArgument text step offset) :
    ∃ before inner, text = before ++ '(' :: (inner ++ [')']) ∧ IsGap before ∧
      ∀ c ∈ inner, isWritten c = true := by
  cases isArgument with
  | @mk _ body _ _ _ isOpening isBody isClosing =>
      cases isOpening with
      | @mk before inside isBefore isInside =>
          cases isClosing with
          | @mk gap isGap =>
              refine ⟨before, inside ++ (body ++ gap), by simp, isBefore, ?_⟩
              exact List.forall_mem_append.mpr ⟨isInside.isWritten,
                List.forall_mem_append.mpr ⟨isBody.isWritten, isGap.isWritten⟩⟩

/-- An argument ends with its first closing parenthesis. -/
theorem IsArgument.exists_init (isArgument : IsArgument text step offset) :
    ∃ init, text = init ++ [')'] ∧ ')' ∉ init := by
  obtain ⟨before, inner, rfl, isBefore, written⟩ := isArgument.exists_inner
  refine ⟨before ++ '(' :: inner, by simp, ?_⟩
  simp [unclosed_of_isWritten isBefore.isWritten, unclosed_of_isWritten written]

theorem IsOutOfRange.unclosed (isOutOfRange : IsOutOfRange text) : ')' ∉ text.dropLast := by
  cases isOutOfRange with
  | @mk opening _ isOpening isExcess =>
      cases isExcess with
      | @coefficient sign digits _ _ isSign isRun =>
          rw [← List.append_assoc, ← List.append_assoc, List.dropLast_concat]
          simp [isOpening.unclosed, unclosed_of_isWritten isSign.isWritten,
            unclosed_of_isWritten (isWritten_of_digits isRun.areDigits)]
      | @integer sign digits _ _ _ isSign isRun _ isClosing =>
          cases isClosing with
          | @mk gap isGap =>
              rw [← List.append_assoc, ← List.append_assoc, ← List.append_assoc,
                List.dropLast_concat]
              simp [isOpening.unclosed, unclosed_of_isWritten isSign.isWritten,
                unclosed_of_isWritten (isWritten_of_digits isRun.areDigits),
                unclosed_of_isWritten isGap.isWritten]

theorem IsArgument.unclosed (isArgument : IsArgument text step offset) : ')' ∉ text.dropLast := by
  obtain ⟨init, rfl, unclosed⟩ := isArgument.exists_init
  rwa [List.dropLast_concat]

/-- Of two arguments that a text starts with, neither is longer. -/
theorem IsArgument.unique {argument other : List Char} {otherStep otherOffset : Int}
    (starts : argument <+: text) (otherStarts : other <+: text)
    (isArgument : IsArgument argument step offset)
    (isOther : IsArgument other otherStep otherOffset) :
    argument = other ∧ step = otherStep ∧ offset = otherOffset := by
  have reads := readPair_ok_iff.mpr ⟨argument, starts, isArgument⟩
  have otherReads := readPair_ok_iff.mpr ⟨other, otherStarts, isOther⟩
  have samePair := Except.ok.inj (reads.symm.trans otherReads)
  obtain ⟨init, rfl, unclosed⟩ := isArgument.exists_init
  obtain ⟨otherInit, rfl, otherUnclosed⟩ := isOther.exists_init
  refine ⟨?_, (Prod.mk.inj samePair).1, (Prod.mk.inj samePair).2⟩
  rcases List.prefix_or_prefix_of_prefix starts otherStarts with shorter | longer
  · rcases List.prefix_concat_iff.mp shorter with same | inside
    · exact same
    · exact absurd (inside.subset (by simp)) otherUnclosed
  · rcases List.prefix_concat_iff.mp longer with same | inside
    · exact same.symm
    · exact absurd (inside.subset (by simp)) unclosed

/-- A start that goes no further than its first closing parenthesis goes no further than any closing
parenthesis of the text. -/
theorem prefix_iff_of_unclosed {before start : List Char} (startUnclosed : ')' ∉ start.dropLast)
    (after : List Char) :
    start <+: before ++ ')' :: after ↔ start <+: before ++ [')'] := by
  have whole : before ++ ')' :: after = before ++ [')'] ++ after := by simp
  constructor
  · intro starts
    rw [whole] at starts
    have closed : before ++ [')'] <+: before ++ [')'] ++ after := List.prefix_append _ _
    have inside : start.dropLast <+: before := by
      rcases List.prefix_or_prefix_of_prefix ((List.dropLast_prefix start).trans starts) closed with
        shorter | longer
      · rcases List.prefix_concat_iff.mp shorter with same | inside
        · exact absurd (by simp [same]) startUnclosed
        · exact inside
      · exact absurd (longer.subset (by simp)) startUnclosed
    have notLonger : start.length ≤ (before ++ [')']).length := by
      have bound := inside.length_le
      rw [List.length_dropLast] at bound
      rw [List.length_append, List.length_singleton]
      omega
    exact List.prefix_of_prefix_length_le starts closed notLonger
  · intro starts
    rw [whole]
    exact starts.trans (List.prefix_append _ _)

theorem result_ext {left right : Except BodyError (Int × Int)}
    (sameOk : ∀ step offset, left = .ok (step, offset) ↔ right = .ok (step, offset))
    (sameOverflow : left = .error .overflow ↔ right = .error .overflow) : left = right := by
  cases left with
  | ok pair => exact ((sameOk pair.1 pair.2).mp rfl).symm
  | error error =>
      cases right with
      | ok pair => exact (sameOk pair.1 pair.2).mpr rfl
      | error other => cases error <;> cases other <;> simp_all

theorem readPair_up_to_closing (before after : List Char) :
    readPair (before ++ ')' :: after) = readPair (before ++ [')']) := by
  apply result_ext
  · intro step offset
    rw [readPair_ok_iff, readPair_ok_iff]
    refine exists_congr fun argument => and_congr_left fun isArgument => ?_
    exact prefix_iff_of_unclosed isArgument.unclosed after
  · rw [readPair_overflow_iff, readPair_overflow_iff]
    refine exists_congr fun start => and_congr_left fun isOutOfRange => ?_
    exact prefix_iff_of_unclosed isOutOfRange.unclosed after

theorem read_ok_iff {text : String} {fromEnd : Bool} {nth : Nth} :
    read text fromEnd = .ok nth ↔
      nth.fromEnd = fromEnd ∧ readPair text.toList = .ok (nth.step, nth.offset) := by
  rw [read]
  cases readPair text.toList with
  | ok pair =>
      cases nth
      simp only [Except.ok.injEq, Nth.mk.injEq, Prod.ext_iff]
      constructor
      · rintro ⟨sameStep, sameOffset, sameEnd⟩
        exact ⟨sameEnd.symm, sameStep, sameOffset⟩
      · rintro ⟨sameEnd, sameStep, sameOffset⟩
        exact ⟨sameStep, sameOffset, sameEnd.symm⟩
  | error error => cases error <;> simp

theorem read_error_iff {text : String} {fromEnd : Bool} {error : NthError} :
    read text fromEnd = .error error ↔
      (readPair text.toList = .error .invalid ∧ error = .invalid text) ∨
        (readPair text.toList = .error .overflow ∧ error = .overflow text) := by
  rw [read]
  cases readPair text.toList with
  | ok pair => simp
  | error cause => cases cause <;> simp [eq_comm]

/-- What is read as an argument in one pair of parentheses is written as one. -/
theorem isWritten_of_readPair {inner : List Char} (unclosed : ')' ∉ inner)
    (reads : readPair ('(' :: (inner ++ [')'])) = .ok (step, offset)) :
    ∀ c ∈ inner, isWritten c = true := by
  obtain ⟨argument, starts, isArgument⟩ := readPair_ok_iff.mp reads
  obtain ⟨before, written, rfl, isBefore, areWritten⟩ := isArgument.exists_inner
  cases before with
  | cons c before =>
      obtain ⟨rfl, _⟩ := List.cons_prefix_cons.mp starts
      have isBlank : isAsciiBlank '(' = true := isBefore '(' List.mem_cons_self
      cases isBlank
  | nil =>
      rcases List.prefix_concat_iff.mp (List.cons_prefix_cons.mp starts).2 with same | inside
      · rwa [← List.append_cancel_right same]
      · exact absurd (inside.subset (by simp)) unclosed

/-- A text is read where it starts with an argument, which is the only one it starts with, and it
is out of range where a run of digits in place of the coefficient or of the integer is. What follows
a closing parenthesis does not matter. -/
theorem read_iff_isArgument (text : String) (fromEnd : Bool) :
    (∀ nth, read text fromEnd = .ok nth ↔ nth.fromEnd = fromEnd ∧
      ∃ argument, argument <+: text.toList ∧ IsArgument argument nth.step nth.offset) ∧
    (read text fromEnd = .error (.overflow text) ↔
      ∃ start, start <+: text.toList ∧ IsOutOfRange start) ∧
    (∀ error, read text fromEnd = .error error → error = .invalid text ∨ error = .overflow text) ∧
    (∀ argument other step offset otherStep otherOffset, argument <+: text.toList →
      other <+: text.toList → IsArgument argument step offset →
        IsArgument other otherStep otherOffset →
          argument = other ∧ step = otherStep ∧ offset = otherOffset) ∧
    ∀ before after other, text.toList = before ++ ')' :: after →
      readPair (before ++ ')' :: other) = readPair text.toList := by
  refine ⟨fun nth => ?_, ?_, fun error failed => ?_, ?_, ?_⟩
  · rw [read_ok_iff, readPair_ok_iff]
  · rw [read_error_iff, ← readPair_overflow_iff]
    simp
  · exact (read_error_iff.mp failed).imp And.right And.right
  · exact fun _ _ _ _ _ _ starts otherStarts => IsArgument.unique starts otherStarts
  · intro before after other spelled
    rw [spelled, readPair_up_to_closing before other, readPair_up_to_closing before after]

/-- A signed step with zeros in front and an offset behind white space, before a second
parenthesis, and the same digits where they are too large. -/
theorem read_iff_isArgument_offset :
    read "\t( -07n - 4 )(n)" true = .ok ⟨-7, -4, true⟩ ∧
      (∃ argument, argument <+: "\t( -07n - 4 )(n)".toList ∧ IsArgument argument (-7) (-4) ∧
        ∀ other, other <+: "\t( -07n - 4 )(n)".toList → IsArgument other (-7) (-4) →
          argument = other) ∧
      readPair ("\t( -07n - 4 ".toList ++ ')' :: "é".toList) = .ok (-7, -4) ∧
      ∃ start, start <+: "(9223372036854775808n".toList ∧ IsOutOfRange start := by
  obtain ⟨accepts, _, _, unique, upToClosing⟩ := read_iff_isArgument "\t( -07n - 4 )(n)" true
  obtain ⟨_, outOfRange, _⟩ := read_iff_isArgument "(9223372036854775808n" false
  have reads : read "\t( -07n - 4 )(n)" true = .ok ⟨-7, -4, true⟩ := by decide +kernel
  obtain ⟨_, argument, starts, isArgument⟩ := (accepts _).mp reads
  refine ⟨reads, ⟨argument, starts, isArgument, fun other otherStarts isOther => ?_⟩, ?_, ?_⟩
  · exact (unique argument other _ _ _ _ starts otherStarts isArgument isOther).1
  · rw [upToClosing _ "(n)".toList _ (by decide +kernel)]
    decide +kernel
  · exact outOfRange.mp (by decide +kernel)

end Nth

end TreeQuery
