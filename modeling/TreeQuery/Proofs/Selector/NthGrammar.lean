import Mathlib.Data.List.Infix
import TreeQuery.Selector.Nth

/-!
The grammar of `An+B` arguments.

An argument is a body in parentheses, with white space around and inside them. A body is a step with
an optional offset, a word or an integer, and its reader takes exactly these where the argument
closes behind them, with their step and their offset. It calls a body out of range where the digits
of a coefficient, or of an integer that the argument closes behind, are too large.
-/

namespace TreeQuery

namespace Nth

/-! ## The grammar -/

/-- The largest magnitude of a step or an offset. -/
def largest : Nat :=
  9223372036854775807

/-- White space of an argument. -/
def IsGap (text : List Char) : Prop :=
  ∀ c ∈ text, isAsciiBlank c = true

/-- A sign, and the factor it puts before a magnitude. -/
inductive IsSign : Char → Int → Prop where
  | plus : IsSign '+' 1
  | minus : IsSign '-' (-1)

inductive IsOptionalSign : List Char → Int → Prop where
  | absent : IsOptionalSign [] 1
  | present {sign : Char} {factor : Int} (isSign : IsSign sign factor) :
      IsOptionalSign [sign] factor

/-- A run of digits, and the number that it writes. -/
structure IsRun (digits : List Char) (magnitude : Nat) : Prop where
  nonempty : digits ≠ []
  areDigits : ∀ c ∈ digits, c.isDigit = true
  value : Nat.ofDigitChars 10 digits 0 = magnitude

/-- The digits before `n`. Without digits the coefficient is one. -/
inductive IsCoefficient : List Char → Nat → Prop where
  | absent : IsCoefficient [] 1
  | run {digits : List Char} {magnitude : Nat} (isRun : IsRun digits magnitude)
      (inRange : magnitude ≤ largest) : IsCoefficient digits magnitude

/-- The offset behind `n`: a sign and one digit. -/
inductive IsOffset : List Char → Int → Prop where
  | absent : IsOffset [] 0
  | digit {sign digit : Char} {factor : Int} {gap : List Char} (isSign : IsSign sign factor)
      (isGap : IsGap gap) (isDigit : digit.isDigit = true) :
      IsOffset (sign :: (gap ++ [digit])) (factor * (digit.toNat - '0'.toNat : Nat))

/-- The words for every second position. -/
inductive IsWord : List Char → Int → Int → Prop where
  | odd : IsWord ['o', 'd', 'd'] 2 1
  | even : IsWord ['e', 'v', 'e', 'n'] 2 0

/-- A body, with its step and its offset. -/
inductive IsBody : List Char → Int → Int → Prop where
  | steps {sign digits gap offset : List Char} {factor value : Int} {magnitude : Nat}
      (isSign : IsOptionalSign sign factor) (isCoefficient : IsCoefficient digits magnitude)
      (isGap : IsGap gap) (isOffset : IsOffset offset value) :
      IsBody (sign ++ (digits ++ 'n' :: (gap ++ offset))) (factor * magnitude) value
  | word {word : List Char} {step offset : Int} (isWord : IsWord word step offset) :
      IsBody word step offset
  | integer {sign digits : List Char} {factor : Int} {magnitude : Nat}
      (isSign : IsOptionalSign sign factor) (isRun : IsRun digits magnitude)
      (inRange : magnitude ≤ largest) : IsBody (sign ++ digits) 0 (factor * magnitude)

/-- The text up to a body. -/
inductive IsOpening : List Char → Prop where
  | mk {before inside : List Char} (isBefore : IsGap before) (isInside : IsGap inside) :
      IsOpening (before ++ '(' :: inside)

/-- The text behind a body, up to the closing parenthesis. -/
inductive IsClosing : List Char → Prop where
  | mk {gap : List Char} (isGap : IsGap gap) : IsClosing (gap ++ [')'])

/-- An argument, parentheses included, with its step and its offset. -/
inductive IsArgument : List Char → Int → Int → Prop where
  | mk {opening body closing : List Char} {step offset : Int} (isOpening : IsOpening opening)
      (isBody : IsBody body step offset) (isClosing : IsClosing closing) :
      IsArgument (opening ++ (body ++ closing)) step offset

/-- A body with a run of digits that is too large: as a coefficient, whatever follows its `n`, or
as an integer that the argument ends with. -/
inductive IsExcess : List Char → Prop where
  | coefficient {sign digits : List Char} {factor : Int} {magnitude : Nat}
      (isSign : IsOptionalSign sign factor) (isRun : IsRun digits magnitude)
      (tooLarge : largest < magnitude) : IsExcess (sign ++ (digits ++ ['n']))
  | integer {sign digits closing : List Char} {factor : Int} {magnitude : Nat}
      (isSign : IsOptionalSign sign factor) (isRun : IsRun digits magnitude)
      (tooLarge : largest < magnitude) (isClosing : IsClosing closing) :
      IsExcess (sign ++ (digits ++ closing))

/-- The start of an argument that is out of range. -/
inductive IsOutOfRange : List Char → Prop where
  | mk {opening excess : List Char} (isOpening : IsOpening opening) (isExcess : IsExcess excess) :
      IsOutOfRange (opening ++ excess)

/-! ## Readers of the parts -/

variable {text rest sign digits gap closing body : List Char} {c : Char} {factor step offset : Int}
  {magnitude : Nat}

theorem IsCoefficient.areDigits (isCoefficient : IsCoefficient digits magnitude) :
    ∀ c ∈ digits, c.isDigit = true := by
  cases isCoefficient with
  | absent => simp
  | run isRun => exact isRun.areDigits

theorem lt_limit_iff : magnitude < limit ↔ magnitude ≤ largest := by
  have isNext : limit = largest + 1 := by decide +kernel
  rw [isNext, Nat.lt_succ_iff]

theorem bounded_of_le (inRange : magnitude ≤ largest) : bounded magnitude = .ok magnitude :=
  if_pos (lt_limit_iff.mpr inRange)

theorem bounded_of_lt (tooLarge : largest < magnitude) : bounded magnitude = .error .overflow :=
  if_neg fun inRange => absurd (lt_limit_iff.mp inRange) (Nat.not_le.mpr tooLarge)

theorem skipBlanks_append (isGap : IsGap gap) (text : List Char) :
    skipBlanks (gap ++ text) = skipBlanks text :=
  List.dropWhile_append_of_pos isGap

theorem skipBlanks_cons (notBlank : isAsciiBlank c = false) (text : List Char) :
    skipBlanks (c :: text) = c :: text :=
  List.dropWhile_cons_of_neg (by simp [notBlank])

theorem exists_gap (text : List Char) : ∃ gap, IsGap gap ∧ text = gap ++ skipBlanks text :=
  ⟨text.takeWhile isAsciiBlank, List.all_eq_true.mp List.all_takeWhile,
    List.takeWhile_append_dropWhile.symm⟩

theorem closes_iff : closes text = true ↔ ∃ closing, closing <+: text ∧ IsClosing closing := by
  rw [closes, decide_eq_true_eq]
  constructor
  · intro isCloser
    obtain ⟨behind, spelled⟩ := List.head?_eq_some_iff.mp isCloser
    obtain ⟨gap, isGap, split⟩ := exists_gap text
    refine ⟨gap ++ [')'], ⟨behind, ?_⟩, .mk isGap⟩
    rw [split, spelled, List.append_assoc, List.singleton_append]
  · rintro ⟨_, ⟨behind, rfl⟩, ⟨isGap⟩⟩
    rw [List.append_assoc, skipBlanks_append isGap, List.singleton_append, skipBlanks_cons rfl]
    rfl

/-- White space in front of the end of an argument belongs to the end. -/
theorem closes_append (isGap : IsGap gap) (text : List Char) :
    closes (gap ++ text) = closes text := by
  rw [closes, closes, skipBlanks_append isGap]

/-- What starts with no sign. -/
def IsUnsigned (text : List Char) : Prop :=
  ∀ c ∈ text.head?, c ≠ '+' ∧ c ≠ '-'

/-- What continues neither a sign nor a run of digits. -/
structure Stops (text : List Char) : Prop where
  unsigned : IsUnsigned text
  notDigit : ∀ c ∈ text.head?, c.isDigit = false

theorem stops_of_head (notSign : c ≠ '+' ∧ c ≠ '-')
    (notDigit : c.isDigit = false) : Stops (c :: rest) := by
  constructor
  · rintro _ ⟨rfl⟩
    exact notSign
  · rintro _ ⟨rfl⟩
    exact notDigit

/-- White space is no part of a body. -/
theorem apart_of_isAsciiBlank (blank : isAsciiBlank c = true) :
    (c ≠ '+' ∧ c ≠ '-') ∧ c.isDigit = false ∧ c ≠ 'n' := by
  simp only [isAsciiBlank, Bool.or_eq_true, beq_iff_eq] at blank
  rcases blank with (((rfl | rfl) | rfl) | rfl) | rfl <;> decide

theorem isAsciiBlank_of_isDigit (isDigit : c.isDigit = true) : isAsciiBlank c = false := by
  rw [Bool.eq_false_iff]
  intro blank
  rw [(apart_of_isAsciiBlank blank).2.1] at isDigit
  cases isDigit

theorem stops_of_closes (isClosed : closes text = true) :
    Stops text ∧ text.head? ≠ some 'n' := by
  obtain ⟨_, ⟨behind, rfl⟩, @⟨gap, isGap⟩⟩ := closes_iff.mp isClosed
  cases gap with
  | nil => exact ⟨stops_of_head (by decide) (by decide), by simp⟩
  | cons c gap =>
      obtain ⟨notSign, notDigit, notN⟩ := apart_of_isAsciiBlank (isGap c List.mem_cons_self)
      exact ⟨stops_of_head notSign notDigit, by simpa using notN⟩

theorem stops_n (rest : List Char) : Stops ('n' :: rest) :=
  stops_of_head (by decide) (by decide)

theorem signed_of_isSign (isSign : IsSign c factor) (rest : List Char) :
    ∃ negative, splitSign? (c :: rest) = (some negative, rest) ∧
      ∀ magnitude, signed (some negative) magnitude = factor * magnitude := by
  cases isSign with
  | plus => exact ⟨false, rfl, fun magnitude => by simp [signed]⟩
  | minus => exact ⟨true, rfl, fun magnitude => by simp [signed]⟩

theorem splitSign?_of_unsigned (isUnsigned : IsUnsigned text) :
    splitSign? text = (none, text) := by
  unfold splitSign?
  split
  · exact absurd rfl (isUnsigned '-' rfl).2
  · exact absurd rfl (isUnsigned '+' rfl).1
  · rfl

/-- A sign that was read, by the factor that it stands for. -/
theorem splitSign?_cases (text : List Char) :
    (∃ sign factor negative rest, IsSign sign factor ∧ text = sign :: rest ∧
        splitSign? text = (some negative, rest) ∧
          ∀ magnitude, signed (some negative) magnitude = factor * magnitude) ∨
      IsUnsigned text ∧ splitSign? text = (none, text) := by
  cases text with
  | nil => exact .inr ⟨by simp [IsUnsigned], rfl⟩
  | cons c rest =>
      by_cases isSign : ∃ factor, IsSign c factor
      · obtain ⟨factor, isSign⟩ := isSign
        obtain ⟨negative, split, value⟩ := signed_of_isSign isSign rest
        exact .inl ⟨c, factor, negative, rest, isSign, rfl, split, value⟩
      · have isUnsigned : IsUnsigned (c :: rest) := by
          rintro _ ⟨rfl⟩
          constructor
          · rintro rfl
            exact isSign ⟨1, .plus⟩
          · rintro rfl
            exact isSign ⟨-1, .minus⟩
        exact .inr ⟨isUnsigned, splitSign?_of_unsigned isUnsigned⟩

theorem readOffset?_iff :
    readOffset? text = some offset ↔ ∃ gap written rest, IsGap gap ∧ written ≠ [] ∧
      IsOffset written offset ∧ closes rest = true ∧ text = gap ++ (written ++ rest) := by
  constructor
  · intro reads
    obtain ⟨gap, isGap, split⟩ := exists_gap text
    rcases splitSign?_cases (skipBlanks text) with
      ⟨sign, factor, negative, behind, isSign, spelled, signSplit, value⟩ | ⟨_, unsigned⟩
    · obtain ⟨middle, isMiddle, middleSplit⟩ := exists_gap behind
      rw [readOffset?, signSplit] at reads
      cases digitsAt : skipBlanks behind with
      | nil => simp [digitsAt] at reads
      | cons digit rest =>
          simp only [digitsAt, Option.ite_none_right_eq_some, Bool.and_eq_true,
            Option.some.injEq] at reads
          obtain ⟨⟨isDigit, isClosed⟩, rfl⟩ := reads
          rw [value]
          refine ⟨gap, sign :: (middle ++ [digit]), rest, isGap, by simp,
            .digit isSign isMiddle isDigit, isClosed, ?_⟩
          rw [split, spelled, middleSplit, digitsAt]
          simp
    · rw [readOffset?, unsigned] at reads
      cases reads
  · rintro ⟨gap, written, rest, isGap, nonempty, isOffset, isClosed, rfl⟩
    cases isOffset with
    | absent => exact absurd rfl nonempty
    | @digit sign digit factor middle isSign isMiddle isDigit =>
        have signKept : isAsciiBlank sign = false := by cases isSign <;> rfl
        have digitKept : isAsciiBlank digit = false := isAsciiBlank_of_isDigit isDigit
        obtain ⟨negative, split, value⟩ :=
          signed_of_isSign isSign (middle ++ ([digit] ++ rest))
        rw [readOffset?, skipBlanks_append isGap, List.cons_append, skipBlanks_cons signKept,
          List.append_assoc, split]
        simp only [skipBlanks_append isMiddle, List.singleton_append, skipBlanks_cons digitKept,
          isDigit, isClosed, Bool.and_self, if_true, value]

theorem readOffset?_of_closes (isClosed : closes text = true) : readOffset? text = none := by
  rw [closes, decide_eq_true_eq] at isClosed
  obtain ⟨behind, spelled⟩ := List.head?_eq_some_iff.mp isClosed
  rw [readOffset?, spelled]
  rfl

/-! ## Sign and digits of a body -/

/-- A body that starts with an optional sign and digits, read as far as they go. -/
structure HasLead (body sign digits rest : List Char) (factor : Int) : Prop where
  isSign : IsOptionalSign sign factor
  areDigits : ∀ c ∈ digits, c.isDigit = true
  spelled : body = sign ++ (digits ++ rest)
  behind : ∀ c ∈ rest.head?, c.isDigit = false
  split : ∃ negative, splitSign? body = (negative, digits ++ rest) ∧
    ∀ magnitude, signed negative magnitude = factor * magnitude

theorem HasLead.digitsOf (lead : HasLead body sign digits rest factor) :
    (digits ++ rest).takeWhile Char.isDigit = digits ∧
      (digits ++ rest).dropWhile Char.isDigit = rest := by
  have stops : rest.takeWhile Char.isDigit = [] ∧ rest.dropWhile Char.isDigit = rest := by
    cases rest with
    | nil => exact ⟨rfl, rfl⟩
    | cons c rest => simp [lead.behind c rfl]
  rw [List.takeWhile_append_of_pos lead.areDigits, List.dropWhile_append_of_pos lead.areDigits,
    stops.1, stops.2, List.append_nil]
  exact ⟨rfl, rfl⟩

theorem hasLead_of_stops (isSign : IsOptionalSign sign factor)
    (areDigits : ∀ c ∈ digits, c.isDigit = true) (stops : Stops rest) :
    HasLead (sign ++ (digits ++ rest)) sign digits rest factor := by
  refine ⟨isSign, areDigits, rfl, stops.notDigit, ?_⟩
  cases isSign with
  | present isSign =>
      obtain ⟨negative, split, value⟩ := signed_of_isSign isSign (digits ++ rest)
      exact ⟨some negative, split, value⟩
  | absent =>
      have isUnsigned : IsUnsigned (digits ++ rest) := by
        cases digits with
        | nil => exact stops.unsigned
        | cons c digits =>
            rintro _ ⟨rfl⟩
            have isDigit := areDigits c List.mem_cons_self
            constructor <;> rintro rfl <;> cases isDigit
      exact ⟨none, splitSign?_of_unsigned isUnsigned, fun magnitude => by simp [signed]⟩

theorem exists_hasLead (body : List Char) :
    ∃ sign digits rest factor, HasLead body sign digits rest factor := by
  have areDigits (text : List Char) : ∀ c ∈ text.takeWhile Char.isDigit, c.isDigit = true :=
    List.all_eq_true.mp List.all_takeWhile
  have behind (text : List Char) :
      ∀ c ∈ (text.dropWhile Char.isDigit).head?, c.isDigit = false := by
    intro c isHead
    have stops := List.head?_dropWhile_not Char.isDigit text
    rw [Option.mem_def.mp isHead] at stops
    exact stops
  have joined (text : List Char) := List.takeWhile_append_dropWhile (p := Char.isDigit) (l := text)
  rcases splitSign?_cases body with
    ⟨sign, factor, negative, text, isSign, rfl, split, value⟩ | ⟨_, unsigned⟩
  · refine ⟨[sign], _, _, factor, .present isSign, areDigits text, ?_, behind text, some negative,
      ?_, value⟩
    · rw [joined]
      rfl
    · rw [joined, split]
  · refine ⟨[], _, _, 1, .absent, areDigits body, (joined body).symm, behind body, none, ?_,
      fun magnitude => by simp [signed]⟩
    rw [joined, unsigned]

/-! ## Readers of bodies -/

/-- The coefficient that digits before `n` stand for. -/
def readCoefficient (digits : List Char) : Except BodyError Nat :=
  if digits.isEmpty then .ok 1 else bounded (Nat.ofDigitChars 10 digits 0)

/-- The offset behind `n`, if the argument closes behind it or at once. -/
def offsetBehind? (text : List Char) : Option Int :=
  (readOffset? text).or (if closes text then some 0 else none)

theorem readSteps_of_lead (lead : HasLead body sign digits ('n' :: rest) factor) :
    readSteps body = (readCoefficient digits).map fun (magnitude : Nat) =>
      (offsetBehind? rest).map fun offset => (factor * (magnitude : Int), offset) := by
  obtain ⟨negative, split, value⟩ := lead.split
  rw [readSteps, split]
  simp only [lead.digitsOf.1, lead.digitsOf.2, value]
  rw [readCoefficient, offsetBehind?]
  cases readOffset? rest with
  | some offset => cases digits.isEmpty <;> rfl
  | none => cases closes rest <;> cases digits.isEmpty <;> rfl

theorem readSteps_of_other (lead : HasLead body sign digits rest factor)
    (notSteps : rest.head? ≠ some 'n') : readSteps body = .ok none := by
  obtain ⟨negative, split, _⟩ := lead.split
  rw [readSteps, split]
  simp only [lead.digitsOf.1, lead.digitsOf.2]
  split
  · exact absurd rfl notSteps
  · rfl

theorem readInteger_of_lead (lead : HasLead body sign digits rest factor) :
    readInteger body =
      if !digits.isEmpty && closes rest then
        (readCoefficient digits).map fun (magnitude : Nat) => (0, factor * (magnitude : Int))
      else
        .error .invalid := by
  obtain ⟨negative, split, value⟩ := lead.split
  rw [readInteger, split, readCoefficient]
  simp only [lead.digitsOf.1, lead.digitsOf.2, value]
  cases digits.isEmpty <;> rfl

theorem readCoefficient_of_run (isRun : IsRun digits magnitude) :
    readCoefficient digits = bounded magnitude := by
  rw [readCoefficient, if_neg (by simp [isRun.nonempty]), isRun.value]

theorem readCoefficient_cases (areDigits : ∀ c ∈ digits, c.isDigit = true) :
    (digits = [] ∧ readCoefficient digits = .ok 1) ∨ ∃ magnitude, IsRun digits magnitude ∧
      (magnitude ≤ largest ∧ readCoefficient digits = .ok magnitude ∨
        largest < magnitude ∧ readCoefficient digits = .error .overflow) := by
  by_cases nonempty : digits = []
  · subst nonempty
    exact .inl ⟨rfl, rfl⟩
  · have isRun : IsRun digits _ := ⟨nonempty, areDigits, rfl⟩
    refine .inr ⟨_, isRun, ?_⟩
    rw [readCoefficient_of_run isRun]
    rcases Nat.lt_or_ge largest (Nat.ofDigitChars 10 digits 0) with tooLarge | inRange
    · exact .inr ⟨tooLarge, bounded_of_lt tooLarge⟩
    · exact .inl ⟨inRange, bounded_of_le inRange⟩

theorem readCoefficient_ok_iff (areDigits : ∀ c ∈ digits, c.isDigit = true) :
    readCoefficient digits = .ok magnitude ↔ IsCoefficient digits magnitude := by
  constructor
  · intro reads
    rcases readCoefficient_cases areDigits with
      ⟨rfl, isOne⟩ | ⟨run, isRun, ⟨inRange, isValue⟩ | ⟨_, failed⟩⟩
    · cases isOne.symm.trans reads
      exact .absent
    · cases isValue.symm.trans reads
      exact .run isRun inRange
    · cases failed.symm.trans reads
  · intro isCoefficient
    cases isCoefficient with
    | absent => rfl
    | run isRun inRange => rw [readCoefficient_of_run isRun, bounded_of_le inRange]

theorem readCoefficient_overflow_iff (areDigits : ∀ c ∈ digits, c.isDigit = true) :
    readCoefficient digits = .error .overflow ↔
      ∃ magnitude, IsRun digits magnitude ∧ largest < magnitude := by
  constructor
  · intro failed
    rcases readCoefficient_cases areDigits with
      ⟨_, isOne⟩ | ⟨run, isRun, ⟨_, isValue⟩ | ⟨tooLarge, _⟩⟩
    · cases isOne.symm.trans failed
    · cases isValue.symm.trans failed
    · exact ⟨run, isRun, tooLarge⟩
  · rintro ⟨magnitude, isRun, tooLarge⟩
    rw [readCoefficient_of_run isRun, bounded_of_lt tooLarge]

theorem offsetBehind?_iff :
    offsetBehind? text = some offset ↔ ∃ gap written rest, IsGap gap ∧ IsOffset written offset ∧
      closes rest = true ∧ text = gap ++ (written ++ rest) := by
  rw [offsetBehind?, Option.or_eq_some_iff]
  constructor
  · rintro (reads | ⟨_, closed⟩)
    · obtain ⟨gap, written, rest, isGap, _, isOffset, isClosed, spelled⟩ := readOffset?_iff.mp reads
      exact ⟨gap, written, rest, isGap, isOffset, isClosed, spelled⟩
    · rw [Option.ite_none_right_eq_some] at closed
      obtain ⟨isClosed, ⟨rfl⟩⟩ := closed
      exact ⟨[], [], text, by simp [IsGap], .absent, isClosed, rfl⟩
  · rintro ⟨gap, written, rest, isGap, isOffset, isClosed, rfl⟩
    by_cases isAbsent : written = []
    · subst isAbsent
      cases isOffset
      right
      have closed : closes (gap ++ ([] ++ rest)) = true := (closes_append isGap rest).trans isClosed
      exact ⟨readOffset?_of_closes closed, if_pos closed⟩
    · exact .inl (readOffset?_iff.mpr
        ⟨gap, written, rest, isGap, isAbsent, isOffset, isClosed, rfl⟩)

theorem readWord?_iff :
    readWord? body = some (step, offset) ↔
      ∃ word rest, IsWord word step offset ∧ closes rest = true ∧ body = word ++ rest := by
  rw [readWord?]
  constructor
  · intro reads
    split at reads
    · rename_i isOdd
      rw [Bool.and_eq_true, List.isPrefixOf_iff_prefix] at isOdd
      obtain ⟨⟨rest, rfl⟩, isClosed⟩ := isOdd
      cases reads
      exact ⟨_, rest, .odd, isClosed, rfl⟩
    · rw [Option.ite_none_right_eq_some, Bool.and_eq_true, List.isPrefixOf_iff_prefix] at reads
      obtain ⟨⟨⟨rest, rfl⟩, isClosed⟩, same⟩ := reads
      cases same
      exact ⟨_, rest, .even, isClosed, rfl⟩
  · rintro ⟨word, rest, isWord, isClosed, rfl⟩
    cases isWord with
    | odd => simp [isClosed]
    | even => simp [isClosed]

/-- A body that starts with a sign, a digit or `n` is no word. -/
theorem readWord?_of_lead (lead : HasLead body sign digits rest factor)
    (starts : digits ≠ [] ∨ rest.head? = some 'n') : readWord? body = none := by
  rw [Option.eq_none_iff_forall_ne_some]
  rintro ⟨step, offset⟩ reads
  obtain ⟨word, behind, isWord, _, rfl⟩ := readWord?_iff.mp reads
  obtain ⟨negative, split, _⟩ := lead.split
  have same : word ++ behind = digits ++ rest := by
    cases isWord <;> exact (Prod.mk.inj split).2
  cases digits with
  | nil =>
      rcases starts with nonempty | isSteps
      · exact nonempty rfl
      · rw [← List.nil_append rest, ← same] at isSteps
        cases isWord <;> cases isSteps
  | cons digit digits =>
      have isDigit := lead.areDigits digit List.mem_cons_self
      cases isWord <;> rw [← (List.cons.inj same).1] at isDigit <;> cases isDigit

theorem readBody_of_steps (lead : HasLead body sign digits ('n' :: rest) factor) :
    readBody body = (readCoefficient digits).bind fun (magnitude : Nat) =>
      (offsetBehind? rest).elim (.error .invalid) fun offset =>
        .ok (factor * (magnitude : Int), offset) := by
  have noWord := readWord?_of_lead lead (.inr rfl)
  have noInteger : readInteger body = .error .invalid := by
    rw [readInteger_of_lead lead, closes, skipBlanks_cons rfl]
    simp
  rw [readBody, readSteps_of_lead lead]
  cases readCoefficient digits with
  | error error => rfl
  | ok magnitude =>
      cases offsetBehind? rest with
      | some offset => rfl
      | none => simp [Except.map, Except.bind, bind, noWord, noInteger]

theorem readBody_of_other (lead : HasLead body sign digits rest factor)
    (notSteps : rest.head? ≠ some 'n') :
    readBody body = (readWord? body).elim (readInteger body) .ok := by
  rw [readBody, readSteps_of_other lead notSteps]
  cases readWord? body <;> rfl

section Lead

variable (lead : HasLead body sign digits rest factor)

include lead

theorem readInteger_ok_iff :
    readInteger body = .ok (step, offset) ↔ digits ≠ [] ∧ closes rest = true ∧ step = 0 ∧
      ∃ magnitude : Nat, IsCoefficient digits magnitude ∧ offset = factor * magnitude := by
  rw [readInteger_of_lead lead]
  simp only [← readCoefficient_ok_iff lead.areDigits, ← List.isEmpty_eq_false_iff]
  cases digits.isEmpty <;> cases closes rest <;> cases readCoefficient digits <;>
    simp [Except.map, eq_comm]

theorem readInteger_overflow_iff :
    readInteger body = .error .overflow ↔ closes rest = true ∧
      ∃ magnitude : Nat, IsRun digits magnitude ∧ largest < magnitude := by
  rw [readInteger_of_lead lead, ← readCoefficient_overflow_iff lead.areDigits, readCoefficient]
  cases digits.isEmpty <;> cases closes rest <;>
    cases bounded (Nat.ofDigitChars 10 digits 0) <;> simp [Except.map]

end Lead

section Steps

variable (lead : HasLead body sign digits ('n' :: rest) factor)

include lead

theorem readBody_steps_ok_iff :
    readBody body = .ok (step, offset) ↔ offsetBehind? rest = some offset ∧
      ∃ magnitude : Nat, IsCoefficient digits magnitude ∧ step = factor * magnitude := by
  rw [readBody_of_steps lead]
  simp only [← readCoefficient_ok_iff lead.areDigits]
  cases readCoefficient digits with
  | error error => simp [Except.bind]
  | ok magnitude =>
      cases offsetBehind? rest <;> simp [Except.bind, and_comm, eq_comm]

theorem readBody_steps_overflow_iff :
    readBody body = .error .overflow ↔
      ∃ magnitude : Nat, IsRun digits magnitude ∧ largest < magnitude := by
  rw [readBody_of_steps lead, ← readCoefficient_overflow_iff lead.areDigits]
  cases readCoefficient digits with
  | error error => simp [Except.bind]
  | ok magnitude => cases offsetBehind? rest <;> simp [Except.bind]

end Steps

theorem hasLead_of_word (isWord : IsWord text step offset) (rest : List Char) :
    HasLead (text ++ rest) [] [] (text ++ rest) 1 ∧ (text ++ rest).head? ≠ some 'n' := by
  have stops : Stops (text ++ rest) := by
    cases isWord <;> exact stops_of_head (by decide) (by decide)
  have noDigits : ∀ c ∈ ([] : List Char), c.isDigit = true := by simp
  refine ⟨hasLead_of_stops .absent noDigits stops, ?_⟩
  cases isWord <;> simp

/-- A body is read where the argument closes behind it. -/
theorem readBody_ok_iff :
    readBody body = .ok (step, offset) ↔
      ∃ text rest, IsBody text step offset ∧ closes rest = true ∧ body = text ++ rest := by
  constructor
  · intro reads
    obtain ⟨sign, digits, behind, factor, lead⟩ := exists_hasLead body
    by_cases isSteps : behind.head? = some 'n'
    · obtain ⟨behind, rfl⟩ := List.head?_eq_some_iff.mp isSteps
      obtain ⟨offsetAt, magnitude, isCoefficient, rfl⟩ := (readBody_steps_ok_iff lead).mp reads
      obtain ⟨gap, written, rest, isGap, isOffset, isClosed, rfl⟩ := offsetBehind?_iff.mp offsetAt
      refine ⟨_, rest, .steps lead.isSign isCoefficient isGap isOffset, isClosed, ?_⟩
      simp [lead.spelled]
    · rw [readBody_of_other lead isSteps] at reads
      cases wordAt : readWord? body with
      | some pair =>
          rw [wordAt] at reads
          cases reads
          obtain ⟨word, rest, isWord, isClosed, spelled⟩ := readWord?_iff.mp wordAt
          exact ⟨word, rest, .word isWord, isClosed, spelled⟩
      | none =>
          rw [wordAt] at reads
          obtain ⟨nonempty, isClosed, rfl, magnitude, isCoefficient, rfl⟩ :=
            (readInteger_ok_iff lead).mp reads
          cases isCoefficient with
          | absent => exact absurd rfl nonempty
          | run isRun inRange =>
              refine ⟨_, behind, .integer lead.isSign isRun inRange, isClosed, ?_⟩
              rw [lead.spelled, List.append_assoc]
  · rintro ⟨text, rest, isBody, isClosed, rfl⟩
    have behind := stops_of_closes isClosed
    cases isBody with
    | @steps sign digits gap written factor value magnitude isSign isCoefficient isGap isOffset =>
        have lead := hasLead_of_stops isSign isCoefficient.areDigits
          (stops_n (gap ++ (written ++ rest)))
        have offsetAt := offsetBehind?_iff.mpr ⟨gap, written, rest, isGap, isOffset, isClosed, rfl⟩
        have reads := (readBody_steps_ok_iff lead).mpr ⟨offsetAt, magnitude, isCoefficient, rfl⟩
        simpa only [List.append_assoc, List.cons_append] using reads
    | word isWord =>
        obtain ⟨lead, notSteps⟩ := hasLead_of_word isWord rest
        rw [readBody_of_other lead notSteps,
          readWord?_iff.mpr ⟨text, rest, isWord, isClosed, rfl⟩]
        rfl
    | @integer sign digits factor magnitude isSign isRun inRange =>
        have lead := hasLead_of_stops isSign isRun.areDigits behind.1
        rw [List.append_assoc, readBody_of_other lead behind.2,
          readWord?_of_lead lead (.inl isRun.nonempty)]
        exact (readInteger_ok_iff lead).mpr
          ⟨isRun.nonempty, isClosed, rfl, magnitude, .run isRun inRange, rfl⟩

/-- A body is out of range where it starts with a run of digits that is too large. -/
theorem readBody_overflow_iff :
    readBody body = .error .overflow ↔ ∃ excess, excess <+: body ∧ IsExcess excess := by
  constructor
  · intro failed
    obtain ⟨sign, digits, behind, factor, lead⟩ := exists_hasLead body
    by_cases isSteps : behind.head? = some 'n'
    · obtain ⟨behind, rfl⟩ := List.head?_eq_some_iff.mp isSteps
      obtain ⟨magnitude, isRun, tooLarge⟩ := (readBody_steps_overflow_iff lead).mp failed
      refine ⟨_, ⟨behind, ?_⟩, .coefficient lead.isSign isRun tooLarge⟩
      simp [lead.spelled]
    · rw [readBody_of_other lead isSteps] at failed
      cases wordAt : readWord? body with
      | some pair =>
          rw [wordAt] at failed
          cases failed
      | none =>
          rw [wordAt] at failed
          obtain ⟨isClosed, magnitude, isRun, tooLarge⟩ := (readInteger_overflow_iff lead).mp failed
          obtain ⟨closing, ⟨rest, rfl⟩, isClosing⟩ := closes_iff.mp isClosed
          refine ⟨_, ⟨rest, ?_⟩, .integer lead.isSign isRun tooLarge isClosing⟩
          simp [lead.spelled]
  · rintro ⟨_, ⟨rest, rfl⟩, isExcess⟩
    cases isExcess with
    | coefficient isSign isRun tooLarge =>
        have lead := hasLead_of_stops isSign isRun.areDigits (stops_n rest)
        have failed := (readBody_steps_overflow_iff lead).mpr ⟨_, isRun, tooLarge⟩
        simpa using failed
    | @integer sign digits closing factor magnitude isSign isRun tooLarge isClosing =>
        have isClosed : closes (closing ++ rest) = true :=
          closes_iff.mpr ⟨closing, List.prefix_append _ _, isClosing⟩
        have behind := stops_of_closes isClosed
        have lead := hasLead_of_stops isSign isRun.areDigits behind.1
        rw [List.append_assoc, List.append_assoc, readBody_of_other lead behind.2,
          readWord?_of_lead lead (.inl isRun.nonempty)]
        exact (readInteger_overflow_iff lead).mpr ⟨isClosed, magnitude, isRun, tooLarge⟩

/-! ## Readers of arguments -/

end Nth

end TreeQuery
