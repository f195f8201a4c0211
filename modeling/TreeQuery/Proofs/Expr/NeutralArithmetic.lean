import TreeQuery.Proofs.Expr.Rendering
import TreeQuery.Proofs.Number.DecimalRange
import TreeQuery.Proofs.Number.Magnitude
import TreeQuery.Proofs.Selector.Quoting

/-!
Arithmetic with neutral operands.

Adding or subtracting zero, and multiplying with or dividing by one, goes through the decimal of a
value like any other operation. The decimal keeps the sign, unless the value is lost in it: then the
result is zero.
-/

namespace TreeQuery

open TokenRule

/-- The operations that leave every number as it is. -/
inductive Neutral where
  | addZero
  | subtractZero
  | multiplyByOne
  | divideByOne

namespace Neutral

def operator : Neutral → BinaryOperator
  | .addZero => .add
  | .subtractZero => .subtract
  | .multiplyByOne => .multiply
  | .divideByOne => .divide

def operation : Neutral → Operation
  | .addZero => .add
  | .subtractZero => .subtract
  | .multiplyByOne => .multiply
  | .divideByOne => .divide

def operand : Neutral → Nat
  | .addZero | .subtractZero => 0
  | .multiplyByOne | .divideByOne => 1

def number (neutral : Neutral) : Number :=
  .ofNat false neutral.operand

/-- The operation on the element under test. -/
def expr (neutral : Neutral) : Expr :=
  .binary neutral.operator .current (.number neutral.number)

variable {neutral : Neutral} {decimal : Decimal96} {value : Number} {units : Nat}

theorem apply_operator (neutral : Neutral) (left right : Value) :
    Value.apply neutral.operator left right = Value.arithmetic neutral.operation left right := by
  cases neutral <;> rfl

theorem operand_small (neutral : Neutral) : neutral.operand ≤ twoPow 53 := by
  cases neutral <;> decide +kernel

theorem number_eq (neutral : Neutral) : neutral.number =
    .finite false (neutral.operand * Number.unitsPerOne)
      (Number.representable_whole neutral.operand_small) :=
  Number.ofNat_eq neutral.operand_small false

theorem ofNumber?_number (neutral : Neutral) :
    Decimal96.ofNumber? neutral.number = some ⟨false, neutral.operand, 0⟩ := by
  rw [number_eq]
  exact Decimal96.ofNumber?_whole neutral.operand_small _ false

/-! ## Through decimals -/

/-- A decimal that is not zero goes through unchanged. -/
theorem onDecimals?_of_ne_zero (neutral : Neutral) (notZero : decimal.coefficient ≠ 0)
    (inRange : decimal.coefficient < Decimal96.limit)
    (fewPlaces : decimal.scale ≤ Decimal96.maxScale) :
    neutral.operation.onDecimals? decimal ⟨false, neutral.operand, 0⟩ = some decimal := by
  cases neutral with
  | addZero => simp [operation, operand, Operation.onDecimals?, Decimal96.add?, notZero]
  | subtractZero =>
      simp [operation, operand, Operation.onDecimals?, Decimal96.sub?, Decimal96.neg,
        Decimal96.add?, notZero]
  | multiplyByOne =>
      simp [operation, operand, Operation.onDecimals?, Decimal96.mul?, notZero,
        Decimal96.fit?_of_lt _ inRange fewPlaces]
  | divideByOne =>
      have finished : Decimal96.extend? 1 decimal.coefficient 0 decimal.scale false =
          some (decimal.coefficient, decimal.scale, false) := by
        rw [Decimal96.extend?, if_pos ⟨rfl, Int.natCast_nonneg _⟩, Int.toNat_natCast]
      simp [operation, operand, Operation.onDecimals?, Decimal96.div?, notZero, Nat.mod_one,
        finished]

theorem onDecimals?_of_eq_zero (neutral : Neutral) (isZero : decimal.coefficient = 0) :
    ∃ negative, neutral.operation.onDecimals? decimal ⟨false, neutral.operand, 0⟩ =
      some ⟨negative, 0, 0⟩ := by
  cases neutral with
  | addZero => exact ⟨false, if_pos isZero⟩
  | subtractZero => exact ⟨true, if_pos isZero⟩
  | multiplyByOne => exact ⟨false, if_pos (.inl isZero)⟩
  | divideByOne => exact ⟨false, by simp [operation, operand, Operation.onDecimals?,
      Decimal96.div?, isZero, Decimal96.zero]⟩

/-! ## Without decimals -/

theorem onNumbers_of_ne_zero (neutral : Neutral) (representable : Number.Representable units)
    (notZero : units ≠ 0) (negative : Bool) :
    neutral.operation.onNumbers (.finite negative units representable) neutral.number =
      .finite negative units representable := by
  rw [number_eq]
  cases neutral with
  | addZero =>
      simp only [operation, operand, Operation.onNumbers]
      exact Number.add_noUnits representable notZero negative false
  | subtractZero =>
      simp only [operation, operand, Operation.onNumbers, Number.sub, Number.neg]
      exact Number.add_noUnits representable notZero negative true
  | multiplyByOne =>
      have product := Number.round_mul representable Number.unitsPerOne_pos negative
      simpa [operation, operand, Operation.onNumbers, Number.mul] using product
  | divideByOne =>
      have quotient := Number.round_mul representable Number.unitsPerOne_pos negative
      simpa [operation, operand, Operation.onNumbers, Number.div,
        Nat.ne_of_gt Number.unitsPerOne_pos] using quotient

theorem onNumbers_of_not_isFinite (neutral : Neutral) (notFinite : value.isFinite = false) :
    neutral.operation.onNumbers value neutral.number = value := by
  rw [number_eq]
  cases value with
  | nan => cases neutral <;> rfl
  | finite => cases notFinite
  | infinite negative =>
      cases neutral with
      | addZero => rfl
      | subtractZero => rfl
      | multiplyByOne =>
          simp [operation, operand, Operation.onNumbers, Number.mul,
            Nat.ne_of_gt Number.unitsPerOne_pos]
      | divideByOne => simp [operation, Operation.onNumbers, Number.div]

/-! ## Signs -/

theorem apply_of_ofNumber? {result : Decimal96} (neutral : Neutral)
    (found : Decimal96.ofNumber? value = some decimal)
    (passes : neutral.operation.onDecimals? decimal ⟨false, neutral.operand, 0⟩ = some result) :
    neutral.operation.apply value neutral.number = result.toNumber := by
  simp [Operation.apply, Operation.throughDecimals?, found, ofNumber?_number, passes]

theorem apply_of_none (neutral : Neutral) (outOfRange : Decimal96.ofNumber? value = none) :
    neutral.operation.apply value neutral.number =
      neutral.operation.onNumbers value neutral.number := by
  simp [Operation.apply, Operation.throughDecimals?, outOfRange]

theorem apply_of_not_isFinite (neutral : Neutral) (notFinite : value.isFinite = false) :
    neutral.operation.apply value neutral.number = value := by
  have noDecimal : Decimal96.ofNumber? value = none := by
    cases value with
    | finite => cases notFinite
    | nan => rfl
    | infinite => rfl
  rw [apply_of_none neutral noDecimal, onNumbers_of_not_isFinite neutral notFinite]

theorem apply_isZero (neutral : Neutral) (representable : Number.Representable units)
    (negative : Bool) (isLost : Number.IsLost units) :
    (neutral.operation.apply (.finite negative units representable) neutral.number).isZero =
      true := by
  rcases Decimal96.ofNumber?_cases representable negative with
    ⟨decimal, found, isDecimal⟩ | ⟨-, notLost⟩
  · obtain ⟨sign, passes⟩ := onDecimals?_of_eq_zero neutral (isDecimal.isZero.mpr isLost)
    rw [apply_of_ofNumber? neutral found passes]
    cases sign <;> decide +kernel
  · exact absurd isLost notLost

theorem apply_sameSign (neutral : Neutral) (representable : Number.Representable units)
    (negative : Bool) (notLost : ¬Number.IsLost units) :
    (neutral.operation.apply (.finite negative units representable) neutral.number).SameSign
      (.finite negative units representable) := by
  have notZero : units ≠ 0 := by
    rintro rfl
    exact notLost (Nat.zero_le _)
  refine Number.HasSign.sameSign ?_ (Number.hasSign_finite representable notZero negative)
  rcases Decimal96.ofNumber?_cases representable negative with
    ⟨decimal, found, isDecimal⟩ | ⟨outOfRange, -⟩
  · have remains := mt isDecimal.isZero.mp notLost
    obtain ⟨exponent, magnitude, atLeast, isMagnitude⟩ :=
      Decimal96.exists_magnitude remains isDecimal.fewPlaces
    have passes := onDecimals?_of_ne_zero neutral remains isDecimal.inRange isDecimal.fewPlaces
    rw [apply_of_ofNumber? neutral found passes, isMagnitude, isDecimal.sign]
    exact atLeast.hasSign negative
  · rw [apply_of_none neutral outOfRange, onNumbers_of_ne_zero neutral representable notZero]
    exact Number.hasSign_finite representable notZero negative

end Neutral

namespace Element

/-- A number node whose value is lost in its decimal. -/
def isLost : Element → Bool
  | .scalar _ (.number (.finite _ units _)) => decide (Number.IsLost units)
  | _ => false

end Element

namespace Expr

/-- The expression that asks for a positive value. -/
def aboveZero (expr : Expr) : Expr :=
  .binary .greaterThan expr (.number (.zero false))

variable {expr : Expr} {element : Element} {value : Number}

theorem test_aboveZero (isNumber : expr.eval element = .number value) :
    expr.aboveZero.test element = value.isPositive := by
  rw [aboveZero, test, eval, isNumber]
  rfl

theorem matches_digit : unsignedNumber.Matches ['0'] ∧ unsignedNumber.Matches ['1'] :=
  ⟨(Pattern.matches_take_of_longest? (show unsignedNumber.longest? ['0'] = some 1 by rfl)).2,
    (Pattern.matches_take_of_longest? (show unsignedNumber.longest? ['1'] = some 1 by rfl)).2⟩

theorem ofChars?_zero : Number.ofChars? ['0'] = some (.zero false) := by
  decide +kernel

theorem IsWritable.aboveZero (writable : expr.IsWritable) : expr.aboveZero.IsWritable :=
  ⟨writable, ['0'], matches_digit.1, .inl ofChars?_zero⟩

theorem rendering_aboveZero :
    Rendering [.operator .greaterThan, .operand (.number (.zero false))] " > 0".toList :=
  @Rendering.cons _ _ [' '] _ _ isBlank_space (.operator .greaterThan) <|
    @Rendering.cons _ _ [' '] _ _ isBlank_space (.number matches_digit.1 ofChars?_zero) <|
      .nil (by simp)

theorem ofText_aboveZero : ofText "x > 0" = .ok current.aboveZero :=
  @ofText_of_rendering .minimal _ _ (IsWritable.aboveZero trivial)
    (@Rendering.cons _ _ [] _ _ (by simp) .current rendering_aboveZero)

end Expr

namespace Neutral

theorem eval_expr (neutral : Neutral) (declared : Option Declaration) (value : Number) :
    neutral.expr.eval (.scalar declared (.number value)) =
      .number (neutral.operation.apply value neutral.number) := by
  rw [expr, Expr.eval, apply_operator]
  rfl

/-- A neutral operation changes what is asked of a lost value alone. -/
theorem test_expr (neutral : Neutral) (element : Element) :
    neutral.expr.aboveZero.test element =
      (Expr.current.aboveZero.test element && !element.isLost) := by
  cases element with
  | array => cases neutral <;> rfl
  | keyed => cases neutral <;> rfl
  | scalar declared value =>
      cases value with
      | number value =>
          rw [Expr.test_aboveZero (eval_expr neutral declared value),
            @Expr.test_aboveZero .current _ value rfl]
          cases value with
          | finite negative units representable =>
              by_cases isLost : Number.IsLost units
              · have zeroed := neutral.apply_isZero representable negative isLost
                simp [Number.isPositive_of_isZero zeroed, Element.isLost, isLost]
              · have kept := neutral.apply_sameSign representable negative isLost
                simp [kept.isPositive, Element.isLost, isLost]
          | nan =>
              rw [apply_of_not_isFinite neutral rfl]
              exact (Bool.and_true _).symm
          | infinite =>
              rw [apply_of_not_isFinite neutral rfl]
              exact (Bool.and_true _).symm
      | _ => cases neutral <;> rfl

/-! ## Texts -/

/-- The operation as one writes it. -/
def text (neutral : Neutral) : String :=
  "x " ++ neutral.operator.symbol ++ " " ++ neutral.operand.repr

theorem ofText_text (neutral : Neutral) :
    Expr.ofText (neutral.text ++ " > 0") = .ok neutral.expr.aboveZero := by
  have isOperand : unsignedNumber.Matches neutral.operand.repr.toList := by
    cases neutral with
    | addZero | subtractZero => exact Expr.matches_digit.1
    | multiplyByOne | divideByOne => exact Expr.matches_digit.2
  have reads : Number.ofChars? neutral.operand.repr.toList = some neutral.number := by
    cases neutral <;> decide +kernel
  have areMarks : neutral.expr.aboveZero.marks .minimal =
      [.operand .current, .operator neutral.operator, .operand (.number neutral.number),
        .operator .greaterThan, .operand (.number (.zero false))] := by
    have unsigned : neutral.number.isSigned = false := Number.isSigned_round false _ _
    have zeroUnsigned : (Number.zero false).isSigned = false := rfl
    cases neutral <;>
      simp [Expr.aboveZero, expr, operator, Expr.marks, Expr.bareMarks, Expr.Parentheses.enclose,
        Expr.Parentheses.minimal, Expr.Slot.tier, Expr.tier, BinaryOperator.tier, unsigned,
        zeroUnsigned, Expr.operandTier]
  have isText : (neutral.text ++ " > 0").toList = [] ++ ['x'] ++
      ([' '] ++ neutral.operator.symbol.toList ++
        ([' '] ++ neutral.operand.repr.toList ++ " > 0".toList)) := by
    simp [text]
  have writable : neutral.expr.IsWritable := ⟨trivial, _, isOperand, .inl reads⟩
  refine @Expr.ofText_of_rendering .minimal _ _ writable.aboveZero ?_
  rw [areMarks, isText]
  exact .cons (by simp) .current <| .cons Expr.isBlank_space (.operator neutral.operator) <|
    .cons Expr.isBlank_space (.number isOperand reads) Expr.rendering_aboveZero

end Neutral

namespace Query

/-- A neutral operation keeps the sign of every finite value that is not lost in its decimal, and
makes zero of the others. So asking whether the result is positive selects what asking the value
does, without the nodes of lost values. -/
theorem select_neutral (neutral : Neutral) :
    (∀ (declared : Option Declaration) (negative : Bool) (units : Nat)
        (representable : Number.Representable units),
      ∃ result : Number,
        neutral.expr.eval (.scalar declared (.number (.finite negative units representable))) =
            .number result ∧
          (Number.IsLost units → result.isZero = true) ∧
            (¬Number.IsLost units → result.SameSign (.finite negative units representable))) ∧
      ∀ (query : Query) (plain rewritten : String),
        Expr.ofText plain = .ok Expr.current.aboveZero →
          Expr.ofText rewritten = .ok neutral.expr.aboveZero →
            ∃ selected, (query.select (exprSelector plain)).outcome = .ok selected ∧
              (query.select (exprSelector rewritten)).outcome = .ok (selected.filter fun id =>
                !(query.document.node? id).any fun node => node.element.isLost) := by
  refine ⟨fun declared negative units representable => ?_, fun query plain rewritten isPlain
    isRewritten => ?_⟩
  · exact ⟨_, neutral.eval_expr declared _, neutral.apply_isZero representable negative,
      neutral.apply_sameSign representable negative⟩
  · refine ⟨_, outcome_select_expr query isPlain, ?_⟩
    rw [outcome_select_expr query isRewritten, List.filter_filter]
    refine congrArg _ (List.filter_congr fun id isNode => ?_)
    obtain ⟨node, present⟩ := Document.exists_node?_of_mem_all isNode
    have tests : query.Holds (.expr neutral.expr.aboveZero) id ↔
        query.Holds (.expr Expr.current.aboveZero) id ∧ node.element.isLost = false := by
      rw [holds_expr present, holds_expr present, neutral.test_expr, Bool.and_eq_true,
        Bool.not_eq_true']
    simp [tests, present, and_comm]

/-- One value that is lost, and the quarters of both signs. -/
theorem select_neutral_quarters :
    let isTiny : Number.Representable (twoPow 974) := by decide +kernel
    let isQuarter : Number.Representable (twoPow 1072) := by decide +kernel
    let tiny : Element := .scalar none (.number (.finite false _ isTiny))
    let quarter : Bool → Element := fun negative =>
      .scalar none (.number (.finite negative _ isQuarter))
    let product : Expr := Neutral.expr .multiplyByOne
    let query : Query := ⟨.ofTree (.array none [tiny, quarter false, quarter true]), ⟨"", []⟩⟩
    (∃ result : Number, product.eval tiny = .number result ∧ result.isZero = true) ∧
      (∃ result : Number, product.eval (quarter true) = .number result ∧
        result.SameSign (.finite true _ isQuarter)) ∧
        Expr.ofText "x > 0" = .ok Expr.current.aboveZero ∧
          Expr.ofText "x * 1 > 0" = .ok product.aboveZero ∧
            (query.select (exprSelector "x > 0")).outcome = .ok [1, 2] ∧
              (query.select (exprSelector "x * 1 > 0")).outcome = .ok [2] := by
  intro isTiny isQuarter tiny quarter product query
  obtain ⟨signs, selects⟩ := select_neutral .multiplyByOne
  obtain ⟨tinyResult, tinyProduct, zeroed, -⟩ := signs none false _ isTiny
  obtain ⟨result, quarterProduct, -, kept⟩ := signs none true _ isQuarter
  have plain := Expr.ofText_aboveZero
  have rewritten := Neutral.ofText_text .multiplyByOne
  obtain ⟨selected, outcome, remaining⟩ := selects query "x > 0" "x * 1 > 0" plain rewritten
  have areSelected : (query.document.all.filter fun id =>
      query.Holds (.expr Expr.current.aboveZero) id) = [1, 2] := by decide +kernel
  have ran := outcome_select_expr query plain
  rw [areSelected] at ran
  cases ran.symm.trans outcome
  have areLost : ([1, 2].filter fun id =>
      !(query.document.node? id).any fun node => node.element.isLost) = [2] := by decide +kernel
  rw [areLost] at remaining
  exact ⟨⟨tinyResult, tinyProduct, zeroed (by decide +kernel)⟩,
    ⟨result, quarterProduct, kept (by decide +kernel)⟩, plain, rewritten, ran, remaining⟩

/-- The product of `1e-30` with one is zero. -/
theorem select_neutral_lost :
    let value : Number := .ofDecimal false ⟨1, -30⟩
    let node : Element := .scalar none (.number value)
    let query : Query := ⟨.ofTree (.array none [node]), ⟨"", []⟩⟩
    value.isPositive = true ∧
      (∃ product : Number, (Neutral.expr .multiplyByOne).eval node = .number product ∧
        product.isZero = true ∧ product.isPositive = false) ∧
        Expr.ofText "x > 0" = .ok Expr.current.aboveZero ∧
          Expr.ofText "x * 1 > 0" = .ok (Neutral.expr .multiplyByOne).aboveZero ∧
            (query.select (exprSelector "x > 0")).outcome = .ok [1] ∧
              (query.select (exprSelector "x * 1 > 0")).outcome = .ok [] := by
  intro value node query
  have plain := Expr.ofText_aboveZero
  have rewritten := Neutral.ofText_text .multiplyByOne
  have isZero : (Operation.apply .multiply value (.ofNat false 1)).isZero = true := by
    decide +kernel
  have areSelected : (query.document.all.filter fun id =>
      query.Holds (.expr Expr.current.aboveZero) id) = [1] := by decide +kernel
  have noneSelected : (query.document.all.filter fun id =>
      query.Holds (.expr (Neutral.expr .multiplyByOne).aboveZero) id) = [] := by decide +kernel
  have ran := outcome_select_expr query plain
  have ranRewritten := outcome_select_expr query rewritten
  rw [areSelected] at ran
  rw [noneSelected] at ranRewritten
  exact ⟨by decide +kernel, ⟨_, Neutral.eval_expr .multiplyByOne none value, isZero,
    Number.isPositive_of_isZero isZero⟩, plain, rewritten, ran, ranRewritten⟩

end Query

end TreeQuery
