import TreeQuery.Proofs.Selector.Quoting

/-!
Collections in expressions.

An expression sees an array, a map or an object only as a whole. No operator takes a collection
apart, and equality, which asks for what is in one, can only compare the collection under test with
itself. So an expression tells no collection from another, and no null from a missing value.
-/

namespace TreeQuery

namespace Element

/-- Whether an element is an array, a map or an object. -/
def isCollection : Element → Bool
  | .scalar .. => false
  | .array .. | .keyed .. => true

/-- Whether an element is null or missing. -/
def isAbsent (element : Element) : Bool :=
  !element.isPresent

end Element

namespace Value

variable {first second : Element} {left right otherLeft otherRight : Value}

def isScalar : Value → Bool
  | .collection _ => false
  | _ => true

/-- Values of one expression on two elements: a scalar that they share, or the elements
themselves. -/
inductive Counterpart (first second : Element) : Value → Value → Prop where
  | scalar {value : Value} (isScalar : value.isScalar = true) :
      Counterpart first second value value
  | whole : Counterpart first second (.collection first) (.collection second)

/-! ## Operators -/

/-- A collection equals itself, whatever is in it. -/
theorem equal_collection_self (element : Element) :
    (collection element).equal (collection element) = true := by
  simp [equal, Json.same_self]

theorem Counterpart.isTruthy_eq (operand : Counterpart first second left otherLeft) :
    left.isTruthy = otherLeft.isTruthy := by
  cases operand with
  | scalar => rfl
  | whole => rfl

theorem Counterpart.equal_eq (leftOperand : Counterpart first second left otherLeft)
    (rightOperand : Counterpart first second right otherRight) :
    left.equal right = otherLeft.equal otherRight := by
  cases leftOperand with
  | scalar leftScalar =>
      cases rightOperand with
      | scalar => rfl
      | whole =>
          cases left with
          | collection => cases leftScalar
          | _ => rfl
  | whole =>
      cases rightOperand with
      | scalar rightScalar =>
          cases right with
          | collection => cases rightScalar
          | _ => rfl
      | whole => rw [equal_collection_self, equal_collection_self]

/-- A function that takes a collection in either place for any other. -/
def IsBlind (operation : Value → Value → Value) : Prop :=
  ∀ (element other : Element) (value : Value),
    operation (.collection element) value = operation (.collection other) value ∧
      operation value (.collection element) = operation value (.collection other)

theorem isBlind_arithmetic (operation : Operation) : IsBlind (arithmetic operation) :=
  fun _ _ value => ⟨rfl, by cases value <;> rfl⟩

theorem isBlind_comparison (holds : Number → Number → Bool) : IsBlind (comparison holds) :=
  fun _ _ value => ⟨rfl, by cases value <;> rfl⟩

theorem isBlind_stringTest (holds : List Char → List Char → Bool) : IsBlind (stringTest holds) :=
  fun _ _ value => ⟨rfl, by cases value <;> rfl⟩

theorem Counterpart.eq_of_isBlind {operation : Value → Value → Value} (blind : IsBlind operation)
    (leftOperand : Counterpart first second left otherLeft)
    (rightOperand : Counterpart first second right otherRight) :
    operation left right = operation otherLeft otherRight := by
  have sameLeft : operation left right = operation otherLeft right := by
    cases leftOperand with
    | scalar => rfl
    | whole => exact (blind first second right).1
  have sameRight : operation otherLeft right = operation otherLeft otherRight := by
    cases rightOperand with
    | scalar => rfl
    | whole => exact (blind first second otherLeft).2
  exact sameLeft.trans sameRight

/-- An operator has one value on counterparts. -/
theorem Counterpart.apply_eq (operator : BinaryOperator)
    (leftOperand : Counterpart first second left otherLeft)
    (rightOperand : Counterpart first second right otherRight) :
    apply operator left right = apply operator otherLeft otherRight := by
  have arithmetics (operation : Operation) :=
    leftOperand.eq_of_isBlind (isBlind_arithmetic operation) rightOperand
  have comparisons (holds : Number → Number → Bool) :=
    leftOperand.eq_of_isBlind (isBlind_comparison holds) rightOperand
  have stringTests (holds : List Char → List Char → Bool) :=
    leftOperand.eq_of_isBlind (isBlind_stringTest holds) rightOperand
  cases operator <;>
    simp only [apply, arithmetics, comparisons, stringTests, leftOperand.equal_eq rightOperand,
      leftOperand.isTruthy_eq, rightOperand.isTruthy_eq]

/-- No operator has a collection as its value. -/
theorem isScalar_apply (operator : BinaryOperator) (left right : Value) :
    (apply operator left right).isScalar = true := by
  cases operator <;> simp only [apply, arithmetic, comparison, stringTest] <;>
    first
    | rfl
    | split <;> rfl

end Value

namespace Expr

variable {first second : Element} {expr : Expr}

/-! ## Expressions -/

theorem ofElement_of_isCollection {element : Element} (whole : element.isCollection = true) :
    Value.ofElement element = .collection element := by
  cases element with
  | scalar => cases whole
  | array => rfl
  | keyed => rfl

theorem ofElement_of_isAbsent {element : Element} (absent : element.isAbsent = true) :
    Value.ofElement element = .null := by
  cases element with
  | scalar declared value =>
      cases value with
      | missing => rfl
      | null => rfl
      | _ => cases absent
  | array => cases absent
  | keyed => cases absent

/-- On two collections, an expression has one scalar as its value or the collections. -/
theorem eval_counterpart (firstWhole : first.isCollection = true)
    (secondWhole : second.isCollection = true) (expr : Expr) :
    Value.Counterpart first second (expr.eval first) (expr.eval second) := by
  induction expr with
  | current =>
      rw [eval, eval, ofElement_of_isCollection firstWhole, ofElement_of_isCollection secondWhole]
      exact .whole
  | string value => exact .scalar rfl
  | number value => exact .scalar rfl
  | bool value => exact .scalar rfl
  | null => exact .scalar rfl
  | negate operand induction =>
      rw [eval, eval]
      generalize operand.eval first = value at induction
      generalize operand.eval second = other at induction
      cases induction with
      | scalar => cases value <;> exact .scalar rfl
      | whole => exact .scalar rfl
  | binary operator left right leftInduction rightInduction =>
      rw [eval, eval, leftInduction.apply_eq operator rightInduction]
      exact .scalar (Value.isScalar_apply operator _ _)

theorem eval_congr (same : Value.ofElement first = Value.ofElement second) (expr : Expr) :
    expr.eval first = expr.eval second := by
  induction expr with
  | current => exact same
  | string value => rfl
  | number value => rfl
  | bool value => rfl
  | null => rfl
  | negate operand induction => rw [eval, eval, induction]
  | binary operator left right leftInduction rightInduction =>
      rw [eval, eval, leftInduction, rightInduction]

theorem eval_eq_of_isAbsent (firstAbsent : first.isAbsent = true)
    (secondAbsent : second.isAbsent = true) (expr : Expr) : expr.eval first = expr.eval second :=
  eval_congr ((ofElement_of_isAbsent firstAbsent).trans
    (ofElement_of_isAbsent secondAbsent).symm) expr

end Expr

namespace Query

variable {query : Query} {isMember : Element → Bool}

/-- Whether all nodes of a class of elements are among some ids, or none. -/
def AllOrNone (query : Query) (ids : List NodeId) (isMember : Element → Bool) : Prop :=
  (∀ id node, query.document.node? id = some node → isMember node.element = true → id ∈ ids) ∨
    ∀ id node, query.document.node? id = some node → isMember node.element = true → id ∉ ids

theorem allOrNone_of_expr {expr : Expr}
    (uniform : ∀ first second, isMember first = true → isMember second = true →
      expr.test first = expr.test second) :
    query.AllOrNone (query.document.all.filter fun id => query.Holds (.expr expr) id)
      isMember := by
  have isTested (id : NodeId) (node : Node) (present : query.document.node? id = some node) :
      (id ∈ query.document.all.filter fun id => query.Holds (.expr expr) id) ↔
        expr.test node.element = true :=
    (mem_selected_iff present).trans (holds_expr present)
  by_cases passes : ∃ element, isMember element = true ∧ expr.test element = true
  · obtain ⟨element, member, passed⟩ := passes
    refine .inl fun id node present nodeMember => (isTested id node present).mpr ?_
    rw [uniform node.element element nodeMember member, passed]
  · refine .inr fun id node present nodeMember isSelected => passes ?_
    exact ⟨node.element, nodeMember, (isTested id node present).mp isSelected⟩

/-- On two collections, of any kinds and contents, an expression has the same scalar value, or its
values are the two collections themselves. On elements that are null or missing it has one value.
So it selects all collections of a document or none, and all null and missing nodes or none. -/
theorem select_expr_allOrNone (expr : Expr) :
    (∀ first second : Element, first.isCollection = true → second.isCollection = true →
      (∃ value : Value, value.isScalar = true ∧ expr.eval first = value ∧
          expr.eval second = value) ∨
        (expr.eval first = .collection first ∧ expr.eval second = .collection second)) ∧
      (∀ first second : Element, first.isAbsent = true → second.isAbsent = true →
        expr.eval first = expr.eval second) ∧
        ∀ (text : String) (query : Query), Expr.ofText text = .ok expr →
          ∃ selected, (query.select (exprSelector text)).outcome = .ok selected ∧
            query.AllOrNone selected Element.isCollection ∧
              query.AllOrNone selected Element.isAbsent := by
  refine ⟨fun first second firstWhole secondWhole => ?_,
    fun first second firstAbsent secondAbsent =>
      Expr.eval_eq_of_isAbsent firstAbsent secondAbsent expr, fun text query parsed => ?_⟩
  · have values := Expr.eval_counterpart firstWhole secondWhole expr
    generalize expr.eval first = value at values
    generalize expr.eval second = other at values
    cases values with
    | scalar isScalar => exact .inl ⟨value, isScalar, rfl, rfl⟩
    | whole => exact .inr ⟨rfl, rfl⟩
  · refine ⟨_, outcome_select_expr query parsed, allOrNone_of_expr ?_, allOrNone_of_expr ?_⟩
    · intro first second firstWhole secondWhole
      exact (Expr.eval_counterpart firstWhole secondWhole expr).isTruthy_eq
    · intro first second firstAbsent secondAbsent
      rw [Expr.test, Expr.test, Expr.eval_eq_of_isAbsent firstAbsent secondAbsent]

/-- Equality with itself, true of an array of a NaN and of a map with a repeated key, and not of the
NaN. -/
theorem select_expr_allOrNone_nan :
    let nan : Element := .scalar none (.number .nan)
    let array : Element := .array none [nan, .scalar none .null]
    let map : Element := .keyed none .map
      [("a", nan), ("a", array), ("b", .scalar none (.missing .array))]
    let expr : Expr := .binary .equal .current .current
    let query : Query := ⟨.ofTree map, ⟨"", []⟩⟩
    array.isCollection = true ∧ map.isCollection = true ∧ Expr.ofText "x = x" = .ok expr ∧
      ((∃ value : Value, value.isScalar = true ∧ expr.eval array = value ∧
          expr.eval map = value) ∨
        (expr.eval array = .collection array ∧ expr.eval map = .collection map)) ∧
        (query.select (exprSelector "x = x")).outcome = .ok [0, 2, 4, 5] ∧
          query.AllOrNone [0, 2, 4, 5] Element.isCollection ∧
            query.AllOrNone [0, 2, 4, 5] Element.isAbsent := by
  intro nan array map expr query
  have noGap : ∀ c ∈ ([] : List Char), isBlank c = true := by simp
  have parsed : Expr.ofText "x = x" = .ok expr := by
    refine Expr.ofText_of_rendering (show expr.IsWritable from ⟨trivial, trivial⟩)
      (show Expr.Rendering (expr.marks .minimal) _ from ?_)
    have rest := @Expr.Rendering.cons _ _ [' '] _ _ Expr.isBlank_space (.operator .equal) <|
      @Expr.Rendering.cons _ _ [' '] _ _ Expr.isBlank_space .current <| .nil noGap
    exact .cons noGap .current rest
  obtain ⟨wholes, _, selects⟩ := select_expr_allOrNone expr
  obtain ⟨selected, outcome, allWholes, allAbsent⟩ := selects "x = x" query parsed
  have areSelected : (query.document.all.filter fun id => query.Holds (.expr expr) id) =
      [0, 2, 4, 5] := by decide +kernel
  have ran := outcome_select_expr query parsed
  rw [areSelected] at ran
  cases ran.symm.trans outcome
  exact ⟨rfl, rfl, parsed, wholes array map rfl rfl, ran, allWholes, allAbsent⟩

end Query

end TreeQuery
