import TreeQuery.Element
import TreeQuery.Text.Inspection
import TreeQuery.Vocabulary

/-!
Expressions of `:expr(…)`, their printed form in messages, and their values.

Evaluation always has a value: arithmetic on anything but numbers is null, and comparing values of
the wrong types is false. Collections take part only as a whole.
-/

namespace TreeQuery

inductive Expr where
  /-- `x`, the value of the element under test. -/
  | current
  | string (value : String)
  | number (value : Number)
  | bool (value : Bool)
  | null
  | negate (operand : Expr)
  | binary (operator : BinaryOperator) (left right : Expr)
  deriving DecidableEq, Inhabited

namespace Expr

def display : Expr → String
  | .current => "Current"
  | .string value => "String(" ++ Inspection.quote value ++ ")"
  | .number value => "Number(" ++ Layout.inspection.write value ++ ")"
  | .bool true => "Bool(true)"
  | .bool false => "Bool(false)"
  | .null => "Null"
  | .negate operand => "Negate(" ++ operand.display ++ ")"
  | .binary operator left right =>
      "BinaryOp \x7b op: " ++ operator.name ++ ", left: " ++ left.display ++ ", right: " ++
        right.display ++ " \x7d"

end Expr

/-! ## Values -/

def occursIn (needle : List Char) : List Char → Bool
  | [] => needle.isEmpty
  | c :: rest => needle.isPrefixOf (c :: rest) || occursIn needle rest

theorem occursIn_iff {needle text : List Char} :
    occursIn needle text = true ↔ needle <:+: text := by
  induction text with
  | nil => simp [occursIn]
  | cons c rest induction =>
      rw [occursIn, Bool.or_eq_true, List.isPrefixOf_iff_prefix, induction, List.infix_cons_iff]

inductive Value where
  | string (value : String)
  | number (value : Number)
  | bool (value : Bool)
  | null
  /-- An array, a map or an object. -/
  | collection (element : Element)
  deriving Inhabited

namespace Value

def ofElement : Element → Value
  | .scalar _ (.missing _) | .scalar _ .null => .null
  | .scalar _ (.bool value) => .bool value
  | .scalar _ (.number value) => .number value
  | .scalar _ (.string value) => .string value
  | element => .collection element

def kind : Value → Kind
  | .string _ => .string
  | .number _ => .number
  | .bool _ => .bool
  | .null => .null
  | .collection element => element.kind

/-- Whether a value counts as true: nonempty strings, numbers above zero, true, and every
collection. -/
def isTruthy : Value → Bool
  | .string value => !value.isEmpty
  | .number value => value.isPositive
  | .bool value => value
  | .null => false
  | .collection _ => true

/-- Equality within a type. Values of different types differ. -/
def equal : Value → Value → Bool
  | .string left, .string right => left == right
  | .number left, .number right => left.equal right
  | .bool left, .bool right => left == right
  | .null, .null => true
  | .collection left, .collection right =>
      left.kind = right.kind && left.toJson.same right.toJson
  | _, _ => false

/-- Arithmetic on two numbers; null on anything else. -/
def arithmetic (operation : Operation) : Value → Value → Value
  | .number left, .number right => .number (operation.apply left right)
  | _, _ => .null

def comparison (holds : Number → Number → Bool) : Value → Value → Value
  | .number left, .number right => .bool (holds left right)
  | _, _ => .bool false

def stringTest (holds : List Char → List Char → Bool) : Value → Value → Value
  | .string left, .string right => .bool (holds left.toList right.toList)
  | _, _ => .bool false

/-- The value of a binary operator. Both operands have been evaluated. -/
def apply (operator : BinaryOperator) (left right : Value) : Value :=
  match operator with
  | .multiply => arithmetic .multiply left right
  | .divide => arithmetic .divide left right
  | .modulo => arithmetic .remainder left right
  | .add => arithmetic .add left right
  | .subtract => arithmetic .subtract left right
  | .lessThan => comparison Number.less left right
  | .greaterThan => comparison (fun left right => right.less left) left right
  | .lessEqual => comparison Number.lessOrEqual left right
  | .greaterEqual => comparison (fun left right => right.lessOrEqual left) left right
  | .startsWith => stringTest (fun text start => start.isPrefixOf text) left right
  | .endsWith => stringTest (fun text ending => ending.isSuffixOf text) left right
  | .contains => stringTest (fun text part => occursIn part text) left right
  | .equal => .bool (left.equal right)
  | .notEqual => .bool !(left.equal right)
  | .and => .bool (left.isTruthy && right.isTruthy)
  | .or => .bool (left.isTruthy || right.isTruthy)

end Value

namespace Expr

def eval (current : Element) : Expr → Value
  | .current => .ofElement current
  | .string value => .string value
  | .number value => .number value
  | .bool value => .bool value
  | .null => .null
  | .negate operand =>
      match operand.eval current with
      | .number value => .number value.neg
      | _ => .null
  | .binary operator left right => .apply operator (left.eval current) (right.eval current)

def test (expr : Expr) (current : Element) : Bool :=
  (expr.eval current).isTruthy

end Expr

end TreeQuery
