import TreeQuery.Number.Decimal96

/-!
The signs and words of selectors and expressions: combinators, structural pseudo-classes and
binary operators.
-/

namespace TreeQuery

inductive Combinator where
  | union
  | child
  | sibling
  | descendant
  deriving DecidableEq, Repr

namespace Combinator

def sign : Combinator → String
  | .union => ","
  | .child => ">"
  | .sibling => "~"
  | .descendant => " "

def ofSign? : String → Option Combinator
  | "," => some .union
  | ">" => some .child
  | "~" => some .sibling
  | " " => some .descendant
  | _ => none

def name : Combinator → String
  | .union => "Union"
  | .child => "Child"
  | .sibling => "Sibling"
  | .descendant => "Descendant"

def display (combinator : Combinator) : String :=
  "'" ++ combinator.sign ++ "'"

theorem sign_of_ofSign? {text : String} {combinator : Combinator}
    (found : ofSign? text = some combinator) : combinator.sign = text := by
  unfold ofSign? at found
  split at found <;> cases found <;> rfl

end Combinator

inductive PseudoClass where
  | firstChild
  | lastChild
  | onlyChild
  | root
  | empty
  deriving DecidableEq, Repr

namespace PseudoClass

/-- The word of a pseudo-class in selectors, without the colon. -/
def word : PseudoClass → String
  | .firstChild => "first-child"
  | .lastChild => "last-child"
  | .onlyChild => "only-child"
  | .root => "root"
  | .empty => "empty"

def ofWord? : String → Option PseudoClass
  | "first-child" => some .firstChild
  | "last-child" => some .lastChild
  | "only-child" => some .onlyChild
  | "root" => some .root
  | "empty" => some .empty
  | _ => none

def name : PseudoClass → String
  | .firstChild => "FirstChild"
  | .lastChild => "LastChild"
  | .onlyChild => "OnlyChild"
  | .root => "Root"
  | .empty => "Empty"

theorem ofWord?_word (pseudoClass : PseudoClass) :
    ofWord? pseudoClass.word = some pseudoClass := by
  cases pseudoClass <;> rfl

theorem word_of_ofWord? {text : String} {pseudoClass : PseudoClass}
    (found : ofWord? text = some pseudoClass) : pseudoClass.word = text := by
  unfold ofWord? at found
  split at found <;> cases found <;> rfl

end PseudoClass

inductive BinaryOperator where
  | multiply
  | divide
  | modulo
  | add
  | subtract
  | lessEqual
  | greaterEqual
  | lessThan
  | greaterThan
  | endsWith
  | startsWith
  | contains
  | equal
  | notEqual
  | and
  | or
  deriving DecidableEq, Repr

namespace BinaryOperator

def symbol : BinaryOperator → String
  | .multiply => "*"
  | .divide => "/"
  | .modulo => "%"
  | .add => "+"
  | .subtract => "-"
  | .lessEqual => "<="
  | .greaterEqual => ">="
  | .lessThan => "<"
  | .greaterThan => ">"
  | .endsWith => "$="
  | .startsWith => "^="
  | .contains => "*="
  | .equal => "="
  | .notEqual => "!="
  | .and => "&&"
  | .or => "||"

def ofSymbol? : String → Option BinaryOperator
  | "*" => some .multiply
  | "/" => some .divide
  | "%" => some .modulo
  | "+" => some .add
  | "-" => some .subtract
  | "<=" => some .lessEqual
  | ">=" => some .greaterEqual
  | "<" => some .lessThan
  | ">" => some .greaterThan
  | "$=" => some .endsWith
  | "^=" => some .startsWith
  | "*=" => some .contains
  | "=" => some .equal
  | "!=" => some .notEqual
  | "&&" => some .and
  | "||" => some .or
  | _ => none

def name : BinaryOperator → String
  | .multiply => "Multiply"
  | .divide => "Divide"
  | .modulo => "Modulo"
  | .add => "Add"
  | .subtract => "Subtract"
  | .lessEqual => "LessEqual"
  | .greaterEqual => "GreaterEqual"
  | .lessThan => "LessThan"
  | .greaterThan => "GreaterThan"
  | .endsWith => "EndsWith"
  | .startsWith => "StartsWith"
  | .contains => "Contains"
  | .equal => "Equal"
  | .notEqual => "NotEqual"
  | .and => "And"
  | .or => "Or"

/-- All operators, those of two characters first. -/
def all : List BinaryOperator :=
  [.contains, .endsWith, .startsWith, .lessEqual, .greaterEqual, .notEqual, .and, .or,
    .multiply, .divide, .modulo, .add, .subtract, .lessThan, .greaterThan, .equal]

theorem ofSymbol?_symbol (operator : BinaryOperator) :
    ofSymbol? operator.symbol = some operator := by
  cases operator <;> rfl

theorem symbol_of_ofSymbol? {text : String} {operator : BinaryOperator}
    (found : ofSymbol? text = some operator) : operator.symbol = text := by
  unfold ofSymbol? at found
  split at found <;> cases found <;> rfl

end BinaryOperator

end TreeQuery
