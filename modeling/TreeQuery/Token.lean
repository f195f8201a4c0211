import TreeQuery.Text.Inspection

/-!
Tokens of the two grammars: selectors, and the expressions inside `:expr(…)`.
-/

namespace TreeQuery

inductive Grammar where
  /-- Selectors, and the arguments of `:has(…)`. -/
  | selector
  /-- The argument of `:expr(…)`. -/
  | expression
  deriving DecidableEq, Repr

/-- The kinds of tokens: nine of selectors, seven of expressions. -/
inductive TokenKind where
  | nativeKind
  | declaredType
  | identifier
  | literal
  | pseudoClass
  | nthFunction
  | pseudoClassFunction
  | operator
  /-- An argument in parentheses, kept as text. -/
  | arguments
  | string
  | number
  | keyword
  /-- The `x` that stands for the element under test. -/
  | current
  | binaryOperator
  | leftParen
  | rightParen
  deriving DecidableEq, Repr

namespace TokenKind

def name : TokenKind → String
  | .nativeKind => "NativeKind"
  | .declaredType => "DeclaredType"
  | .identifier => "Identifier"
  | .literal => "Literal"
  | .pseudoClass => "PseudoClass"
  | .nthFunction => "NthFunction"
  | .pseudoClassFunction => "PseudoClassFunction"
  | .operator => "Operator"
  | .arguments => "Arguments"
  | .string => "String"
  | .number => "Number"
  | .keyword => "Keyword"
  | .current => "Current"
  | .binaryOperator => "BinaryOperator"
  | .leftParen => "LParen"
  | .rightParen => "RParen"

def all : List TokenKind :=
  [.nativeKind, .declaredType, .identifier, .literal, .pseudoClass, .nthFunction,
    .pseudoClassFunction, .operator, .arguments, .string, .number, .keyword, .current,
    .binaryOperator, .leftParen, .rightParen]

def ofName? (name : String) : Option TokenKind :=
  all.find? fun kind => kind.name == name

end TokenKind

/-- A token with its decoded value and the byte position where its text starts. -/
structure Token where
  kind : TokenKind
  value : String
  position : Nat
  deriving DecidableEq, Repr

namespace Token

def display (token : Token) : String :=
  token.kind.name ++ "(" ++ Inspection.quote token.value ++ ")"

def isOperator (token : Token) (text : String) : Bool :=
  token.kind = .operator && token.value == text

/-- The length of the text that a token can give to another lexer run, and one for a token that
gives none. -/
def weight (token : Token) : Nat :=
  if token.kind = .arguments then token.value.toList.length else 1

end Token

def tokensWeight : List Token → Nat
  | [] => 0
  | token :: rest => token.weight + tokensWeight rest

@[simp] theorem tokensWeight_nil : tokensWeight [] = 0 := rfl

@[simp] theorem tokensWeight_cons (token : Token) (rest : List Token) :
    tokensWeight (token :: rest) = token.weight + tokensWeight rest := rfl

end TreeQuery
