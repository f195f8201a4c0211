import TreeQuery.Expr.Basic
import TreeQuery.Number.Reading
import TreeQuery.Token.Lexer

/-!
Parsing expressions.

The binary operators form six groups, from `||`, which binds loosest, to `*`, `/` and `%`, which
bind tightest; all associate to the left. A minus sign before an operand binds tighter still, and
turns a number into the negated number. An expression ends before the first token that cannot
continue it.

A parser consumes a token before it judges it as an operand, so what is left after an error starts
behind a token that is no operand, and at a token that should have been a closing parenthesis.
-/

namespace TreeQuery

inductive ExprError where
  | lex (error : LexError)
  | unexpectedToken (found : Token)
  | unexpectedEnd
  /-- The text of a number token is no number. -/
  | invalidNumber (text : String)
  deriving DecidableEq, Repr

namespace ExprError

def message : ExprError → String
  | .lex error => error.message
  | .unexpectedToken found =>
      "unexpected token " ++ found.display ++ " at position " ++ toString found.position ++
        " in expression"
  | .unexpectedEnd => "unexpected end of expression"
  | .invalidNumber text => "invalid number '" ++ text ++ "' in expression"

end ExprError

namespace Expr

/-- The operator groups, from the loosest to the tightest. -/
def precedence : List (List BinaryOperator) :=
  [[.or],
    [.and],
    [.equal, .notEqual],
    [.lessEqual, .greaterEqual, .lessThan, .greaterThan, .endsWith, .startsWith, .contains],
    [.add, .subtract],
    [.multiply, .divide, .modulo]]

/-- What a parser makes of the first tokens, and the tokens that it leaves. -/
structure Parsed (tokens : List Token) where
  result : Except ExprError Expr
  rest : List Token
  shrinks : rest.length ≤ tokens.length

/-- The operator of a group that a token stands for. -/
def operatorIn? (group : List BinaryOperator) (token : Token) : Option BinaryOperator :=
  if token.kind = .binaryOperator then
    (BinaryOperator.ofSymbol? token.value).filter group.contains
  else
    none

def isMinus (token : Token) : Bool :=
  token.kind = .binaryOperator && token.value == "-"

def ofToken (token : Token) : Except ExprError Expr :=
  match token.kind with
  | .current => .ok .current
  | .string => .ok (.string token.value)
  | .number =>
      match Number.ofText? token.value with
      | some value => .ok (.number value)
      | none => .error (.invalidNumber token.value)
  | .keyword =>
      .ok (match token.value with
        | "true" => .bool true
        | "false" => .bool false
        | _ => .null)
  | _ => .error (.unexpectedToken token)

def negated : Expr → Expr
  | .number value => .number value.neg
  | operand => .negate operand

/-- Ends a group: the next token has to be the closing parenthesis. -/
def closeGroup (inner : Expr) : List Token → Except ExprError Expr × List Token
  | [] => (.error .unexpectedEnd, [])
  | token :: rest =>
      if token.kind = .rightParen then (.ok inner, rest)
      else (.error (.unexpectedToken token), token :: rest)

theorem closeGroup_length_le (inner : Expr) (tokens : List Token) :
    (closeGroup inner tokens).2.length ≤ tokens.length := by
  unfold closeGroup
  split
  · exact Nat.le_refl _
  · split <;> simp

mutual

/-- Parses an operand: a single token or a group in parentheses. -/
def parseOperand (tokens : List Token) : Parsed tokens :=
  match tokens with
  | [] => ⟨.error .unexpectedEnd, [], Nat.le_refl _⟩
  | token :: rest =>
      if token.kind = .leftParen then
        let ⟨result, afterInner, innerShrinks⟩ := parseGroups precedence rest
        match result with
        | .error error => ⟨.error error, afterInner, Nat.le_succ_of_le innerShrinks⟩
        | .ok inner =>
            ⟨(closeGroup inner afterInner).1, (closeGroup inner afterInner).2,
              Nat.le_succ_of_le (Nat.le_trans (closeGroup_length_le inner afterInner) innerShrinks)⟩
      else
        ⟨ofToken token, rest, Nat.le_succ _⟩
  termination_by (tokens.length, 0)

/-- Parses an operand with any minus signs before it. -/
def parseSigned (tokens : List Token) : Parsed tokens :=
  match tokens with
  | [] => parseOperand []
  | token :: rest =>
      if isMinus token then
        let ⟨result, after, shrinks⟩ := parseSigned rest
        ⟨result.map negated, after, Nat.le_succ_of_le shrinks⟩
      else
        parseOperand (token :: rest)
  termination_by (tokens.length, 1)

/-- Parses operands joined by operators of the groups, the first group binding loosest. -/
def parseGroups (groups : List (List BinaryOperator)) (tokens : List Token) : Parsed tokens :=
  match groups with
  | [] => parseSigned tokens
  | group :: tighter =>
      let ⟨result, rest, shrinks⟩ := parseGroups tighter tokens
      match result with
      | .error error => ⟨.error error, rest, shrinks⟩
      | .ok left =>
          let ⟨result, after, continues⟩ := parseOperators group tighter left rest
          ⟨result, after, Nat.le_trans continues shrinks⟩
  termination_by (tokens.length, 2 * groups.length + 2)
  decreasing_by
    all_goals
      simp_wf
      simp only [Prod.lex_def, true_and]
      omega

/-- Parses further operators of a group and their right operands after a left operand. -/
def parseOperators (group : List BinaryOperator) (tighter : List (List BinaryOperator))
    (left : Expr) (tokens : List Token) : Parsed tokens :=
  match tokens with
  | [] => ⟨.ok left, [], Nat.le_refl _⟩
  | token :: rest =>
      match operatorIn? group token with
      | none => ⟨.ok left, token :: rest, Nat.le_refl _⟩
      | some operator =>
          let ⟨result, afterRight, shrinks⟩ := parseGroups tighter rest
          match result with
          | .error error => ⟨.error error, afterRight, Nat.le_succ_of_le shrinks⟩
          | .ok right =>
              let ⟨result, after, continues⟩ :=
                parseOperators group tighter (.binary operator left right) afterRight
              ⟨result, after, Nat.le_succ_of_le (Nat.le_trans continues shrinks)⟩
  termination_by (tokens.length, 2 * tighter.length + 3)

end

/-- Parses one expression from the first tokens, and answers with the tokens that are left too. -/
def parseFirst (tokens : List Token) : Except ExprError Expr × List Token :=
  let parsed := parseGroups precedence tokens
  (parsed.result, parsed.rest)

/-- Parses one expression that has to take all tokens. -/
def parseAll (tokens : List Token) : Except ExprError Expr × List Token :=
  match parseFirst tokens with
  | (.ok _, token :: rest) => (.error (.unexpectedToken token), token :: rest)
  | parsed => parsed

def parse (tokens : List Token) : Except ExprError Expr :=
  (parseAll tokens).1

def ofText (text : String) : Except ExprError Expr :=
  match tokenize .expression text with
  | .ok tokens => parse tokens
  | .error error => .error (.lex error)

end Expr

end TreeQuery
