import TreeQuery.Expr.Parser

/-!
The grammar of expressions over tokens.

Phrases come in tiers, from the loosest to the tightest: six tiers of binary operators, a tier of
minus signs and one of operands. A binary phrase is as loose on its left as the phrase itself and
tighter on its right, so operators of one tier associate to the left.
-/

namespace TreeQuery

namespace BinaryOperator

/-- How tightly an operator binds. -/
def tier : BinaryOperator → Nat
  | .or => 0
  | .and => 1
  | .equal | .notEqual => 2
  | .lessEqual | .greaterEqual | .lessThan | .greaterThan | .endsWith | .startsWith
  | .contains => 3
  | .add | .subtract => 4
  | .multiply | .divide | .modulo => 5

theorem symbol_injective {operator other : BinaryOperator}
    (same : operator.symbol = other.symbol) : operator = other := by
  have found := ofSymbol?_symbol operator
  rw [same, ofSymbol?_symbol] at found
  exact (Option.some.inj found).symm

end BinaryOperator

namespace Expr

/-- The tier of minus signs. -/
def signTier : Nat :=
  6

def operandTier : Nat :=
  7

/-- An operand of a single token. -/
inductive Atom : Token → Expr → Prop where
  | current {token : Token} (kind : token.kind = .current) : Atom token .current
  | string {token : Token} (kind : token.kind = .string) : Atom token (.string token.value)
  | number {token : Token} {value : Number} (kind : token.kind = .number)
      (reads : Number.ofText? token.value = some value) : Atom token (.number value)
  | true {token : Token} (kind : token.kind = .keyword) (word : token.value = "true") :
      Atom token (.bool true)
  | false {token : Token} (kind : token.kind = .keyword) (word : token.value = "false") :
      Atom token (.bool false)
  | null {token : Token} (kind : token.kind = .keyword) (notTrue : token.value ≠ "true")
      (notFalse : token.value ≠ "false") : Atom token .null

/-- The expression of a row of tokens in a tier. -/
inductive Phrase : Nat → List Token → Expr → Prop where
  | atom {token : Token} {expr : Expr} (isAtom : Atom token expr) :
      Phrase operandTier [token] expr
  | group {opening closing : Token} {inside : List Token} {expr : Expr}
      (opens : opening.kind = .leftParen) (inner : Phrase 0 inside expr)
      (closes : closing.kind = .rightParen) :
      Phrase operandTier (opening :: (inside ++ [closing])) expr
  /-- A minus sign goes into a number. -/
  | minusNumber {sign : Token} {tokens : List Token} {value : Number}
      (isOperator : sign.kind = .binaryOperator) (isMinus : sign.value = "-")
      (operand : Phrase signTier tokens (.number value)) :
      Phrase signTier (sign :: tokens) (.number value.neg)
  | minus {sign : Token} {tokens : List Token} {expr : Expr}
      (isOperator : sign.kind = .binaryOperator) (isMinus : sign.value = "-")
      (operand : Phrase signTier tokens expr) (notNumber : ∀ value, expr ≠ .number value) :
      Phrase signTier (sign :: tokens) (.negate expr)
  | binary {sign : Token} {operator : BinaryOperator} {front back : List Token}
      {left right : Expr} (isOperator : sign.kind = .binaryOperator)
      (isSymbol : sign.value = operator.symbol) (leftPhrase : Phrase operator.tier front left)
      (rightPhrase : Phrase (operator.tier + 1) back right) :
      Phrase operator.tier (front ++ sign :: back) (.binary operator left right)
  /-- A phrase of a tier stands in the next looser one too. -/
  | tighter {tier : Nat} {tokens : List Token} {expr : Expr} (looser : tier < operandTier)
      (phrase : Phrase (tier + 1) tokens expr) : Phrase tier tokens expr

/-- A phrase stands in every looser tier. -/
theorem Phrase.looser {tier count : Nat} {tokens : List Token} {expr : Expr}
    (phrase : Phrase (tier + count) tokens expr) (isTier : tier + count ≤ operandTier) :
    Phrase tier tokens expr := by
  induction count with
  | zero => exact phrase
  | succ count induction => exact induction (.tighter isTier phrase) (Nat.le_of_succ_le isTier)

theorem ofToken_ok_iff {token : Token} {expr : Expr} :
    ofToken token = .ok expr ↔ Atom token expr := by
  constructor
  · intro read
    unfold ofToken at read
    split at read
    · rename_i kind
      cases read
      exact .current kind
    · rename_i kind
      cases read
      exact .string kind
    · rename_i kind
      split at read
      · rename_i reads
        cases read
        exact .number kind reads
      · cases read
    · rename_i kind
      split at read
      · rename_i word
        cases read
        exact .true kind word
      · rename_i word
        cases read
        exact .false kind word
      · rename_i notTrue notFalse
        cases read
        exact .null kind notTrue notFalse
    · cases read
  · intro isAtom
    unfold ofToken
    cases isAtom with
    | current kind => rw [kind]
    | string kind => rw [kind]
    | number kind reads => rw [kind]; dsimp only; rw [reads]
    | true kind word => rw [kind, word]; rfl
    | false kind word => rw [kind, word]; rfl
    | null kind notTrue notFalse =>
        rw [kind]
        dsimp only
        split
        · contradiction
        · contradiction
        · rfl

theorem isMinus_iff {token : Token} :
    isMinus token = true ↔ token.kind = .binaryOperator ∧ token.value = "-" := by
  simp [isMinus]

/-- The table of the parser has each operator in the group of its tier. -/
theorem mem_group_iff {tier : Nat} {group : List BinaryOperator}
    (found : precedence[tier]? = some group) (operator : BinaryOperator) :
    operator ∈ group ↔ operator.tier = tier := by
  have inside : tier < 6 := (List.getElem?_eq_some_iff.mp found).1
  have tiers : tier = 0 ∨ tier = 1 ∨ tier = 2 ∨ tier = 3 ∨ tier = 4 ∨ tier = 5 := by omega
  rcases tiers with rfl | rfl | rfl | rfl | rfl | rfl <;>
    cases found <;> cases operator <;> decide

theorem operatorIn?_iff {tier : Nat} {group : List BinaryOperator} {token : Token}
    {operator : BinaryOperator} (found : precedence[tier]? = some group) :
    operatorIn? group token = some operator ↔
      token.kind = .binaryOperator ∧ token.value = operator.symbol ∧ operator.tier = tier := by
  unfold operatorIn?
  by_cases isOperator : token.kind = .binaryOperator
  · rw [if_pos isOperator, Option.filter_eq_some_iff, List.contains_iff_mem, mem_group_iff found,
      and_iff_right isOperator]
    refine and_congr_left' ?_
    constructor
    · intro isSymbol
      exact (BinaryOperator.symbol_of_ofSymbol? isSymbol).symm
    · intro isSymbol
      rw [isSymbol]
      exact BinaryOperator.ofSymbol?_symbol operator
  · rw [if_neg isOperator]
    simp [isOperator]

end Expr

end TreeQuery
