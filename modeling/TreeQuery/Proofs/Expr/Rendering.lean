import TreeQuery.Proofs.Expr.Spelling
import TreeQuery.Proofs.Number.Reading

/-!
Writing expressions.

An expression is written as a row of marks. Parentheses have to stand around an operand that is
looser than its place allows, and they can stand around any other one. However the marks are
spelled and spaced, the text is read as the expression.
-/

namespace TreeQuery

open TokenRule

namespace Number

/-- Whether a value has a minus sign. A zero can have one. -/
def isSigned : Number → Bool
  | .nan => false
  | .infinite negative => negative
  | .finite negative _ _ => negative

theorem isSigned_round (negative : Bool) (numerator denominator : Nat) :
    (round negative numerator denominator).isSigned = negative := by
  unfold round ofUnits
  split <;> rfl

theorem isSigned_ofDecimal (negative : Bool) (decimal : Decimal) :
    (ofDecimal negative decimal).isSigned = negative := by
  unfold ofDecimal
  split
  · rfl
  · split
    · rfl
    · split
      · rfl
      · split <;> exact isSigned_round _ _ _

end Number

namespace Expr

/-! ## Places and parentheses -/

/-- Where an expression stands. -/
inductive Slot where
  | whole
  | negated
  | leftOf (operator : BinaryOperator)
  | rightOf (operator : BinaryOperator)
  deriving DecidableEq, Repr

/-- The loosest tier that stands in a place without parentheses. Operators associate to the left, so
a right operand has to be tighter. -/
def Slot.tier : Slot → Nat
  | .whole => 0
  | .negated => signTier
  | .leftOf operator => operator.tier
  | .rightOf operator => operator.tier + 1

theorem Slot.tier_le (slot : Slot) : slot.tier ≤ operandTier := by
  cases slot with
  | whole => decide
  | negated => decide
  | leftOf operator => cases operator <;> decide
  | rightOf operator => cases operator <;> decide

/-- The tier of an expression without parentheses around it. A number with a minus sign is as loose
as the sign. -/
def tier : Expr → Nat
  | .binary operator _ _ => operator.tier
  | .negate _ => signTier
  | .number value => if value.isSigned then signTier else operandTier
  | _ => operandTier

theorem tier_le (expr : Expr) : expr.tier ≤ operandTier := by
  unfold tier
  split
  · rename_i operator _ _
    cases operator <;> decide
  · decide
  · split <;> decide
  · decide

/-- The operands that have parentheses around them, with all those among them that need some. -/
structure Parentheses where
  around : Slot → Expr → Bool
  enough : ∀ slot operand, operand.tier < slot.tier → around slot operand = true

/-- Parentheses only where precedence and associativity ask for them. -/
def Parentheses.minimal : Parentheses where
  around slot operand := operand.tier < slot.tier
  enough := fun _ _ looser => decide_eq_true looser

/-- Parentheses around everything but single tokens. -/
def Parentheses.full : Parentheses where
  around _ operand := operand.tier < operandTier
  enough := fun slot _ looser => decide_eq_true (Nat.lt_of_lt_of_le looser slot.tier_le)

/-! ## Marks -/

/-- What an expression is written with. The operands of marks are single tokens. -/
inductive Mark where
  | opening
  | closing
  | operator (operator : BinaryOperator)
  | operand (expr : Expr)

/-- The marks of an operand in its place. -/
def Parentheses.enclose (parentheses : Parentheses) (slot : Slot) (operand : Expr)
    (marks : List Mark) : List Mark :=
  if parentheses.around slot operand then .opening :: (marks ++ [.closing]) else marks

/-- The marks of an expression without parentheses around it. -/
def bareMarks (parentheses : Parentheses) : Expr → List Mark
  | .binary operator left right =>
      parentheses.enclose (.leftOf operator) left (left.bareMarks parentheses) ++
        .operator operator ::
          parentheses.enclose (.rightOf operator) right (right.bareMarks parentheses)
  | .negate operand =>
      .operator .subtract :: parentheses.enclose .negated operand (operand.bareMarks parentheses)
  | .number value =>
      if value.isSigned then [.operator .subtract, .operand (.number value.neg)]
      else [.operand (.number value)]
  | other => [.operand other]

def marks (parentheses : Parentheses) (expr : Expr) : List Mark :=
  parentheses.enclose .whole expr (expr.bareMarks parentheses)

/-- Operators of one tier need parentheses on their right only. -/
example : marks .minimal (.binary .subtract (.binary .subtract .current .null) .current) =
      [.operand .current, .operator .subtract, .operand .null, .operator .subtract,
        .operand .current] ∧
    marks .full (.binary .subtract (.binary .subtract .current .null) .current) =
      [.opening, .opening, .operand .current, .operator .subtract, .operand .null, .closing,
        .operator .subtract, .operand .current, .closing] :=
  ⟨rfl, rfl⟩

/-- The texts that a mark can be written as. -/
inductive Mark.Written : Mark → List Char → Prop where
  | opening : Written .opening ['(']
  | closing : Written .closing [')']
  | operator (operator : BinaryOperator) : Written (.operator operator) operator.symbol.toList
  | current : Written (.operand .current) ['x']
  | string {value : String} {text : List Char}
      (decodes : JsonString.decode? text = some value.toList) :
      Written (.operand (.string value)) text
  | number {value : Number} {text : List Char} (isNumber : unsignedNumber.Matches text)
      (reads : Number.ofChars? text = some value) : Written (.operand (.number value)) text
  | true : Written (.operand (.bool true)) "true".toList
  | false : Written (.operand (.bool false)) "false".toList
  | null : Written (.operand .null) "null".toList

/-- The texts of a row of marks, with any white space before the marks and behind them. -/
inductive Rendering : List Mark → List Char → Prop where
  | nil {tail : List Char} (blank : ∀ c ∈ tail, isBlank c = true) : Rendering [] tail
  | cons {mark : Mark} {marks : List Mark} {gap span rest : List Char}
      (blank : ∀ c ∈ gap, isBlank c = true) (written : mark.Written span)
      (others : Rendering marks rest) : Rendering (mark :: marks) (gap ++ span ++ rest)

theorem isBlank_space : ∀ c ∈ [' '], isBlank c = true :=
  List.forall_mem_singleton.mpr rfl

/-- The numbers of an expression are, up to their sign, read from number texts, and no number stands
behind a minus sign of its own. -/
def IsWritable : Expr → Prop
  | .number value => ∃ text, unsignedNumber.Matches text ∧
      (Number.ofChars? text = some value ∨ Number.ofChars? text = some value.neg)
  | .negate operand => (∀ value, operand ≠ .number value) ∧ operand.IsWritable
  | .binary _ left right => left.IsWritable ∧ right.IsWritable
  | _ => True

/-! ## The tokens of marks -/

/-- The tokens that a mark can have. -/
inductive Mark.Stands : Mark → Token → Prop where
  | opening {token : Token} (kind : token.kind = .leftParen) : Stands .opening token
  | closing {token : Token} (kind : token.kind = .rightParen) : Stands .closing token
  | operator {token : Token} {operator : BinaryOperator} (kind : token.kind = .binaryOperator)
      (isSymbol : token.value = operator.symbol) : Stands (.operator operator) token
  | operand {token : Token} {expr : Expr} (isAtom : Atom token expr) :
      Stands (.operand expr) token

theorem Mark.Written.exists_token {mark : Mark} {span : List Char} (written : mark.Written span) :
    ∃ token : Token, Spelling span token.kind token.value ∧ mark.Stands token := by
  cases written with
  | opening => exact ⟨⟨_, _, 0⟩, .opening, .opening rfl⟩
  | closing => exact ⟨⟨_, _, 0⟩, .closing, .closing rfl⟩
  | operator operator => exact ⟨⟨_, _, 0⟩, .operator operator, .operator rfl rfl⟩
  | current => exact ⟨⟨_, _, 0⟩, .current, .operand (.current rfl)⟩
  | @string value _ decodes =>
      have isAtom : Atom ⟨.string, String.ofList value.toList, 0⟩ (.string value) := by
        rw [String.ofList_toList]
        exact .string rfl
      exact ⟨_, .string decodes, .operand isAtom⟩
  | @number value _ isNumber reads =>
      have readsValue : Number.ofText? (String.ofList span) = some value := by
        rw [Number.ofText?, String.toList_ofList]
        exact reads
      exact ⟨⟨_, _, 0⟩, .number isNumber, .operand (.number rfl readsValue)⟩
  | true => exact ⟨⟨_, _, 0⟩, .keyword (by decide), .operand (.true rfl rfl)⟩
  | false => exact ⟨⟨_, _, 0⟩, .keyword (by decide), .operand (.false rfl rfl)⟩
  | null => exact ⟨⟨_, _, 0⟩, .keyword (by decide), .operand (.null rfl (by decide) (by decide))⟩

theorem Rendering.exists_pieces {marks : List Mark} {text : List Char}
    (rendering : Rendering marks text) :
    ∃ pieces tail, text = Piece.join pieces ++ tail ∧
      (∀ piece ∈ pieces, Spelling piece.span piece.token.kind piece.token.value) ∧
        (∀ piece ∈ pieces, ∀ c ∈ piece.gap, isBlank c = true) ∧
          (∀ c ∈ tail, isBlank c = true) ∧
            List.Forall₂ Mark.Stands marks (pieces.map Piece.token) := by
  induction rendering with
  | @nil tail blank => exact ⟨[], tail, rfl, by simp, by simp, blank, .nil⟩
  | @cons mark marks gap span rest blank written _ induction =>
      obtain ⟨pieces, tail, rfl, spelled, gapsBlank, tailBlank, stand⟩ := induction
      obtain ⟨token, spelling, stands⟩ := written.exists_token
      exact ⟨⟨gap, span, token⟩ :: pieces, tail, (List.append_assoc _ _ _).symm,
        List.forall_mem_cons.mpr ⟨spelling, spelled⟩,
        List.forall_mem_cons.mpr ⟨blank, gapsBlank⟩, tailBlank, .cons stands stand⟩

theorem exists_of_forall₂_append {Item Other : Type} {related : Item → Other → Prop}
    {front back : List Item} {others : List Other}
    (relate : List.Forall₂ related (front ++ back) others) :
    ∃ first second, others = first ++ second ∧ List.Forall₂ related front first ∧
      List.Forall₂ related back second := by
  induction front generalizing others with
  | nil => exact ⟨[], others, rfl, .nil, relate⟩
  | cons item front induction =>
      cases relate with
      | cons isFirst areOthers =>
          obtain ⟨first, second, rfl, areFront, areBack⟩ := induction areOthers
          exact ⟨_ :: first, second, rfl, .cons isFirst areFront, areBack⟩

/-! ## Marks as phrases -/

variable {parentheses : Parentheses} {tokens : List Token} {expr : Expr}

theorem Phrase.looser_of_le {tier above : Nat} (phrase : Phrase above tokens expr)
    (isLooser : tier ≤ above) (isTier : above ≤ operandTier) : Phrase tier tokens expr := by
  obtain ⟨count, rfl⟩ := Nat.exists_eq_add_of_le isLooser
  exact phrase.looser isTier

/-- In its place an operand is a phrase of the tier that the place asks for. -/
theorem phrase_of_enclose {slot : Slot} {marks : List Mark}
    (bare : ∀ tokens, List.Forall₂ Mark.Stands marks tokens → Phrase expr.tier tokens expr)
    (stand : List.Forall₂ Mark.Stands (parentheses.enclose slot expr marks) tokens) :
    Phrase slot.tier tokens expr := by
  unfold Parentheses.enclose at stand
  split at stand
  · cases stand with
    | cons isOpening others =>
        obtain ⟨inside, back, rfl, areInside, areBack⟩ := exists_of_forall₂_append others
        cases areBack with
        | cons isClosing ended =>
            cases ended
            cases isOpening with
            | opening opens =>
                cases isClosing with
                | closing closes =>
                    have inner := (bare inside areInside).looser_of_le (Nat.zero_le _) expr.tier_le
                    exact (Phrase.group opens inner closes).looser_of_le slot.tier_le
                      (Nat.le_refl _)
  · rename_i notEnclosed
    have tightEnough : slot.tier ≤ expr.tier :=
      Nat.le_of_not_lt fun looser => notEnclosed (parentheses.enough slot expr looser)
    exact (bare tokens stand).looser_of_le tightEnough expr.tier_le

theorem phrase_of_operand (stand : List.Forall₂ Mark.Stands [.operand expr] tokens) :
    Phrase operandTier tokens expr := by
  cases stand with
  | cons isOperand ended =>
      cases ended
      cases isOperand with
      | operand isAtom => exact .atom isAtom

theorem phrase_of_bareMarks (writable : expr.IsWritable)
    (stand : List.Forall₂ Mark.Stands (expr.bareMarks parentheses) tokens) :
    Phrase expr.tier tokens expr := by
  induction expr generalizing tokens with
  | binary operator left right onLeft onRight =>
      obtain ⟨front, others, rfl, areFront, areOthers⟩ := exists_of_forall₂_append stand
      cases areOthers with
      | cons isOperator areBack =>
          cases isOperator with
          | operator kind isSymbol =>
              exact .binary kind isSymbol (phrase_of_enclose (fun _ => onLeft writable.1) areFront)
                (phrase_of_enclose (fun _ => onRight writable.2) areBack)
  | negate operand induction =>
      cases stand with
      | cons isMinus areOthers =>
          cases isMinus with
          | operator kind isSymbol =>
              exact .minus kind isSymbol
                (phrase_of_enclose (fun _ => induction writable.2) areOthers) writable.1
  | number value =>
      rw [bareMarks] at stand
      rw [tier]
      split at stand
      · rename_i isSigned
        rw [if_pos isSigned]
        cases stand with
        | cons isMinus areOthers =>
            cases isMinus with
            | operator kind isSymbol =>
                have unsigned : Phrase signTier _ (.number value.neg) :=
                  .tighter (by decide) (phrase_of_operand areOthers)
                have signed := Phrase.minusNumber kind isSymbol unsigned
                rwa [Number.neg_neg] at signed
      · rename_i notSigned
        rw [if_neg notSigned]
        exact phrase_of_operand stand
  | _ => exact phrase_of_operand stand

/-- The marks of an expression are a phrase of it, wherever parentheses are added. -/
theorem phrase_of_marks (writable : expr.IsWritable)
    (stand : List.Forall₂ Mark.Stands (expr.marks parentheses) tokens) : Phrase 0 tokens expr :=
  phrase_of_enclose (fun _ => phrase_of_bareMarks writable) stand

/-! ## Writing -/

/-- Marks that can all be written. -/
def AllWritten (marks : List Mark) : Prop :=
  ∀ mark ∈ marks, ∃ span, mark.Written span

theorem AllWritten.enclose {slot : Slot} {marks : List Mark} (written : AllWritten marks) :
    AllWritten (parentheses.enclose slot expr marks) := by
  unfold Parentheses.enclose
  split
  · refine List.forall_mem_cons.mpr ⟨⟨_, .opening⟩, List.forall_mem_append.mpr ⟨written, ?_⟩⟩
    exact List.forall_mem_singleton.mpr ⟨_, .closing⟩
  · exact written

/-- The sign of a number and the number without it are written apart. -/
theorem allWritten_number {value : Number} (writable : IsWritable (.number value)) :
    AllWritten (bareMarks parentheses (.number value)) := by
  obtain ⟨text, isNumber, reads⟩ := writable
  obtain ⟨decimal, isUnsigned, _⟩ := Number.exists_decimal_of_matches isNumber
  have isUnsignedToo : Number.isSigned (.ofDecimal false decimal) = false :=
    Number.isSigned_ofDecimal false decimal
  have isSignedToo : Number.isSigned (.ofDecimal true decimal) = true :=
    Number.isSigned_ofDecimal true decimal
  rw [isUnsigned, Option.some.injEq, Option.some.injEq] at reads
  rcases reads with rfl | isNegated
  · rw [bareMarks, if_neg (by simp [isUnsignedToo])]
    exact List.forall_mem_singleton.mpr ⟨text, .number isNumber isUnsigned⟩
  · have isValue : value = .ofDecimal true decimal := by
      rw [← Number.neg_neg value, ← isNegated]
      exact Number.neg_ofDecimal decimal
    rw [isNegated] at isUnsigned
    rw [bareMarks, if_pos (isValue ▸ isSignedToo)]
    exact List.forall_mem_cons.mpr ⟨⟨_, .operator .subtract⟩,
      List.forall_mem_singleton.mpr ⟨text, .number isNumber isUnsigned⟩⟩

theorem allWritten_bareMarks (writable : expr.IsWritable) :
    AllWritten (expr.bareMarks parentheses) := by
  induction expr with
  | binary operator left right onLeft onRight =>
      refine List.forall_mem_append.mpr ⟨(onLeft writable.1).enclose, ?_⟩
      exact List.forall_mem_cons.mpr ⟨⟨_, .operator operator⟩, (onRight writable.2).enclose⟩
  | negate operand induction =>
      exact List.forall_mem_cons.mpr ⟨⟨_, .operator .subtract⟩, (induction writable.2).enclose⟩
  | number value => exact allWritten_number writable
  | string value =>
      exact List.forall_mem_singleton.mpr ⟨_, .string (JsonString.decode?_encode value.toList)⟩
  | bool value =>
      cases value with
      | true => exact List.forall_mem_singleton.mpr ⟨_, .true⟩
      | false => exact List.forall_mem_singleton.mpr ⟨_, .false⟩
  | current => exact List.forall_mem_singleton.mpr ⟨_, .current⟩
  | null => exact List.forall_mem_singleton.mpr ⟨_, .null⟩

theorem exists_rendering {marks : List Mark} (written : AllWritten marks) :
    ∃ text, Rendering marks text := by
  induction marks with
  | nil => exact ⟨[], .nil (by simp)⟩
  | cons mark marks induction =>
      obtain ⟨⟨span, isWritten⟩, others⟩ := List.forall_mem_cons.mp written
      obtain ⟨rest, rendering⟩ := induction others
      exact ⟨[] ++ span ++ rest, .cons (by simp) isWritten rendering⟩

theorem ofText_of_rendering {parentheses : Parentheses} {expr : Expr} {text : String}
    (writable : expr.IsWritable) (rendering : Rendering (expr.marks parentheses) text.toList) :
    ofText text = .ok expr := by
  obtain ⟨pieces, tail, isText, spelled, gapsBlank, tailBlank, stand⟩ := rendering.exists_pieces
  exact ofText_of_phrase (phrase_of_marks writable stand) spelled gapsBlank tailBlank isText

/-- Every expression can be written, and every text of it is read as the expression: with
parentheses anywhere, as long as they stand where they are needed, with any literals of its strings
and numbers, and with any white space between the tokens. -/
theorem ofText_rendering (parentheses : Parentheses) {expr : Expr} (writable : expr.IsWritable) :
    (∃ text : String, Rendering (expr.marks parentheses) text.toList) ∧
      ∀ text : String, Rendering (expr.marks parentheses) text.toList →
        ofText text = .ok expr := by
  constructor
  · have written : AllWritten (expr.marks parentheses) := (allWritten_bareMarks writable).enclose
    obtain ⟨text, rendering⟩ := exists_rendering written
    exact ⟨String.ofList text, by rwa [String.toList_ofList]⟩
  · exact fun text => ofText_of_rendering writable

/-- The second zero has a minus sign of its own, and needs no parentheses. -/
theorem ofText_rendering_zeros :
    ofText "( x+0.0)*-0e5" = .ok (.binary .multiply
      (.binary .add .current (.number (.zero false))) (.number (.zero true))) := by
  have point : Number.ofChars? ['0', '.', '0'] = some (.zero false) := by decide +kernel
  have power : Number.ofChars? ['0', 'e', '5'] = some (.zero false) := by decide +kernel
  have pointMatches : unsignedNumber.Matches ['0', '.', '0'] :=
    (Pattern.matches_take_of_longest?
      (show unsignedNumber.longest? ['0', '.', '0'] = some 3 by rfl)).2
  have powerMatches : unsignedNumber.Matches ['0', 'e', '5'] :=
    (Pattern.matches_take_of_longest?
      (show unsignedNumber.longest? ['0', 'e', '5'] = some 3 by rfl)).2
  have writable : IsWritable (.binary .multiply
      (.binary .add .current (.number (.zero false))) (.number (.zero true))) :=
    ⟨⟨trivial, _, pointMatches, .inl point⟩, _, powerMatches, .inr power⟩
  have areMarks : marks .minimal (.binary .multiply
      (.binary .add .current (.number (.zero false))) (.number (.zero true))) =
        [.opening, .operand .current, .operator .add, .operand (.number (.zero false)), .closing,
          .operator .multiply, .operator .subtract, .operand (.number (.zero false))] := by
    rfl
  have noGap : ∀ c ∈ ([] : List Char), isBlank c = true := by simp
  refine (ofText_rendering .minimal writable).2 _ ?_
  rw [areMarks]
  exact .cons noGap .opening <| @Rendering.cons _ _ [' '] _ _ isBlank_space .current <|
    .cons noGap (.operator .add) <| .cons noGap (.number pointMatches point) <|
      .cons noGap .closing <| .cons noGap (.operator .multiply) <|
        .cons noGap (.operator .subtract) <| .cons noGap (.number powerMatches power) <|
          .nil noGap

end Expr

end TreeQuery
