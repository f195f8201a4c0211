import TreeQuery.Proofs.Expr.Parsing
import TreeQuery.Proofs.Token.Scanning

/-!
Scans for a closing parenthesis over an expression.

The parentheses of an expression come in pairs, as groups, and its other tokens have parentheses in
strings only. So a scan for the end of an argument crosses every expression.
-/

namespace TreeQuery

open Arguments

namespace TokenRule

/-- Only the rules of strings and of the parentheses themselves have quotes or parentheses in their
texts. -/
theorem expressionRule_cases {rule : TokenRule} (isRule : rule ∈ expressionRules) :
    rule = ⟨quoted, some .string⟩ ∨ rule = ⟨.char '(', some .leftParen⟩ ∨
      rule = ⟨.char ')', some .rightParen⟩ ∨
        (rule.kind ≠ some .leftParen ∧ rule.kind ≠ some .rightParen ∧
          ∀ c ∈ ['"', '(', ')'], rule.pattern.avoids c = true) := by
  simp only [expressionRules, List.mem_cons, List.not_mem_nil, or_false] at isRule
  rcases isRule with rfl | rfl | rfl | rfl | rfl | rfl | rfl | rfl
  case inr.inl => exact .inl rfl
  case inr.inr.inr.inr.inr.inr.inl => exact .inr (.inl rfl)
  case inr.inr.inr.inr.inr.inr.inr => exact .inr (.inr (.inl rfl))
  all_goals exact .inr (.inr (.inr ⟨by simp, by simp, List.all_eq_true.mp (by decide)⟩))

end TokenRule

theorem Arguments.Crosses.of_group {text : List Char} (inner : Crosses .outside .outside text) :
    Crosses .outside .outside ('(' :: (text ++ [')'])) := by
  intro depth rest inside
  have afterOpening := inner (depth + 1) (')' :: rest) (Nat.le_add_left 1 depth)
  have notLast : ¬ (Quoting.outside = .outside ∧ ')' = ')' ∧ depth + 1 = 1) := by omega
  have asDeep : Quoting.outside.deepen (depth + 1) ')' = depth := by simp [Quoting.deepen]
  rw [List.cons_append, List.append_assoc, splitFrom?_opening]
  change (splitFrom? (depth + 1) .outside (text ++ ')' :: rest)).map _ = _
  rw [afterOpening, splitFrom?_cons, if_neg notLast, asDeep]
  simp [Quoting.turn, Function.comp_def]

/-- How a scan gets across the text of a token of an expression. -/
structure Piece.IsScanned (piece : Piece) : Prop where
  gapCrossed : Crosses .outside .outside piece.gap
  opening : piece.token.kind = .leftParen → piece.span = ['(']
  closing : piece.token.kind = .rightParen → piece.span = [')']
  other : piece.token.kind ≠ .leftParen → piece.token.kind ≠ .rightParen →
    Crosses .outside .outside piece.span

namespace Piece.IsScanned

variable {piece : Piece}

theorem crosses (isScanned : piece.IsScanned) (notOpening : piece.token.kind ≠ .leftParen)
    (notClosing : piece.token.kind ≠ .rightParen) :
    Crosses .outside .outside (piece.gap ++ piece.span) :=
  isScanned.gapCrossed.append (isScanned.other notOpening notClosing)

theorem crosses_of_operator (isScanned : piece.IsScanned)
    (isOperator : piece.token.kind = .binaryOperator) :
    Crosses .outside .outside (piece.gap ++ piece.span) :=
  isScanned.crosses (by simp [isOperator]) (by simp [isOperator])

end Piece.IsScanned

theorem Token.ReadFrom.isScanned {position : Nat} {gap span after : List Char} {token : Token}
    (read : token.ReadFrom .expression position span after)
    (gapBlank : ∀ c ∈ gap, isBlank c = true) : (Piece.mk gap span token).IsScanned := by
  have gapCrossed := Crosses.of_blank gapBlank
  cases read with
  | blob isSelector => cases isSelector
  | @rule rule kind value notBlob takes isKind reads =>
      have spanMatches := takes.spanMatches
      rcases TokenRule.expressionRule_cases takes.isRule with
        rfl | rfl | rfl | ⟨notOpening, notClosing, avoids⟩
      · cases isKind
        exact ⟨gapCrossed, by simp, by simp, fun _ _ => .of_quoted spanMatches⟩
      · cases isKind
        obtain ⟨c, rfl, isParenthesis⟩ := Pattern.matches_one_iff.mp spanMatches
        rw [beq_iff_eq.mp isParenthesis]
        exact ⟨gapCrossed, fun _ => rfl, by simp, by simp⟩
      · cases isKind
        obtain ⟨c, rfl, isParenthesis⟩ := Pattern.matches_one_iff.mp spanMatches
        rw [beq_iff_eq.mp isParenthesis]
        exact ⟨gapCrossed, by simp, fun _ => rfl, by simp⟩
      · rw [isKind, ne_eq, Option.some.injEq] at notOpening notClosing
        have absent : ∀ c ∈ ['"', '(', ')'], c ∉ span := fun c isMember =>
          Pattern.not_mem_of_avoids (avoids c isMember) spanMatches
        refine ⟨gapCrossed, fun isOpening => absurd isOpening notOpening,
          fun isClosing => absurd isClosing notClosing, fun _ _ => .of_plain ?_⟩
        intro c isMember
        refine ⟨?_, ?_, ?_⟩ <;> intro same <;> rw [same] at isMember <;>
          exact absent _ (by simp) isMember

namespace Expr

variable {pieces : List Piece}

theorem Atom.not_parenthesis {token : Token} {expr : Expr} (isAtom : Atom token expr) :
    token.kind ≠ .leftParen ∧ token.kind ≠ .rightParen := by
  cases isAtom with
  | _ kind => simp [kind]

/-- The tokens of a phrase are crossed as a whole. -/
theorem Phrase.crosses {tier : Nat} {tokens : List Token} {expr : Expr}
    (phrase : Phrase tier tokens expr) (areTokens : pieces.map Piece.token = tokens)
    (scanned : ∀ piece ∈ pieces, piece.IsScanned) :
    Crosses .outside .outside (Piece.join pieces) := by
  induction phrase generalizing pieces with
  | @atom token expr isAtom =>
      obtain ⟨piece, rfl, isToken⟩ := List.map_eq_singleton_iff.mp areTokens
      have isScanned := scanned piece List.mem_cons_self
      have notParenthesis := isAtom.not_parenthesis
      rw [← isToken] at notParenthesis
      rw [Piece.join_cons, Piece.join_nil, List.append_nil]
      exact isScanned.crosses notParenthesis.1 notParenthesis.2
  | @group opening closing inside expr opens _ closes induction =>
      obtain ⟨first, others, rfl, rfl, areOthers⟩ := List.map_eq_cons_iff.mp areTokens
      obtain ⟨middle, back, rfl, areInside, isBack⟩ := List.map_eq_append_iff.mp areOthers
      obtain ⟨last, rfl, rfl⟩ := List.map_eq_singleton_iff.mp isBack
      have firstScanned := scanned first (by simp)
      have lastScanned := scanned last (by simp)
      have insideCrossed :=
        induction areInside fun piece isPiece => scanned piece (by simp [isPiece])
      have grouped := Crosses.of_group (insideCrossed.append lastScanned.gapCrossed)
      simp only [Piece.join_cons, Piece.join_append, Piece.join_nil, firstScanned.opening opens,
        lastScanned.closing closes]
      have spelled := firstScanned.gapCrossed.append grouped
      simpa using spelled
  | minusNumber isOperator _ _ induction =>
      obtain ⟨sign, others, rfl, rfl, areOthers⟩ := List.map_eq_cons_iff.mp areTokens
      obtain ⟨signScanned, othersScanned⟩ := List.forall_mem_cons.mp scanned
      exact (signScanned.crosses_of_operator isOperator).append (induction areOthers othersScanned)
  | minus isOperator _ _ _ induction =>
      obtain ⟨sign, others, rfl, rfl, areOthers⟩ := List.map_eq_cons_iff.mp areTokens
      obtain ⟨signScanned, othersScanned⟩ := List.forall_mem_cons.mp scanned
      exact (signScanned.crosses_of_operator isOperator).append (induction areOthers othersScanned)
  | binary isOperator _ _ _ leftInduction rightInduction =>
      obtain ⟨front, back, rfl, areFront, isBack⟩ := List.map_eq_append_iff.mp areTokens
      obtain ⟨sign, others, rfl, rfl, areOthers⟩ := List.map_eq_cons_iff.mp isBack
      obtain ⟨frontScanned, backScanned⟩ := List.forall_mem_append.mp scanned
      obtain ⟨signScanned, othersScanned⟩ := List.forall_mem_cons.mp backScanned
      rw [Piece.join_append, Piece.join_cons]
      exact (leftInduction areFront frontScanned).append
        ((signScanned.crosses_of_operator isOperator).append
          (rightInduction areOthers othersScanned))
  | tighter _ _ induction => exact induction areTokens scanned

/-- An expression is crossed as a whole. -/
theorem crosses_of_ofText {text : String} {expr : Expr} (parsed : ofText text = .ok expr) :
    Crosses .outside .outside text.toList := by
  unfold ofText at parsed
  split at parsed
  · rename_i tokens lexed
    obtain ⟨pieces, tail, areTokens, tiling⟩ := Cursor.tokens_isTiling lexed
    obtain ⟨front, split, phrase⟩ := takesPhrase_of_parse (parse_ok_iff_yields.mp parsed)
    rw [List.append_nil] at split
    rw [← split] at phrase
    have scanned : ∀ piece ∈ pieces, piece.IsScanned := by
      intro piece isPiece
      obtain ⟨before, behind, split⟩ := List.append_of_mem isPiece
      exact (tiling.reads before piece behind split).isScanned (tiling.gapsBlank piece isPiece)
    have spelled : Piece.join pieces ++ tail = text.toList := tiling.spelled
    rw [← spelled]
    exact (phrase.crosses areTokens scanned).append (.of_blank tiling.tailBlank)
  · cases parsed

end Expr

end TreeQuery
