import TreeQuery.Proofs.Expr.Errors

/-!
Progress of the expression parser.

A parser leaves a part of its tokens at their end, and where there are tokens it takes at least the
first one, whether it answers with an expression or an error: an operand is taken before it is
judged. So a parser that is called again and again only moves forward, up to the end of its tokens.
-/

namespace TreeQuery

namespace Expr

variable {tokens rest : List Token} {expr : Expr}

theorem closeGroup_suffix (inner : Expr) (tokens : List Token) :
    (closeGroup inner tokens).2 <:+ tokens := by
  unfold closeGroup
  split
  · exact List.suffix_rfl
  · split
    · exact List.suffix_cons _ _
    · exact List.suffix_rfl

/-! ## One parser -/

-- The proofs follow the recursion of the parsers. A parser that runs behind another one leaves a
-- part of what that one leaves.
mutual

theorem parseOperand_advances (tokens : List Token) :
    (parseOperand tokens).rest <:+ tokens.tail := by
  cases tokens with
  | nil => simp [parseOperand]
  | cons token below =>
      rw [parseOperand]
      by_cases opens : token.kind = .leftParen
      · rw [if_pos opens]
        have inside := parseGroups_advances precedence below
        cases parsed : parseGroups precedence below with
        | mk result after shrinks =>
            rw [parsed] at inside
            have behindOpening : after <:+ below := inside.trans (List.tail_suffix below)
            cases result with
            | error error => exact behindOpening
            | ok inner => exact (closeGroup_suffix inner after).trans behindOpening
      · rw [if_neg opens]
        exact List.suffix_rfl
  termination_by (tokens.length, 0)

theorem parseSigned_advances (tokens : List Token) :
    (parseSigned tokens).rest <:+ tokens.tail := by
  cases tokens with
  | nil =>
      rw [parseSigned]
      exact parseOperand_advances []
  | cons token below =>
      rw [parseSigned]
      by_cases minus : isMinus token = true
      · rw [if_pos minus]
        exact (parseSigned_advances below).trans (List.tail_suffix below)
      · rw [if_neg minus]
        exact parseOperand_advances (token :: below)
  termination_by (tokens.length, 1)

theorem parseGroups_advances (groups : List (List BinaryOperator)) (tokens : List Token) :
    (parseGroups groups tokens).rest <:+ tokens.tail := by
  cases groups with
  | nil =>
      rw [parseGroups]
      exact parseSigned_advances tokens
  | cons group tighter =>
      rw [parseGroups]
      have first := parseGroups_advances tighter tokens
      cases parsed : parseGroups tighter tokens with
      | mk result middle shrinks =>
          rw [parsed] at first
          cases result with
          | error error => exact first
          | ok left => exact (parseOperators_suffix group tighter left middle).trans first
  termination_by (tokens.length, 2 * groups.length + 2)
  decreasing_by
    all_goals
      simp_wf
      simp only [*, Prod.lex_def, true_and]
      omega

/-- The loop over a group need not take a token. -/
theorem parseOperators_suffix (group : List BinaryOperator) (tighter : List (List BinaryOperator))
    (left : Expr) (tokens : List Token) :
    (parseOperators group tighter left tokens).rest <:+ tokens := by
  cases tokens with
  | nil => simp [parseOperators]
  | cons token below =>
      rw [parseOperators]
      cases found : operatorIn? group token with
      | none => exact List.suffix_rfl
      | some operator =>
          have operand := parseGroups_advances tighter below
          cases parsed : parseGroups tighter below with
          | mk result after shrinks =>
              rw [parsed] at operand
              have behindSign : after <:+ token :: below :=
                (operand.trans (List.tail_suffix below)).trans (List.suffix_cons token below)
              cases result with
              | error error => exact behindSign
              | ok right =>
                  exact (parseOperators_suffix group tighter (.binary operator left right)
                    after).trans behindSign
  termination_by (tokens.length, 2 * tighter.length + 3)

end

/-- Where no token is left, a parser misses an operand. -/
theorem parseGroups_fails_nil (groups : List (List BinaryOperator)) :
    (parseGroups groups []).Fails .unexpectedEnd := by
  induction groups with
  | nil =>
      apply parseGroups_nil_fails_iff.mpr
      apply parseSigned_fails_iff.mpr
      exact .inr ⟨by simp, parseOperand_fails_iff.mpr (.inl ⟨rfl, rfl⟩)⟩
  | cons group tighter induction => exact parseGroups_cons_fails_iff.mpr (.inl induction)

/-! ## Calls -/

theorem parseAll_rest (tokens : List Token) : (parseAll tokens).2 = (parseFirst tokens).2 := by
  unfold parseAll
  split
  · rename_i parsed
    rw [parsed]
  · rfl

/-- The tokens of an expression that is parsed first make the same expression on their own. -/
theorem exists_passed_of_parseFirst (parsed : parseFirst tokens = (.ok expr, rest)) :
    ∃ passed, tokens = passed ++ rest ∧ parseAll passed = (.ok expr, []) := by
  have yields : (parseGroups precedence tokens).Yields expr rest :=
    ⟨congrArg Prod.fst parsed, congrArg Prod.snd parsed⟩
  obtain ⟨passed, spelled, phrase⟩ := takesPhrase_of_parse yields
  exact ⟨passed, spelled, parseAll_of_phrase phrase⟩

/-- What a parser can be called for. -/
inductive Call where
  /-- One expression from the next tokens. -/
  | first
  /-- One expression that takes all tokens that are left. -/
  | all
  deriving DecidableEq, Repr

namespace Call

def answer : Call → List Token → Except ExprError Expr × List Token
  | .first => parseFirst
  | .all => parseAll

theorem answer_rest (call : Call) (tokens : List Token) :
    (call.answer tokens).2 = (parseFirst tokens).2 := by
  cases call with
  | first => rfl
  | all => exact parseAll_rest tokens

theorem answer_advances (call : Call) (tokens : List Token) :
    (call.answer tokens).2 <:+ tokens.tail := by
  rw [answer_rest]
  exact parseGroups_advances precedence tokens

theorem answer_nil (call : Call) : call.answer [] = (.error .unexpectedEnd, []) := by
  have nothingLeft : (parseFirst []).2 = [] :=
    List.suffix_nil.mp (parseGroups_advances precedence [])
  have first : parseFirst [] = (.error .unexpectedEnd, []) :=
    Prod.ext (parseGroups_fails_nil precedence) nothingLeft
  cases call with
  | first => exact first
  | all => rw [answer, parseAll, first]

end Call

/-! ## Many calls -/

/-- The tokens that one parser has left behind a row of calls, whatever they answer. -/
def leftBehind (tokens : List Token) (calls : List Call) : List Token :=
  calls.foldl (fun left call => (call.answer left).2) tokens

/-- The number of tokens that one parser has passed behind a row of calls. -/
def position (tokens : List Token) (calls : List Call) : Nat :=
  tokens.length - (leftBehind tokens calls).length

variable {calls : List Call}

theorem leftBehind_append (tokens : List Token) (calls more : List Call) :
    leftBehind tokens (calls ++ more) = leftBehind (leftBehind tokens calls) more := by
  rw [leftBehind, List.foldl_append]
  rfl

theorem leftBehind_snoc (tokens : List Token) (calls : List Call) (call : Call) :
    leftBehind tokens (calls ++ [call]) = (call.answer (leftBehind tokens calls)).2 :=
  leftBehind_append tokens calls [call]

theorem leftBehind_suffix (tokens : List Token) (calls : List Call) :
    leftBehind tokens calls <:+ tokens := by
  induction calls generalizing tokens with
  | nil => exact List.suffix_rfl
  | cons call calls induction =>
      have first := (call.answer_advances tokens).trans (List.tail_suffix tokens)
      exact (induction (call.answer tokens).2).trans first

theorem position_add_length (tokens : List Token) (calls : List Call) :
    position tokens calls + (leftBehind tokens calls).length = tokens.length :=
  Nat.sub_add_cancel (leftBehind_suffix tokens calls).length_le

/-- What is left starts at the position. -/
theorem drop_position (tokens : List Token) (calls : List Call) :
    tokens.drop (position tokens calls) = leftBehind tokens calls :=
  (List.suffix_iff_eq_drop.mp (leftBehind_suffix tokens calls)).symm

theorem position_le_append (tokens : List Token) (calls more : List Call) :
    position tokens calls ≤ position tokens (calls ++ more) := by
  have fewer := (leftBehind_suffix (leftBehind tokens calls) more).length_le
  rw [← leftBehind_append] at fewer
  exact Nat.sub_le_sub_left fewer tokens.length

theorem position_lt_of_call (notAtEnd : position tokens calls < tokens.length) (call : Call) :
    position tokens calls < position tokens (calls ++ [call]) := by
  have fewer := (call.answer_advances (leftBehind tokens calls)).length_le
  rw [← leftBehind_snoc, List.length_tail] at fewer
  have here := position_add_length tokens calls
  have next := position_add_length tokens (calls ++ [call])
  omega

theorem call_atEnd (atEnd : position tokens calls = tokens.length) (call : Call) :
    (call.answer (leftBehind tokens calls)).1 = .error .unexpectedEnd ∧
      position tokens (calls ++ [call]) = position tokens calls := by
  have here := position_add_length tokens calls
  have nothingLeft : leftBehind tokens calls = [] := List.length_eq_zero_iff.mp (by omega)
  have answered := call.answer_nil
  rw [← nothingLeft] at answered
  have staysEmpty : leftBehind tokens (calls ++ [call]) = leftBehind tokens calls := by
    rw [leftBehind_snoc, answered, nothingLeft]
  exact ⟨congrArg Prod.fst answered, by rw [position, position, staysEmpty]⟩

/-- The tokens that a successful call has taken. -/
theorem parseAll_extract
    (succeeds : (Call.first.answer (leftBehind tokens calls)).1 = .ok expr) :
    parseAll (tokens.extract (position tokens calls) (position tokens (calls ++ [.first]))) =
      (.ok expr, []) := by
  have parsed : parseFirst (leftBehind tokens calls) =
      (.ok expr, leftBehind tokens (calls ++ [.first])) :=
    Prod.ext succeeds (leftBehind_snoc tokens calls .first).symm
  obtain ⟨passed, spelled, whole⟩ := exists_passed_of_parseFirst parsed
  have isLength : position tokens (calls ++ [.first]) - position tokens calls =
      passed.length := by
    have here := position_add_length tokens calls
    have next := position_add_length tokens (calls ++ [.first])
    rw [spelled, List.length_append] at here
    omega
  rw [List.extract_eq_take_drop, drop_position, isLength, spelled, List.take_left]
  exact whole

/-- However often a parser has been called: what is left starts at its position, which never goes
back and never leaves the tokens. The next call moves it on unless it is at the end, where the call
fails for want of a token. And where a call for one expression succeeds, the tokens from the
position before it to the one behind it are all the tokens of that expression. -/
theorem calls_progress (tokens : List Token) (calls : List Call) :
    tokens.drop (position tokens calls) = leftBehind tokens calls ∧
      position tokens calls ≤ tokens.length ∧
      (∀ more, position tokens calls ≤ position tokens (calls ++ more)) ∧
      (∀ call : Call,
        (position tokens calls < tokens.length →
          position tokens calls < position tokens (calls ++ [call])) ∧
        (position tokens calls = tokens.length →
          (call.answer (leftBehind tokens calls)).1 = .error .unexpectedEnd ∧
            position tokens (calls ++ [call]) = position tokens calls)) ∧
      ∀ expr, (Call.first.answer (leftBehind tokens calls)).1 = .ok expr →
        parseAll (tokens.extract (position tokens calls)
          (position tokens (calls ++ [.first]))) = (.ok expr, []) :=
  ⟨drop_position tokens calls, Nat.sub_le _ _, position_le_append tokens calls,
    fun call => ⟨fun notAtEnd => position_lt_of_call notAtEnd call,
      fun atEnd => call_atEnd atEnd call⟩,
    fun _ succeeds => parseAll_extract succeeds⟩

/-- Behind one expression, a call that finds a closing parenthesis takes it and fails. -/
theorem calls_progress_unopened :
    let tokens : List Token := [⟨.current, "x", 0⟩, ⟨.rightParen, ")", 2⟩]
    (Call.first.answer (leftBehind tokens [])).1 = .ok .current ∧
      parseAll (tokens.extract (position tokens []) (position tokens [.first])) =
        (.ok .current, []) ∧
      position tokens [.first] < tokens.length ∧
      position tokens [.first] < position tokens [.first, .all] ∧
      position tokens [.first, .all] = tokens.length ∧
      (Call.all.answer (leftBehind tokens [.first, .all])).1 = .error .unexpectedEnd ∧
      position tokens [.first, .all, .all] = position tokens [.first, .all] := by
  intro tokens
  have operand : Phrase (0 + operandTier) [⟨.current, "x", 0⟩] .current := .atom (.current rfl)
  have phrase := operand.looser (Nat.le_refl _)
  have yields : (parseGroups precedence tokens).Yields .current [⟨.rightParen, ")", 2⟩] :=
    phrase.found.exact (Nat.zero_le _) (stops_closing rfl)
  have atClosing : position tokens [.first] = 1 := congrArg (2 - List.length ·) yields.2
  obtain ⟨_, _, _, _, taken⟩ := calls_progress tokens []
  obtain ⟨_, _, _, next, _⟩ := calls_progress tokens [.first]
  obtain ⟨_, inside, _, last, _⟩ := calls_progress tokens [.first, .all]
  have notAtEnd : position tokens [.first] < tokens.length := by
    rw [atClosing]
    exact Nat.lt_succ_self 1
  have moves : position tokens [.first] < position tokens [.first, .all] := (next .all).1 notAtEnd
  have atEnd : position tokens [.first, .all] = tokens.length := by
    rw [atClosing] at moves
    exact Nat.le_antisymm inside moves
  exact ⟨yields.1, taken .current yields.1, notAtEnd, moves, atEnd, (last .all).2 atEnd⟩

end Expr

end TreeQuery
