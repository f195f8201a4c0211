import Mathlib.Logic.Basic
import TreeQuery.Proofs.Expr.Grammar

/-!
The parser accepts the grammar.

Each parser is described by what it yields: an expression and the tokens behind it. What it yields
is a phrase of its tier, and every phrase is found again. The loop over the operators of a group
takes one step for each binary phrase that is nested in the left operand.
-/

namespace TreeQuery

namespace Expr

variable {tokens rest : List Token} {expr : Expr} {groups : List (List BinaryOperator)}
  {group : List BinaryOperator} {tighter : List (List BinaryOperator)} {left : Expr}

/-- A parser ends with an expression before the rest of the tokens. -/
def Parsed.Yields {tokens : List Token} (parsed : Parsed tokens) (expr : Expr)
    (rest : List Token) : Prop :=
  parsed.result = .ok expr ∧ parsed.rest = rest

theorem Parsed.Yields.unique {parsed : Parsed tokens} {other : Expr} {after : List Token}
    (first : parsed.Yields expr rest) (second : parsed.Yields other after) :
    expr = other ∧ rest = after :=
  ⟨Except.ok.inj (first.1.symm.trans second.1), first.2.symm.trans second.2⟩

theorem closeGroup_ok_iff {inner : Expr} :
    (closeGroup inner tokens).1 = .ok expr ∧ (closeGroup inner tokens).2 = rest ↔
      inner = expr ∧ ∃ closing, tokens = closing :: rest ∧ closing.kind = .rightParen := by
  cases tokens with
  | nil => simp [closeGroup]
  | cons token below =>
      by_cases closes : token.kind = .rightParen
      · simp [closeGroup, closes, and_assoc]
      · simp [closeGroup, closes, and_assoc]

/-! ## What a parser yields -/

theorem parseOperand_yields_iff :
    (parseOperand tokens).Yields expr rest ↔
      (∃ token, tokens = token :: rest ∧ Atom token expr) ∨
        ∃ opening inside closing, tokens = opening :: inside ∧ opening.kind = .leftParen ∧
          (parseGroups precedence inside).Yields expr (closing :: rest) ∧
            closing.kind = .rightParen := by
  cases tokens with
  | nil => simp [parseOperand, Parsed.Yields]
  | cons token below =>
      rw [parseOperand]
      by_cases opens : token.kind = .leftParen
      · rw [if_pos opens]
        have notAtom : ¬Atom token expr := by
          intro isAtom
          cases isAtom <;> simp_all
        cases parsed : parseGroups precedence below with
        | mk result middle shrinks =>
            cases result with
            | error error => simp [Parsed.Yields, and_assoc, parsed, notAtom]
            | ok inner =>
                simp [Parsed.Yields, and_assoc, parsed, notAtom, opens, closeGroup_ok_iff]
      · rw [if_neg opens]
        simp [Parsed.Yields, and_assoc, opens, ofToken_ok_iff, and_comm]

theorem parseSigned_yields_iff :
    (parseSigned tokens).Yields expr rest ↔
      (∃ sign below operand, tokens = sign :: below ∧ isMinus sign = true ∧
        (parseSigned below).Yields operand rest ∧ negated operand = expr) ∨
        ((∀ sign ∈ tokens.head?, isMinus sign = false) ∧
          (parseOperand tokens).Yields expr rest) := by
  cases tokens with
  | nil =>
      rw [parseSigned]
      simp
  | cons token below =>
      rw [parseSigned]
      by_cases minus : isMinus token = true
      · rw [if_pos minus]
        cases parsed : parseSigned below with
        | mk result after shrinks =>
            cases result with
            | error error => simp [Parsed.Yields, and_assoc, parsed, minus, Except.map]
            | ok operand => simp [Parsed.Yields, and_assoc, parsed, minus, Except.map, and_comm]
      · rw [if_neg minus]
        simp [and_assoc, minus]

theorem parseGroups_nil_yields_iff :
    (parseGroups [] tokens).Yields expr rest ↔ (parseSigned tokens).Yields expr rest := by
  rw [parseGroups]

theorem parseGroups_cons_yields_iff :
    (parseGroups (group :: tighter) tokens).Yields expr rest ↔
      ∃ left middle, (parseGroups tighter tokens).Yields left middle ∧
        (parseOperators group tighter left middle).Yields expr rest := by
  rw [parseGroups]
  cases parsed : parseGroups tighter tokens with
  | mk result middle shrinks =>
      cases result with
      | error error => simp [Parsed.Yields]
      | ok left =>
          constructor
          · intro yields
            exact ⟨left, middle, ⟨rfl, rfl⟩, yields⟩
          · intro found
            obtain ⟨inner, between, ⟨isInner, isBetween⟩, yields⟩ := found
            cases isInner
            cases isBetween
            exact yields

theorem parseOperators_yields_iff :
    (parseOperators group tighter left tokens).Yields expr rest ↔
      ((∀ token ∈ tokens.head?, operatorIn? group token = none) ∧ expr = left ∧ rest = tokens) ∨
        ∃ sign below operator right after, tokens = sign :: below ∧
          operatorIn? group sign = some operator ∧
            (parseGroups tighter below).Yields right after ∧
              (parseOperators group tighter (.binary operator left right) after).Yields
                expr rest := by
  cases tokens with
  | nil =>
      rw [parseOperators]
      simp [Parsed.Yields, eq_comm]
  | cons token below =>
      rw [parseOperators]
      cases found : operatorIn? group token with
      | none => simp [Parsed.Yields, found, eq_comm]
      | some operator =>
          cases parsed : parseGroups tighter below with
          | mk result after shrinks =>
              cases result with
              | error error => simp [Parsed.Yields, found, parsed]
              | ok right =>
                  have yieldsRight : (parseGroups tighter below).Yields right after := by
                    rw [parsed]
                    exact ⟨rfl, rfl⟩
                  constructor
                  · intro yields
                    exact .inr
                      ⟨token, below, operator, right, after, rfl, found, yieldsRight, yields⟩
                  · intro yields
                    rcases yields with ⟨isNone, _⟩ | ⟨_, _, _, _, _, same, isIn, others, continues⟩
                    · simp [found] at isNone
                    · cases same
                      rw [found] at isIn
                      cases isIn
                      obtain ⟨isRight, isAfter⟩ := yieldsRight.unique others
                      rw [← isRight, ← isAfter] at continues
                      exact continues

/-- The groups of the parser that are as tight as a tier, with the tier's own group first. -/
theorem getElem?_of_drop {tier : Nat} (isDrop : precedence.drop tier = group :: tighter) :
    precedence[tier]? = some group ∧ precedence.drop (tier + 1) = tighter := by
  constructor
  · rw [← List.head?_drop, isDrop]
    rfl
  · rw [← List.tail_drop, isDrop]
    rfl

/-! ## Soundness -/

/-- A parser takes a phrase of a tier and leaves the rest. -/
def TakesPhrase (tier : Nat) (tokens : List Token) (expr : Expr) (rest : List Token) : Prop :=
  ∃ front, tokens = front ++ rest ∧ Phrase tier front expr

/-- What groups yield on fewer tokens than a bound is a phrase of a tier. -/
def SoundBelow (groups : List (List BinaryOperator)) (tier bound : Nat) : Prop :=
  ∀ tokens : List Token, tokens.length < bound → ∀ expr rest,
    (parseGroups groups tokens).Yields expr rest → TakesPhrase tier tokens expr rest

section Sound

variable {size tier : Nat}

theorem takesPhrase_of_parseOperand (groupSound : SoundBelow precedence 0 size)
    (fits : tokens.length ≤ size) (yields : (parseOperand tokens).Yields expr rest) :
    TakesPhrase operandTier tokens expr rest := by
  rcases parseOperand_yields_iff.mp yields with
    ⟨token, rfl, isAtom⟩ | ⟨opening, inside, closing, rfl, opens, inner, closes⟩
  · exact ⟨[token], rfl, .atom isAtom⟩
  · obtain ⟨front, rfl, phrase⟩ := groupSound inside fits expr (closing :: rest) inner
    exact ⟨opening :: (front ++ [closing]), by simp, .group opens phrase closes⟩

theorem phrase_negated {sign : Token} {operand : Expr} (minus : isMinus sign = true)
    (phrase : Phrase signTier tokens operand) :
    Phrase signTier (sign :: tokens) (negated operand) := by
  obtain ⟨isOperator, isMinus⟩ := isMinus_iff.mp minus
  cases operand with
  | number value => exact .minusNumber isOperator isMinus phrase
  | _ => exact .minus isOperator isMinus phrase (by simp)

theorem takesPhrase_of_parseSigned (groupSound : SoundBelow precedence 0 size)
    (fits : tokens.length ≤ size) (yields : (parseSigned tokens).Yields expr rest) :
    TakesPhrase signTier tokens expr rest := by
  induction tokens generalizing expr with
  | nil =>
      rcases parseSigned_yields_iff.mp yields with ⟨_, _, _, isNil, _⟩ | ⟨_, operand⟩
      · cases isNil
      · obtain ⟨front, split, phrase⟩ := takesPhrase_of_parseOperand groupSound fits operand
        exact ⟨front, split, .tighter (by decide) phrase⟩
  | cons token below induction =>
      rcases parseSigned_yields_iff.mp yields with
        ⟨sign, behind, operand, same, minus, signed, rfl⟩ | ⟨_, operand⟩
      · cases same
        obtain ⟨front, rfl, phrase⟩ := induction (Nat.le_of_succ_le fits) signed
        exact ⟨token :: front, rfl, phrase_negated minus phrase⟩
      · obtain ⟨front, split, phrase⟩ := takesPhrase_of_parseOperand groupSound fits operand
        exact ⟨front, split, .tighter (by decide) phrase⟩

/-- The loop keeps a phrase of its tier: the operators that it takes go to the left operand. -/
theorem phrase_of_parseOperators (isGroup : precedence[tier]? = some group)
    (tighterSound : SoundBelow tighter (tier + 1) (size + 1)) (fits : tokens.length ≤ size)
    {before : List Token} (phrase : Phrase tier before left)
    (yields : (parseOperators group tighter left tokens).Yields expr rest) :
    ∃ front, tokens = front ++ rest ∧ Phrase tier (before ++ front) expr := by
  induction length : tokens.length using Nat.strongRecOn
    generalizing tokens before left with
  | ind count induction =>
      subst length
      rcases parseOperators_yields_iff.mp yields with
        ⟨_, rfl, rfl⟩ | ⟨sign, below, operator, right, after, rfl, found, yieldsRight, continues⟩
      · exact ⟨[], rfl, by rwa [List.append_nil]⟩
      · obtain ⟨isOperator, isSymbol, rfl⟩ := (operatorIn?_iff isGroup).mp found
        rw [List.length_cons] at fits
        obtain ⟨back, rfl, rightPhrase⟩ :=
          tighterSound below (Nat.le_succ_of_le fits) right after yieldsRight
        rw [List.length_append] at fits
        have shorter : after.length < (sign :: (back ++ after)).length := by
          rw [List.length_cons, List.length_append]
          omega
        obtain ⟨front, rfl, whole⟩ := induction after.length shorter (by omega)
          (.binary isOperator isSymbol phrase rightPhrase) continues rfl
        refine ⟨sign :: (back ++ front), by simp, ?_⟩
        rwa [List.append_assoc] at whole

theorem takesPhrase_of_parseGroups (groupSound : SoundBelow precedence 0 size)
    (isDrop : precedence.drop tier = groups) (isTier : tier ≤ signTier)
    (fits : tokens.length ≤ size) (yields : (parseGroups groups tokens).Yields expr rest) :
    TakesPhrase tier tokens expr rest := by
  induction groups generalizing tier tokens expr rest with
  | nil =>
      have isSign : tier = signTier := by
        have reaches := List.drop_eq_nil_iff.mp isDrop
        exact Nat.le_antisymm isTier reaches
      rw [isSign]
      exact takesPhrase_of_parseSigned groupSound fits (parseGroups_nil_yields_iff.mp yields)
  | cons group tighter induction =>
      obtain ⟨isGroup, isTighter⟩ := getElem?_of_drop isDrop
      have isLooser : tier < signTier := (List.getElem?_eq_some_iff.mp isGroup).1
      have tighterSound : SoundBelow tighter (tier + 1) (size + 1) := by
        intro below fitsBelow right after yieldsRight
        exact induction isTighter isLooser (Nat.le_of_lt_succ fitsBelow) yieldsRight
      obtain ⟨left, middle, yieldsLeft, continues⟩ := parseGroups_cons_yields_iff.mp yields
      obtain ⟨before, rfl, phrase⟩ :=
        tighterSound tokens (Nat.lt_succ_of_le fits) left middle yieldsLeft
      rw [List.length_append] at fits
      have looser : Phrase tier before left := .tighter (Nat.lt_succ_of_lt isLooser) phrase
      obtain ⟨front, rfl, whole⟩ :=
        phrase_of_parseOperators isGroup tighterSound (by omega) looser continues
      exact ⟨before ++ front, by rw [List.append_assoc], whole⟩

end Sound

theorem takesPhrase_of_parse (yields : (parseGroups precedence tokens).Yields expr rest) :
    TakesPhrase 0 tokens expr rest := by
  induction length : tokens.length using Nat.strongRecOn
    generalizing tokens expr rest with
  | ind size induction =>
      refine takesPhrase_of_parseGroups ?_ rfl (Nat.zero_le _) (Nat.le_of_eq length) yields
      intro inside fits inner after yieldsInner
      exact induction inside.length fits yieldsInner rfl

/-! ## Completeness -/

/-- No operator of a tier, or of a tighter one, comes first. -/
def Stops (tier : Nat) (tokens : List Token) : Prop :=
  ∀ token ∈ tokens.head?, ∀ operator : BinaryOperator, token.kind = .binaryOperator →
    token.value = operator.symbol → operator.tier < tier

theorem Stops.mono {tier above : Nat} (stops : Stops tier tokens) (isAbove : tier ≤ above) :
    Stops above tokens := by
  intro token isHead operator isOperator isSymbol
  exact Nat.lt_of_lt_of_le (stops token isHead operator isOperator isSymbol) isAbove

theorem stops_nil {tier : Nat} : Stops tier [] := by
  intro token isHead
  cases isHead

theorem stops_closing {tier : Nat} {closing : Token} (closes : closing.kind = .rightParen) :
    Stops tier (closing :: tokens) := by
  intro token isHead operator isOperator
  cases isHead
  rw [closes] at isOperator
  cases isOperator

theorem stops_sign {sign : Token} {operator : BinaryOperator}
    (isSymbol : sign.value = operator.symbol) : Stops (operator.tier + 1) (sign :: tokens) := by
  intro token isHead other _ isOther
  cases isHead
  rw [BinaryOperator.symbol_injective (isOther.symm.trans isSymbol)]
  exact Nat.lt_succ_self _

/-- The loop over a group ends where no operator of its tier comes first. -/
theorem parseOperators_yields_of_stops {tier : Nat} (isGroup : precedence[tier]? = some group)
    (stops : Stops tier rest) : (parseOperators group tighter left rest).Yields left rest := by
  refine parseOperators_yields_iff.mpr (.inl ⟨?_, rfl, rfl⟩)
  intro token isHead
  cases found : operatorIn? group token with
  | none => rfl
  | some operator =>
      obtain ⟨isOperator, isSymbol, isTier⟩ := (operatorIn?_iff isGroup).mp found
      have isTighter := stops token isHead operator isOperator isSymbol
      exact absurd isTier (Nat.ne_of_lt isTighter)

/-- A phrase is found by the parser of its tier. In a tier of binary operators the parser goes on
with the phrase as its left operand. -/
structure Found (tier : Nat) (tokens : List Token) (expr : Expr) : Prop where
  operand : tier = operandTier → ∀ rest, (parseOperand (tokens ++ rest)).Yields expr rest
  signed : tier = signTier → ∀ rest, (parseSigned (tokens ++ rest)).Yields expr rest
  continued : ∀ group tighter, precedence.drop tier = group :: tighter → ∀ rest,
    Stops (tier + 1) rest → ∀ result after,
      (parseOperators group tighter expr rest).Yields result after →
        (parseGroups (group :: tighter) (tokens ++ rest)).Yields result after

theorem Found.ofOperand
    (yields : ∀ rest, (parseOperand (tokens ++ rest)).Yields expr rest) :
    Found operandTier tokens expr where
  operand := fun _ => yields
  signed := fun isSign => by cases isSign
  continued := fun group tighter isDrop => by cases isDrop

theorem Found.ofSigned
    (yields : ∀ rest, (parseSigned (tokens ++ rest)).Yields expr rest) :
    Found signTier tokens expr where
  operand := fun isOperand => by cases isOperand
  signed := fun _ => yields
  continued := fun group tighter isDrop => by cases isDrop

/-- A phrase that no operator of its tier follows is all that is taken. -/
theorem Found.exact {tier : Nat} (found : Found tier tokens expr) (isTier : tier ≤ signTier)
    (stops : Stops tier rest) :
    (parseGroups (precedence.drop tier) (tokens ++ rest)).Yields expr rest := by
  cases isDrop : precedence.drop tier with
  | nil =>
      have isSign : tier = signTier := by
        have reaches := List.drop_eq_nil_iff.mp isDrop
        exact Nat.le_antisymm isTier reaches
      exact parseGroups_nil_yields_iff.mpr (found.signed isSign rest)
  | cons group tighter =>
      have ends : (parseOperators group tighter expr rest).Yields expr rest :=
        parseOperators_yields_of_stops (getElem?_of_drop isDrop).1 stops
      exact found.continued group tighter isDrop rest (stops.mono (Nat.le_succ tier)) expr rest ends

/-- An operand does not start with an operator, so it is not taken for a minus sign. -/
theorem Phrase.head_of_operand {tier : Nat} (phrase : Phrase tier tokens expr)
    (isOperand : tier = operandTier) :
    ∃ head tail, tokens = head :: tail ∧ isMinus head = false := by
  cases phrase with
  | atom isAtom =>
      refine ⟨_, [], rfl, ?_⟩
      cases isAtom <;> simp [isMinus, *]
  | group opens inner closes => exact ⟨_, _, rfl, by simp [isMinus, opens]⟩
  | minusNumber => cases isOperand
  | minus => cases isOperand
  | binary isOperator isSymbol =>
      rename_i operator _ _ _ _ _ _
      cases operator <;> cases isOperand
  | tighter looser => exact absurd isOperand (Nat.ne_of_lt looser)

theorem Phrase.found {tier : Nat} (phrase : Phrase tier tokens expr) : Found tier tokens expr := by
  induction phrase with
  | atom isAtom =>
      refine .ofOperand fun rest => ?_
      exact parseOperand_yields_iff.mpr (.inl ⟨_, rfl, isAtom⟩)
  | @group opening closing inside expr opens _ closes induction =>
      refine .ofOperand fun rest => ?_
      have stops : Stops 0 (closing :: rest) := stops_closing closes
      have inner := induction.exact (Nat.zero_le _) stops
      have split : opening :: (inside ++ [closing]) ++ rest =
          opening :: (inside ++ closing :: rest) := by simp
      rw [split]
      exact parseOperand_yields_iff.mpr (.inr ⟨opening, _, closing, rfl, opens, inner, closes⟩)
  | minusNumber isOperator isMinus _ induction =>
      refine .ofSigned fun rest => ?_
      exact parseSigned_yields_iff.mpr (.inl ⟨_, _, _, rfl,
        isMinus_iff.mpr ⟨isOperator, isMinus⟩, induction.signed rfl rest, rfl⟩)
  | @minus sign below operand isOperator isMinus _ notNumber induction =>
      refine .ofSigned fun rest => ?_
      have isNegate : negated operand = .negate operand := by
        cases operand with
        | number value => exact absurd rfl (notNumber value)
        | _ => rfl
      exact parseSigned_yields_iff.mpr (.inl ⟨_, _, _, rfl,
        isMinus_iff.mpr ⟨isOperator, isMinus⟩, induction.signed rfl rest, isNegate⟩)
  | @binary sign operator front back left right isOperator isSymbol _ _ onLeft onRight =>
      refine ⟨?_, ?_, ?_⟩
      · intro isOperand
        cases operator <;> cases isOperand
      · intro isSign
        cases operator <;> cases isSign
      · intro group tighter isDrop rest stops result after continues
        obtain ⟨isGroup, isTighter⟩ := getElem?_of_drop isDrop
        have isLooser : operator.tier + 1 ≤ signTier := (List.getElem?_eq_some_iff.mp isGroup).1
        have rightYields := onRight.exact isLooser stops
        rw [isTighter] at rightYields
        -- The loop behind the left operand takes the sign and the right operand first.
        have step : (parseOperators group tighter left (sign :: (back ++ rest))).Yields
            result after :=
          parseOperators_yields_iff.mpr (.inr ⟨sign, back ++ rest, operator, right, rest, rfl,
            (operatorIn?_iff isGroup).mpr ⟨isOperator, isSymbol, rfl⟩, rightYields, continues⟩)
        have whole :=
          onLeft.continued group tighter isDrop _ (stops_sign isSymbol) result after step
        rwa [List.append_assoc, List.cons_append]
  | @tighter tier tokens expr looser phrase induction =>
      -- The phrase comes from the next tighter parser, whichever kind of tier this one is.
      refine ⟨?_, ?_, ?_⟩
      · intro isOperand
        exact absurd isOperand (Nat.ne_of_lt looser)
      · intro isSign rest
        subst isSign
        obtain ⟨head, tail, rfl, notMinus⟩ := phrase.head_of_operand rfl
        refine parseSigned_yields_iff.mpr (.inr ⟨?_, induction.operand rfl rest⟩)
        intro sign isHead
        cases isHead
        exact notMinus
      · intro group tighter isDrop rest stops result after continues
        obtain ⟨isGroup, isTighter⟩ := getElem?_of_drop isDrop
        have isLooser : tier + 1 ≤ signTier := (List.getElem?_eq_some_iff.mp isGroup).1
        have leftYields := induction.exact isLooser stops
        rw [isTighter] at leftYields
        exact parseGroups_cons_yields_iff.mpr ⟨expr, rest, leftYields, continues⟩

/-! ## The parser and the grammar -/

theorem parse_ok_iff_yields :
    parse tokens = .ok expr ↔ (parseGroups precedence tokens).Yields expr [] := by
  unfold parse parseAll parseFirst Parsed.Yields
  cases parsed : parseGroups precedence tokens with
  | mk result rest shrinks => cases result <;> cases rest <;> simp

theorem parseAll_of_phrase (phrase : Phrase 0 tokens expr) : parseAll tokens = (.ok expr, []) := by
  have yields := phrase.found.exact (Nat.zero_le _) stops_nil
  rw [List.append_nil] at yields
  have first : parseFirst tokens = (.ok expr, []) := Prod.ext yields.1 yields.2
  rw [parseAll, first]

theorem parse_of_phrase (phrase : Phrase 0 tokens expr) : parse tokens = .ok expr :=
  congrArg Prod.fst (parseAll_of_phrase phrase)

/-- The parser answers with an expression exactly if the tokens are a phrase of it, and they are
a phrase of one expression at most. -/
theorem parse_iff_phrase :
    (∀ tokens expr, parse tokens = .ok expr ↔ Phrase 0 tokens expr) ∧
      ∀ tokens expr other, Phrase 0 tokens expr → Phrase 0 tokens other → expr = other := by
  refine ⟨?_, ?_⟩
  · intro tokens expr
    constructor
    · intro parsed
      obtain ⟨front, split, phrase⟩ := takesPhrase_of_parse (parse_ok_iff_yields.mp parsed)
      rw [List.append_nil] at split
      rwa [split]
    · exact parse_of_phrase
  · intro tokens expr other phrase otherPhrase
    have same := (parse_of_phrase phrase).symm.trans (parse_of_phrase otherPhrase)
    exact Except.ok.inj same

end Expr

end TreeQuery
