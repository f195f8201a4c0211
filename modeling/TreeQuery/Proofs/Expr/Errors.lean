import Mathlib.Data.List.Nodup
import TreeQuery.Proofs.Expr.Parsing
import TreeQuery.Proofs.Number.Reading

/-!
Errors of the expression parser.

An error is found at the first token that no other tokens behind it can make good. What is parsed
up to an error can always be completed: an operand ends what waits for one, and a parenthesis what
is open. And a parser looks at no token behind the one at which it stops, so an unexpected token
stays unexpected, whatever follows it.
-/

namespace TreeQuery

namespace Expr

variable {tokens rest before front : List Token} {expr left : Expr} {tier : Nat}
  {groups : List (List BinaryOperator)} {group : List BinaryOperator}
  {tighter : List (List BinaryOperator)} {error : ExprError}

/-! ## Completion -/

/-- Tokens that others behind them complete to a phrase of a tier. -/
def Completable (tier : Nat) (tokens : List Token) : Prop :=
  ∃ more expr, Phrase tier (tokens ++ more) expr

/-- Tokens at the start of a row that parses. -/
def Viable (tokens : List Token) : Prop :=
  ∃ more expr, parse (tokens ++ more) = .ok expr

theorem viable_iff_completable : Viable tokens ↔ Completable 0 tokens :=
  exists₂_congr fun _ _ => parse_iff_phrase.1 _ _

theorem Viable.of_append (viable : Viable (tokens ++ rest)) : Viable tokens := by
  obtain ⟨more, expr, parsed⟩ := viable
  exact ⟨rest ++ more, expr, by rwa [← List.append_assoc]⟩

namespace Completable

theorem looser {above : Nat} (completable : Completable above tokens) (isLooser : tier ≤ above)
    (isTier : above ≤ operandTier) : Completable tier tokens := by
  obtain ⟨count, rfl⟩ := Nat.exists_eq_add_of_le isLooser
  obtain ⟨more, expr, phrase⟩ := completable
  exact ⟨more, expr, phrase.looser isTier⟩

/-- Where nothing has been read yet, an operand completes every phrase. -/
theorem nil (isTier : tier ≤ operandTier) : Completable tier [] := by
  have operand : Completable operandTier [] :=
    ⟨[⟨.current, "x", 0⟩], .current, .atom (.current rfl)⟩
  exact operand.looser isTier (Nat.le_refl _)

theorem opened {opening : Token} (opens : opening.kind = .leftParen)
    (completable : Completable 0 tokens) : Completable operandTier (opening :: tokens) := by
  obtain ⟨more, expr, phrase⟩ := completable
  refine ⟨more ++ [⟨.rightParen, ")", 0⟩], expr, ?_⟩
  rw [List.cons_append, ← List.append_assoc]
  exact .group opens phrase rfl

theorem sign {sign : Token} (minus : isMinus sign = true)
    (completable : Completable signTier tokens) : Completable signTier (sign :: tokens) := by
  obtain ⟨more, expr, phrase⟩ := completable
  exact ⟨more, negated expr, phrase_negated minus phrase⟩

theorem binary {sign : Token} {operator : BinaryOperator}
    (isOperator : sign.kind = .binaryOperator) (isSymbol : sign.value = operator.symbol)
    (phrase : Phrase operator.tier front left)
    (completable : Completable (operator.tier + 1) tokens) :
    Completable operator.tier (front ++ sign :: tokens) := by
  obtain ⟨more, right, rightPhrase⟩ := completable
  refine ⟨more, .binary operator left right, ?_⟩
  rw [List.append_assoc, List.cons_append]
  exact .binary isOperator isSymbol phrase rightPhrase

end Completable

/-! ## What a parser leaves -/

theorem stops_congr {other : List Token} (same : tokens.head? = other.head?)
    (stops : Stops tier tokens) : Stops tier other := by
  intro token isHead
  exact stops token (same ▸ isHead)

/-- The loop over a group ends before a token that is no operator of its tier. -/
theorem stops_of_parseOperators (isGroup : precedence[tier]? = some group)
    (tighterStops : ∀ below right after, (parseGroups tighter below).Yields right after →
      Stops (tier + 1) after)
    (stops : Stops (tier + 1) tokens)
    (yields : (parseOperators group tighter left tokens).Yields expr rest) : Stops tier rest := by
  induction length : tokens.length using Nat.strongRecOn generalizing tokens left with
  | ind count induction =>
      subst length
      rcases parseOperators_yields_iff.mp yields with
        ⟨notNext, rfl, rfl⟩ | ⟨sign, below, operator, right, after, rfl, _, yieldsRight, continues⟩
      · intro token isHead operator isOperator isSymbol
        have isLooser := stops token isHead operator isOperator isSymbol
        have otherTier : operator.tier ≠ tier := by
          intro isTier
          have found := (operatorIn?_iff isGroup).mpr ⟨isOperator, isSymbol, isTier⟩
          cases (notNext token isHead).symm.trans found
        omega
      · have shorter := (parseGroups tighter below).shrinks
        rw [yieldsRight.2] at shorter
        exact induction after.length (Nat.lt_succ_of_le shorter)
          (tighterStops below right after yieldsRight) continues rfl

/-- A parser stops before a token that is no operator of its tier or a tighter one. -/
theorem stops_of_parseGroups (isDrop : precedence.drop tier = groups) (isTier : tier ≤ signTier)
    (yields : (parseGroups groups tokens).Yields expr rest) : Stops tier rest := by
  induction groups generalizing tier tokens expr rest with
  | nil =>
      have isSign : tier = signTier :=
        Nat.le_antisymm isTier (List.drop_eq_nil_iff.mp isDrop)
      intro token _ operator _ _
      rw [isSign]
      cases operator <;> decide
  | cons group tighter induction =>
      obtain ⟨isGroup, isTighter⟩ := getElem?_of_drop isDrop
      have isLooser : tier < signTier := (List.getElem?_eq_some_iff.mp isGroup).1
      obtain ⟨left, middle, yieldsLeft, continues⟩ := parseGroups_cons_yields_iff.mp yields
      exact stops_of_parseOperators isGroup (fun _ _ _ => induction isTighter isLooser)
        (induction isTighter isLooser yieldsLeft) continues

/-- What a parser reads is a phrase, and it reads the same before any other tokens on which it
stops. -/
theorem exists_phrase_of_yields (isTier : tier ≤ signTier)
    (yields : (parseGroups (precedence.drop tier) tokens).Yields expr rest) :
    ∃ front, tokens = front ++ rest ∧ Phrase tier front expr ∧ Stops tier rest ∧
      ∀ other, Stops tier other →
        (parseGroups (precedence.drop tier) (front ++ other)).Yields expr other := by
  have groupSound : SoundBelow precedence 0 tokens.length :=
    fun _ _ _ _ yieldsInner => takesPhrase_of_parse yieldsInner
  obtain ⟨front, split, phrase⟩ :=
    takesPhrase_of_parseGroups groupSound rfl isTier (Nat.le_refl _) yields
  exact ⟨front, split, phrase, stops_of_parseGroups rfl isTier yields,
    fun _ stops => phrase.found.exact isTier stops⟩

/-! ## How a parser fails -/

def Parsed.Fails {tokens : List Token} (parsed : Parsed tokens) (error : ExprError) : Prop :=
  parsed.result = .error error

theorem parseOperand_fails_iff :
    (parseOperand tokens).Fails error ↔
      (tokens = [] ∧ error = .unexpectedEnd) ∨
        (∃ token below, tokens = token :: below ∧ token.kind ≠ .leftParen ∧
          ofToken token = .error error) ∨
          ∃ opening inside, tokens = opening :: inside ∧ opening.kind = .leftParen ∧
            ((parseGroups precedence inside).Fails error ∨
              ∃ inner after, (parseGroups precedence inside).Yields inner after ∧
                (closeGroup inner after).1 = .error error) := by
  cases tokens with
  | nil => simp [parseOperand, Parsed.Fails, eq_comm]
  | cons token below =>
      rw [parseOperand]
      by_cases opens : token.kind = .leftParen
      · rw [if_pos opens]
        cases parsed : parseGroups precedence below with
        | mk result middle shrinks =>
            cases result with
            | error found => simp [Parsed.Fails, Parsed.Yields, parsed, opens]
            | ok inner => simp [Parsed.Fails, Parsed.Yields, parsed, opens]
      · rw [if_neg opens]
        simp [Parsed.Fails, opens]

theorem parseSigned_fails_iff :
    (parseSigned tokens).Fails error ↔
      (∃ sign below, tokens = sign :: below ∧ isMinus sign = true ∧
        (parseSigned below).Fails error) ∨
        ((∀ sign ∈ tokens.head?, isMinus sign = false) ∧ (parseOperand tokens).Fails error) := by
  cases tokens with
  | nil =>
      rw [parseSigned]
      simp
  | cons token below =>
      rw [parseSigned]
      by_cases minus : isMinus token = true
      · rw [if_pos minus]
        cases parsed : parseSigned below with
        | mk result after shrinks =>
            cases result <;> simp [Parsed.Fails, parsed, minus, Except.map]
      · rw [if_neg minus]
        simp [minus]

theorem parseGroups_nil_fails_iff :
    (parseGroups [] tokens).Fails error ↔ (parseSigned tokens).Fails error := by
  rw [parseGroups]

theorem parseGroups_cons_fails_iff :
    (parseGroups (group :: tighter) tokens).Fails error ↔
      (parseGroups tighter tokens).Fails error ∨
        ∃ left middle, (parseGroups tighter tokens).Yields left middle ∧
          (parseOperators group tighter left middle).Fails error := by
  rw [parseGroups]
  cases parsed : parseGroups tighter tokens with
  | mk result middle shrinks =>
      cases result with
      | error found => simp [Parsed.Fails, Parsed.Yields]
      | ok left => simp [Parsed.Fails, Parsed.Yields]

theorem parseOperators_fails_iff :
    (parseOperators group tighter left tokens).Fails error ↔
      ∃ sign below operator, tokens = sign :: below ∧ operatorIn? group sign = some operator ∧
        ((parseGroups tighter below).Fails error ∨
          ∃ right after, (parseGroups tighter below).Yields right after ∧
            (parseOperators group tighter (.binary operator left right) after).Fails error) := by
  cases tokens with
  | nil =>
      rw [parseOperators]
      simp [Parsed.Fails]
  | cons token below =>
      rw [parseOperators]
      cases found : operatorIn? group token with
      | none => simp [Parsed.Fails, found]
      | some operator =>
          cases parsed : parseGroups tighter below with
          | mk result after shrinks =>
              cases result with
              | error first => simp [Parsed.Fails, Parsed.Yields, found, parsed]
              | ok right =>
                  have yieldsRight : (parseGroups tighter below).Yields right after := by
                    rw [parsed]
                    exact ⟨rfl, rfl⟩
                  constructor
                  · intro fails
                    exact ⟨token, below, operator, rfl, found,
                      .inr ⟨right, after, yieldsRight, fails⟩⟩
                  · rintro ⟨_, _, _, same, isIn, fails | ⟨other, behind, others, continues⟩⟩
                    · cases same
                      cases fails.symm.trans yieldsRight.1
                    · cases same
                      rw [found] at isIn
                      cases isIn
                      obtain ⟨isRight, isAfter⟩ := yieldsRight.unique others
                      rw [← isRight, ← isAfter] at continues
                      exact continues

/-! ## Blame -/

/-- The texts of the number tokens can be read. -/
def Readable (tokens : List Token) : Prop :=
  ∀ token ∈ tokens, token.kind = .number → (Number.ofText? token.value).isSome = true

theorem Readable.of_append (readable : Readable (front ++ rest)) : Readable rest :=
  fun token isMember => readable token (List.mem_append_right front isMember)

theorem Readable.of_cons {token : Token} (readable : Readable (token :: rest)) : Readable rest :=
  fun other isMember => readable other (List.mem_cons_of_mem token isMember)

/-- An error of a parser is the fault of the place where it shows: what is before it, together with
what was read earlier, can be completed, and the token there fails whatever is behind it. -/
inductive Blames (fails : List Token → ExprError → Prop) (tier : Nat) (before : List Token) :
    List Token → ExprError → Prop where
  | atEnd {tokens : List Token} (completable : Completable tier (before ++ tokens)) :
      Blames fails tier before tokens .unexpectedEnd
  | atToken {front behind : List Token} {found : Token}
      (completable : Completable tier (before ++ front))
      (stays : ∀ other, fails (front ++ found :: other) (.unexpectedToken found)) :
      Blames fails tier before (front ++ found :: behind) (.unexpectedToken found)

/-- A parser that is run behind some tokens carries the blame on. -/
theorem Blames.behind {fails outerFails : List Token → ExprError → Prop} {outer : Nat}
    {outerBefore : List Token} (inside : List Token)
    (blames : Blames fails tier before tokens error)
    (completable : ∀ front, Completable tier (before ++ front) →
      Completable outer (outerBefore ++ (inside ++ front)))
    (stays : ∀ front found other,
      (∀ other, fails (front ++ found :: other) (.unexpectedToken found)) →
        (∃ behind, tokens = front ++ found :: behind) →
          outerFails (inside ++ (front ++ found :: other)) (.unexpectedToken found)) :
    Blames outerFails outer outerBefore (inside ++ tokens) error := by
  cases blames with
  | atEnd isCompletable => exact .atEnd (completable _ isCompletable)
  | @atToken front behind found isCompletable isStuck =>
      rw [← List.append_assoc]
      refine .atToken (completable _ isCompletable) fun other => ?_
      rw [List.append_assoc]
      exact stays front found other isStuck ⟨behind, rfl⟩

theorem Blames.atHead {fails : List Token → ExprError → Prop} {found : Token}
    {behind : List Token} (completable : Completable tier before)
    (stays : ∀ other, fails (found :: other) (.unexpectedToken found)) :
    Blames fails tier before (found :: behind) (.unexpectedToken found) := by
  rw [← List.nil_append (found :: behind)]
  exact .atToken (by rwa [List.append_nil]) stays

/-- The errors of the parser of some groups. -/
def GroupsFail (groups : List (List BinaryOperator)) (tokens : List Token)
    (error : ExprError) : Prop :=
  (parseGroups groups tokens).Fails error

theorem ofToken_error (readable : Readable [token]) (fails : ofToken token = .error error) :
    error = .unexpectedToken token := by
  unfold ofToken at fails
  split at fails
  · cases fails
  · cases fails
  · rename_i isNumber
    have reads := readable token (List.mem_singleton_self token) isNumber
    obtain ⟨value, isValue⟩ := Option.isSome_iff_exists.mp reads
    rw [isValue] at fails
    cases fails
  · cases fails
  · cases fails
    rfl

theorem closeGroup_error_iff :
    (closeGroup expr tokens).1 = .error error ↔
      (tokens = [] ∧ error = .unexpectedEnd) ∨
        ∃ token behind, tokens = token :: behind ∧ token.kind ≠ .rightParen ∧
          error = .unexpectedToken token := by
  cases tokens with
  | nil => simp [closeGroup, eq_comm]
  | cons token below =>
      by_cases closes : token.kind = .rightParen
      · simp [closeGroup, closes]
      · simp [closeGroup, closes, @eq_comm _ error]

section Blame

variable {size : Nat}

theorem blames_of_parseOperand
    (groupBlames : ∀ inside : List Token, inside.length < size → Readable inside →
      ∀ error, GroupsFail precedence inside error →
        Blames (GroupsFail precedence) 0 [] inside error)
    (fits : tokens.length ≤ size) (readable : Readable tokens)
    (fails : (parseOperand tokens).Fails error) :
    Blames (fun tokens error => (parseOperand tokens).Fails error) operandTier [] tokens
      error := by
  rcases parseOperand_fails_iff.mp fails with
    ⟨rfl, rfl⟩ | ⟨token, below, rfl, notOpening, isError⟩ | ⟨opening, inside, rfl, opens, fault⟩
  · exact .atEnd (.nil (Nat.le_refl _))
  · have single : Readable [token] := fun other isMember =>
      readable other (List.mem_cons.mpr (.inl (List.mem_singleton.mp isMember)))
    cases ofToken_error single isError
    exact .atHead (.nil (Nat.le_refl _)) fun other =>
      parseOperand_fails_iff.mpr (.inr (.inl ⟨token, other, rfl, notOpening, isError⟩))
  · rcases fault with innerFails | ⟨inner, after, yields, unclosed⟩
    · -- The fault is inside the parentheses.
      refine (groupBlames inside fits readable.of_cons error innerFails).behind
        [opening] (fun front completable => completable.opened opens) ?_
      intro front found other stays _
      exact parseOperand_fails_iff.mpr
        (.inr (.inr ⟨opening, _, rfl, opens, .inl (stays other)⟩))
    · obtain ⟨front, rfl, phrase, stops, exactly⟩ :=
        exists_phrase_of_yields (Nat.zero_le _) yields
      have isOpen : Completable operandTier (opening :: front) :=
        .opened opens ⟨[], inner, by rwa [List.append_nil]⟩
      rcases closeGroup_error_iff.mp unclosed with
        ⟨rfl, rfl⟩ | ⟨found, behind, rfl, notClosing, rfl⟩
      · exact .atEnd (by rwa [List.append_nil])
      · rw [← List.cons_append]
        refine .atToken isOpen fun other => ?_
        refine parseOperand_fails_iff.mpr (.inr (.inr ⟨opening, _, rfl, opens, .inr ⟨inner, _,
          exactly (found :: other) (stops_congr rfl stops), ?_⟩⟩))
        exact closeGroup_error_iff.mpr (.inr ⟨found, other, rfl, notClosing, rfl⟩)

theorem blames_of_parseSigned
    (groupBlames : ∀ inside : List Token, inside.length < size → Readable inside →
      ∀ error, GroupsFail precedence inside error →
        Blames (GroupsFail precedence) 0 [] inside error)
    (fits : tokens.length ≤ size) (readable : Readable tokens)
    (fails : (parseSigned tokens).Fails error) :
    Blames (fun tokens error => (parseSigned tokens).Fails error) signTier [] tokens error := by
  have ofOperand {tokens : List Token} (fits : tokens.length ≤ size) (readable : Readable tokens)
      (unsigned : ∀ sign ∈ tokens.head?, isMinus sign = false)
      (fails : (parseOperand tokens).Fails error) :
      Blames (fun tokens error => (parseSigned tokens).Fails error) signTier [] tokens error := by
    refine (blames_of_parseOperand groupBlames fits readable fails).behind []
      (fun front completable => completable.looser (by decide) (Nat.le_refl _)) ?_
    rintro front found other stays ⟨behind, rfl⟩
    refine parseSigned_fails_iff.mpr (.inr ⟨?_, stays other⟩)
    cases front <;> exact unsigned
  induction tokens with
  | nil =>
      rcases parseSigned_fails_iff.mp fails with ⟨_, _, isNil, _⟩ | ⟨unsigned, operandFails⟩
      · cases isNil
      · exact ofOperand fits readable unsigned operandFails
  | cons token below induction =>
      rcases parseSigned_fails_iff.mp fails with
        ⟨sign, behind, same, minus, signedFails⟩ | ⟨unsigned, operandFails⟩
      · cases same
        refine (induction (Nat.le_of_succ_le fits) readable.of_cons signedFails).behind [token]
          (fun front completable => completable.sign minus) ?_
        intro front found other stays _
        exact parseSigned_fails_iff.mpr (.inl ⟨token, _, rfl, minus, stays other⟩)
      · exact ofOperand fits readable unsigned operandFails

/-- The loop over a group fails behind a phrase of its tier, to which the operators that it takes
add. -/
theorem blames_of_parseOperators (isGroup : precedence[tier]? = some group)
    (isTighter : precedence.drop (tier + 1) = tighter)
    (tighterBlames : ∀ below : List Token, below.length ≤ size → Readable below →
      ∀ error, GroupsFail tighter below error →
        Blames (GroupsFail tighter) (tier + 1) [] below error)
    (fits : tokens.length ≤ size) (readable : Readable tokens)
    (phrase : Phrase tier before left)
    (fails : (parseOperators group tighter left tokens).Fails error) :
    Blames (fun tokens error => (parseOperators group tighter left tokens).Fails error) tier before
      tokens error := by
  have isLooser : tier < signTier := (List.getElem?_eq_some_iff.mp isGroup).1
  induction length : tokens.length using Nat.strongRecOn generalizing tokens before left with
  | ind count induction =>
      subst length
      obtain ⟨sign, below, operator, rfl, found, fault⟩ := parseOperators_fails_iff.mp fails
      obtain ⟨isOperator, isSymbol, rfl⟩ := (operatorIn?_iff isGroup).mp found
      rcases fault with rightFails | ⟨right, after, yields, continues⟩
      · refine (tighterBlames below (Nat.le_of_succ_le fits) readable.of_cons error
          rightFails).behind [sign]
          (fun front completable => completable.binary isOperator isSymbol phrase) ?_
        intro front wrong other stays _
        exact parseOperators_fails_iff.mpr ⟨sign, _, operator, rfl, found, .inl (stays other)⟩
      · rw [← isTighter] at yields
        obtain ⟨back, rfl, rightPhrase, stops, exactly⟩ := exists_phrase_of_yields isLooser yields
        rw [isTighter] at exactly
        rw [List.length_cons, List.length_append] at fits
        have shorter : after.length < (sign :: (back ++ after)).length := by
          rw [List.length_cons, List.length_append]
          omega
        have blames := induction after.length shorter (by omega) readable.of_cons.of_append
          (.binary isOperator isSymbol phrase rightPhrase) continues rfl
        refine blames.behind (sign :: back) (fun front completable => by simpa using completable) ?_
        rintro front wrong other stays ⟨behind, rfl⟩
        refine parseOperators_fails_iff.mpr ⟨sign, _, operator, rfl, found, .inr ⟨right, _,
          exactly _ (stops_congr ?_ stops), stays other⟩⟩
        cases front <;> rfl

theorem blames_of_parseGroups
    (groupBlames : ∀ inside : List Token, inside.length < size → Readable inside →
      ∀ error, GroupsFail precedence inside error →
        Blames (GroupsFail precedence) 0 [] inside error)
    (isDrop : precedence.drop tier = groups) (isTier : tier ≤ signTier)
    (fits : tokens.length ≤ size) (readable : Readable tokens)
    (fails : GroupsFail groups tokens error) :
    Blames (GroupsFail groups) tier [] tokens error := by
  induction groups generalizing tier tokens error with
  | nil =>
      have isSign : tier = signTier :=
        Nat.le_antisymm isTier (List.drop_eq_nil_iff.mp isDrop)
      rw [isSign]
      have blames :=
        blames_of_parseSigned groupBlames fits readable (parseGroups_nil_fails_iff.mp fails)
      refine blames.behind [] (fun _ completable => completable) ?_
      intro front found other stays _
      exact parseGroups_nil_fails_iff.mpr (stays other)
  | cons group tighter induction =>
      obtain ⟨isGroup, isTighter⟩ := getElem?_of_drop isDrop
      have isLooser : tier < signTier := (List.getElem?_eq_some_iff.mp isGroup).1
      rcases parseGroups_cons_fails_iff.mp fails with
        operandFails | ⟨left, middle, yields, continues⟩
      · refine (induction isTighter isLooser fits readable operandFails).behind []
          (fun _ completable =>
            completable.looser (Nat.le_succ _) (Nat.lt_succ_of_lt isLooser)) ?_
        intro front found other stays _
        exact parseGroups_cons_fails_iff.mpr (.inl (stays other))
      · rw [← isTighter] at yields
        obtain ⟨front, rfl, phrase, stops, exactly⟩ := exists_phrase_of_yields isLooser yields
        rw [isTighter] at exactly
        rw [List.length_append] at fits
        have looser : Phrase tier front left := .tighter (Nat.lt_succ_of_lt isLooser) phrase
        have tighterBlames (below : List Token) (fits : below.length ≤ size)
            (readable : Readable below) (error : ExprError)
            (fails : GroupsFail tighter below error) :
            Blames (GroupsFail tighter) (tier + 1) [] below error :=
          induction isTighter isLooser fits readable fails
        have blames := blames_of_parseOperators isGroup isTighter tighterBlames (by omega)
          readable.of_append looser continues
        refine blames.behind front (fun _ completable => completable) ?_
        rintro between found other stays ⟨behind, rfl⟩
        refine parseGroups_cons_fails_iff.mpr (.inr ⟨left, _,
          exactly _ (stops_congr ?_ stops), stays other⟩)
        cases between <;> rfl

end Blame

theorem blames_of_parse (readable : Readable tokens) (fails : GroupsFail precedence tokens error) :
    Blames (GroupsFail precedence) 0 [] tokens error := by
  induction length : tokens.length using Nat.strongRecOn generalizing tokens error with
  | ind size induction =>
      refine blames_of_parseGroups ?_ rfl (Nat.zero_le _) (Nat.le_of_eq length) readable fails
      intro inside fits readableInside found insideFails
      exact induction inside.length fits readableInside insideFails rfl

/-! ## The whole row -/

theorem parse_error_iff : parse tokens = .error error ↔
    GroupsFail precedence tokens error ∨ ∃ expr found behind,
      (parseGroups precedence tokens).Yields expr (found :: behind) ∧
        error = .unexpectedToken found := by
  unfold parse parseAll parseFirst GroupsFail Parsed.Fails Parsed.Yields
  dsimp only
  cases result : (parseGroups precedence tokens).result with
  | error found => simp
  | ok expr =>
      cases left : (parseGroups precedence tokens).rest with
      | nil => simp
      | cons found behind => simp [eq_comm]

theorem parse_blames (readable : Readable tokens) (failed : parse tokens = .error error) :
    Blames (fun tokens error => parse tokens = .error error) 0 [] tokens error := by
  rcases parse_error_iff.mp failed with fails | ⟨expr, found, behind, yields, rfl⟩
  · refine (blames_of_parse readable fails).behind [] (fun _ completable => completable) ?_
    intro front found other stays _
    exact parse_error_iff.mpr (.inl (stays other))
  · -- The expression is at its end, and yet a token is left.
    obtain ⟨front, rfl, phrase, stops, exactly⟩ := exists_phrase_of_yields (Nat.zero_le _) yields
    refine .atToken ⟨[], expr, by simpa using phrase⟩ fun other => ?_
    exact parse_error_iff.mpr
      (.inr ⟨expr, found, other, exactly _ (stops_congr rfl stops), rfl⟩)

theorem Viable.take_of_le {count other : Nat} (viable : Viable (tokens.take other))
    (isLess : count ≤ other) : Viable (tokens.take count) := by
  rw [← List.take_append_drop count (tokens.take other), List.take_take, Nat.min_eq_left isLess]
    at viable
  exact viable.of_append

/-- A failed parse is at the end of a viable row, or at the token with which a row ceases to be
viable. -/
theorem viable_of_parse_error (readable : Readable tokens) (failed : parse tokens = .error error) :
    (error = .unexpectedEnd ∧ Viable tokens) ∨
      ∃ (index : Nat) (inside : index < tokens.length), error = .unexpectedToken tokens[index] ∧
        Viable (tokens.take index) ∧ ¬Viable (tokens.take (index + 1)) := by
  cases parse_blames readable failed with
  | atEnd completable => exact .inl ⟨rfl, viable_iff_completable.mpr completable⟩
  | @atToken front behind found completable stays =>
      refine .inr ⟨front.length, by simp, by simp, ?_, ?_⟩
      · rw [List.take_left]
        exact viable_iff_completable.mpr completable
      · rw [List.take_length_add_append, List.take_succ_cons, List.take_zero]
        rintro ⟨more, expr, parsed⟩
        rw [List.append_assoc] at parsed
        cases (stays more).symm.trans parsed

theorem readable_of_tokenize {text : String} (lexed : tokenize .expression text = .ok tokens) :
    Readable tokens := by
  obtain ⟨front, body, back, pieces, tail, _, _, rfl, tiling⟩ := tokenize_isTiling lexed
  intro token isMember isNumber
  obtain ⟨piece, isPiece, rfl⟩ := List.mem_map.mp isMember
  obtain ⟨before, behind, split⟩ := List.append_of_mem isPiece
  have read := tiling.reads before piece behind split
  generalize piece.token = token at read isNumber
  cases read with
  | blob isSelector => cases isSelector
  | @rule rule kind value _ takes isKind reads =>
      cases isNumber
      cases reads
      have isRule : rule = ⟨TokenRule.unsignedNumber, some .number⟩ := by
        have rules := takes.isRule
        simp only [Grammar.rules, TokenRule.expressionRules, List.mem_cons, List.not_mem_nil,
          or_false] at rules
        rcases rules with rfl | rfl | rfl | rfl | rfl | rfl | rfl | rfl
        case inr.inr.inl => rfl
        all_goals cases isKind
      have spanMatches := takes.spanMatches
      rw [isRule] at spanMatches
      obtain ⟨decimal, isValue, _⟩ := Number.exists_decimal_of_matches spanMatches
      rw [Number.ofText?, String.toList_ofList, isValue]
      rfl

/-- No token stands at two places. -/
theorem nodup_of_tokenize {grammar : Grammar} {text : String}
    (lexed : tokenize grammar text = .ok tokens) : tokens.Nodup := by
  obtain ⟨front, body, back, pieces, tail, _, _, rfl, tiling⟩ := tokenize_isTiling lexed
  refine List.pairwise_map.mpr ((List.pairwise_map.mp tiling.increasing).imp ?_)
  intro piece later earlier same
  exact Nat.lt_irrefl _ (same ▸ earlier)

/-- The parser blames the first token that no other tokens behind it can make good, and the end of
the tokens where there is no such token. -/
theorem parse_error_iff_viable {text : String} (lexed : tokenize .expression text = .ok tokens) :
    (parse tokens = .error .unexpectedEnd ↔
        (¬∃ expr, parse tokens = .ok expr) ∧ Viable tokens) ∧
      (∀ (index : Nat) (inside : index < tokens.length),
        parse tokens = .error (.unexpectedToken tokens[index]) ↔
          Viable (tokens.take index) ∧ ¬Viable (tokens.take (index + 1))) ∧
        ∀ error, parse tokens = .error error →
          error = .unexpectedEnd ∨ ∃ found ∈ tokens, error = .unexpectedToken found := by
  have blamed {error : ExprError} (failed : parse tokens = .error error) :=
    viable_of_parse_error (readable_of_tokenize lexed) failed
  have whole (viable : Viable tokens) (count : Nat) : Viable (tokens.take count) := by
    rw [← List.take_append_drop count tokens] at viable
    exact viable.of_append
  refine ⟨⟨?_, ?_⟩, fun index inside => ⟨?_, ?_⟩, ?_⟩
  · intro failed
    rcases blamed failed with ⟨_, viable⟩ | ⟨_, _, other, _⟩
    · refine ⟨?_, viable⟩
      rintro ⟨expr, parsed⟩
      cases failed.symm.trans parsed
    · cases other
  · rintro ⟨notParsed, viable⟩
    cases failed : parse tokens with
    | ok expr => exact absurd ⟨expr, failed⟩ notParsed
    | error error =>
        rcases blamed failed with ⟨rfl, _⟩ | ⟨other, _, _, _, notViable⟩
        · rfl
        · exact absurd (whole viable (other + 1)) notViable
  · intro failed
    rcases blamed failed with ⟨other, _⟩ | ⟨other, insideToo, same, viable, notViable⟩
    · cases other
    · have isIndex : index = other :=
        (nodup_of_tokenize lexed).getElem_inj_iff.mp (ExprError.unexpectedToken.inj same)
      rw [isIndex]
      exact ⟨viable, notViable⟩
  · rintro ⟨viable, notViable⟩
    cases failed : parse tokens with
    | ok expr =>
        have viableAll : Viable tokens := ⟨[], expr, by rwa [List.append_nil]⟩
        exact absurd (whole viableAll (index + 1)) notViable
    | error error =>
        rcases blamed failed with ⟨_, viableAll⟩ | ⟨other, _, rfl, viableToo, notViableToo⟩
        · exact absurd (whole viableAll (index + 1)) notViable
        · have notBehind : ¬index < other := fun behind =>
            notViable (viableToo.take_of_le behind)
          have notBefore : ¬other < index := fun before =>
            notViableToo (viable.take_of_le before)
          have isIndex : other = index := by omega
          subst isIndex
          rfl
  · intro error failed
    rcases blamed failed with ⟨rfl, _⟩ | ⟨index, inside, rfl, _, _⟩
    · exact .inl rfl
    · exact .inr ⟨tokens[index], List.getElem_mem inside, rfl⟩

/-- No tokens make a closing parenthesis good that nothing has opened. -/
theorem parse_error_iff_viable_unopened :
    parse [⟨.current, "x", 0⟩, ⟨.rightParen, ")", 2⟩] =
        .error (.unexpectedToken ⟨.rightParen, ")", 2⟩) ∧
      Viable [⟨.current, "x", 0⟩] ∧ ¬Viable [⟨.current, "x", 0⟩, ⟨.rightParen, ")", 2⟩] := by
  have lexed : tokenize .expression "x )" =
      .ok [⟨.current, "x", 0⟩, ⟨.rightParen, ")", 2⟩] := by
    decide +kernel
  have operand : Phrase (0 + operandTier) [⟨.current, "x", 0⟩] .current := .atom (.current rfl)
  have phrase := operand.looser (Nat.le_refl _)
  have failed : parse [⟨.current, "x", 0⟩, ⟨.rightParen, ")", 2⟩] =
      .error (.unexpectedToken ⟨.rightParen, ")", 2⟩) :=
    parse_error_iff.mpr (.inr ⟨.current, _, [],
      phrase.found.exact (Nat.zero_le _) (stops_closing rfl), rfl⟩)
  exact ⟨failed, ((parse_error_iff_viable lexed).2.1 1 (by decide)).mp failed⟩

end Expr

end TreeQuery
