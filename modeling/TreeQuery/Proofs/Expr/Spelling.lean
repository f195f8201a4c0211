import TreeQuery.Proofs.Expr.Parsing
import TreeQuery.Proofs.Token.Literals

/-!
How the tokens of expressions are spelled.

How a text starts tells the rules of expressions apart. A token is read in full unless more of a
number or of an operator stands right behind it, and in an expression nothing of the kind does. So
the tokens of an expression, one after another with any white space around them, are lexed as they
are.
-/

namespace TreeQuery

open TokenRule

/-! ## The rules of expressions -/

namespace TokenRule

variable {rule other : TokenRule} {c : Char} {rest behind : List Char}

/-- The characters with which the texts of the rules start, by the kinds of the rules. -/
def expressionHeads : List (Option TokenKind × List Char) :=
  [(none, blankCodes.map Char.ofNat), (some .string, ['"']),
    (some .number, ['0', '1', '2', '3', '4', '5', '6', '7', '8', '9']),
    (some .keyword, ['t', 'f', 'n']), (some .current, ['x']),
    (some .binaryOperator, ['*', '/', '%', '+', '-', '<', '>', '$', '^', '=', '!', '&', '|']),
    (some .leftParen, ['(']), (some .rightParen, [')'])]

theorem exists_heads_of_matches (isRule : rule ∈ expressionRules)
    (found : rule.pattern.Matches (c :: rest)) :
    ∃ heads, (rule.kind, heads) ∈ expressionHeads ∧ c ∈ heads := by
  have ofWords {words : List String} {heads : List Char}
      (found : (oneWord words).Matches (c :: rest))
      (areHeads : ∀ word ∈ words, word.toList.head?.all heads.contains = true) : c ∈ heads := by
    obtain ⟨word, isWord, spelled⟩ := exists_of_matches_oneWord found
    have isHead := areHeads word isWord
    rw [← spelled] at isHead
    exact List.contains_iff_mem.mp isHead
  have ofChar {sign : Char} (found : (Pattern.char sign).Matches (c :: rest)) : c ∈ [sign] := by
    obtain ⟨d, spelled, isSign⟩ := Pattern.matches_one_iff.mp found
    cases spelled
    exact List.mem_singleton.mpr (beq_iff_eq.mp isSign)
  simp only [expressionRules, List.mem_cons, List.not_mem_nil, or_false] at isRule
  rcases isRule with rfl | rfl | rfl | rfl | rfl | rfl | rfl | rfl
  · have blank := (matches_atLeastOnce_one_iff.mp found).2 c List.mem_cons_self
    refine ⟨_, List.mem_cons_self, List.mem_map.mpr ⟨c.toNat, toNat_mem_blankCodes blank, ?_⟩⟩
    exact Char.ofNat_toNat c
  · obtain ⟨body, spelled, _⟩ := exists_of_matches_quoted found
    cases spelled
    exact ⟨['"'], by simp [expressionHeads], List.mem_singleton_self _⟩
  · obtain ⟨whole, others, spelled, areDigits, _⟩ := Pattern.matches_seq_iff.mp found
    obtain ⟨nonempty, areDigits⟩ := matches_atLeastOnce_one_iff.mp areDigits
    obtain ⟨first, behind, rfl⟩ := List.exists_cons_of_ne_nil nonempty
    cases spelled
    have isDigit := areDigits c List.mem_cons_self
    have notMinus : c ≠ '-' := by
      rintro rfl
      cases isDigit
    have isHead := (List.mem_cons.mp (mem_numberHeads_of_isDigit isDigit)).resolve_left notMinus
    exact ⟨_, by simp [expressionHeads], isHead⟩
  · exact ⟨['t', 'f', 'n'], by simp [expressionHeads], ofWords found (by decide)⟩
  · exact ⟨['x'], by simp [expressionHeads], ofChar found⟩
  · exact ⟨['*', '/', '%', '+', '-', '<', '>', '$', '^', '=', '!', '&', '|'],
      by simp [expressionHeads], ofWords found (by decide)⟩
  · exact ⟨['('], by simp [expressionHeads], ofChar found⟩
  · exact ⟨[')'], by simp [expressionHeads], ofChar found⟩

theorem matches_oneWord {words : List String} {word : String} (isWord : word ∈ words) :
    (oneWord words).Matches word.toList := by
  unfold oneWord Pattern.oneOf
  induction words with
  | nil => cases isWord
  | cons first others induction =>
      rcases List.mem_cons.mp isWord with rfl | isOther
      · exact .left (matches_text_iff.mpr rfl)
      · exact .right (induction isOther)

theorem matches_number {text : List Char} (isNumber : unsignedNumber.Matches text) :
    number.Matches text :=
  Pattern.matches_seq_iff.mpr ⟨[], text, rfl, .right .done, isNumber⟩

/-- The rules of expressions have different kinds. -/
theorem eq_of_kind (isRule : rule ∈ expressionRules) (isOther : other ∈ expressionRules)
    (same : rule.kind = other.kind) : rule = other := by
  simp only [expressionRules, List.mem_cons, List.not_mem_nil, or_false] at isRule isOther
  rcases isRule with rfl | rfl | rfl | rfl | rfl | rfl | rfl | rfl <;>
    rcases isOther with rfl | rfl | rfl | rfl | rfl | rfl | rfl | rfl <;>
      first
        | rfl
        | cases same

/-- How a text starts tells its rule. -/
theorem eq_of_head (isRule : rule ∈ expressionRules) (isOther : other ∈ expressionRules)
    (found : rule.pattern.Matches (c :: rest)) (foundToo : other.pattern.Matches (c :: behind)) :
    rule = other := by
  obtain ⟨heads, areHeads, isHead⟩ := exists_heads_of_matches isRule found
  obtain ⟨others, areOthers, isHeadToo⟩ := exists_heads_of_matches isOther foundToo
  have areApart : (expressionHeads.all fun first => expressionHeads.all fun second =>
      first.2.all fun c => !second.2.contains c || first.1 == second.1) = true := by decide
  have apart := List.all_eq_true.mp (List.all_eq_true.mp (List.all_eq_true.mp areApart
    _ areHeads) _ areOthers) c isHead
  rw [List.contains_iff_mem.mpr isHeadToo, Bool.not_true, Bool.false_or, beq_iff_eq] at apart
  exact eq_of_kind isRule isOther apart

end TokenRule

/-! ## The texts of tokens -/

/-- Whether a character may stand right behind a token of a kind. -/
def TokenKind.mayPrecede (kind : TokenKind) (c : Char) : Bool :=
  match kind with
  | .number => !(c.isDigit || c == 'e' || c == 'E' || c == '.')
  | .binaryOperator => c != '='
  | _ => true

theorem BinaryOperator.mem_all (operator : BinaryOperator) : operator ∈ all := by
  cases operator <;> decide

namespace Expr

/-- The texts of the tokens of a kind and a value. -/
inductive Spelling : List Char → TokenKind → String → Prop where
  | string {text value : List Char} (decodes : JsonString.decode? text = some value) :
      Spelling text .string (String.ofList value)
  | number {text : List Char} (isNumber : unsignedNumber.Matches text) :
      Spelling text .number (String.ofList text)
  | keyword {word : String} (isWord : word ∈ ["true", "false", "null"]) :
      Spelling word.toList .keyword word
  | current : Spelling ['x'] .current "x"
  | operator (operator : BinaryOperator) :
      Spelling operator.symbol.toList .binaryOperator operator.symbol
  | opening : Spelling ['('] .leftParen "("
  | closing : Spelling [')'] .rightParen ")"

namespace Spelling

variable {span behind more : List Char} {kind : TokenKind} {value : String} {position : Nat}

theorem readValue (spelling : Spelling span kind value) :
    readValue kind span position = .ok value := by
  cases spelling with
  | string decodes => simp [TreeQuery.readValue, readString, decodes]
  | number => rfl
  | keyword => simp [TreeQuery.readValue]
  | current => rfl
  | operator => simp [TreeQuery.readValue]
  | opening => rfl
  | closing => rfl

theorem eq_of_operator (spelling : Spelling span .binaryOperator value) : span = value.toList := by
  cases spelling
  rfl

theorem ne_nil (spelling : Spelling span kind value) : span ≠ [] := by
  cases spelling with
  | string decodes =>
      obtain ⟨body, spelled, _⟩ :=
        exists_of_matches_quoted (matches_isLiteral (JsonString.decode?_iff.mp decodes))
      rw [spelled]
      exact List.cons_ne_nil _ _
  | number isNumber => exact ne_nil_of_number (matches_number isNumber)
  | keyword isWord =>
      simp only [List.mem_cons, List.not_mem_nil, or_false] at isWord
      rcases isWord with rfl | rfl | rfl <;> decide
  | current => decide
  | operator operator => cases operator <;> decide
  | opening => decide
  | closing => decide

theorem eq_nil_of_quoted (isQuoted : quoted.Matches span) (found : quoted.Matches (span ++ more)) :
    more = [] := by
  have same := quoted_unique (matches_dotted (.inl rfl) isQuoted) (matches_dotted (.inl rfl) found)
    (List.prefix_append span more) (List.prefix_refl _)
  exact List.self_eq_append_right.mp same

theorem eq_nil_of_number (isNumber : unsignedNumber.Matches span)
    (apart : ∀ c ∈ more.head?, TokenKind.number.mayPrecede c = true)
    (found : unsignedNumber.Matches (span ++ more)) : more = [] := by
  cases more with
  | nil => rfl
  | cons c rest =>
      have isText := isNumberText_of_matches (matches_number isNumber)
      have goesOn := isText.goes_on (isNumberText_of_matches (matches_number found))
      have stands := apart c rfl
      simp only [TokenKind.mayPrecede, Bool.not_eq_true', Bool.or_eq_false_iff,
        beq_eq_false_iff_ne] at stands
      rcases goesOn with isDigit | isLetter | isLetter | ⟨isPoint, _⟩
      · cases stands.1.1.1.symm.trans isDigit
      · exact absurd isLetter stands.1.1.2
      · exact absurd isLetter stands.1.2
      · exact absurd isPoint stands.2

theorem eq_nil_of_keyword {word : String} (isWord : word ∈ ["true", "false", "null"])
    (found : (oneWord ["true", "false", "null"]).Matches (word.toList ++ more)) : more = [] := by
  obtain ⟨other, isOther, spelled⟩ := exists_of_matches_oneWord found
  have apart : ∀ word ∈ ["true", "false", "null"], ∀ other ∈ ["true", "false", "null"],
      word.toList <+: other.toList → other = word := by decide
  rw [apart word isWord other isOther ⟨more, spelled⟩] at spelled
  exact List.append_right_eq_self.mp spelled

/-- A longer operator has an equals sign behind a shorter one. -/
theorem eq_nil_of_symbol {operator : BinaryOperator}
    (apart : ∀ c ∈ more.head?, TokenKind.binaryOperator.mayPrecede c = true)
    (found : (oneWord (BinaryOperator.all.map BinaryOperator.symbol)).Matches
      (operator.symbol.toList ++ more)) : more = [] := by
  obtain ⟨symbol, isOther, spelled⟩ := exists_of_matches_oneWord found
  obtain ⟨other, _, rfl⟩ := List.mem_map.mp isOther
  have longer : ∀ operator ∈ BinaryOperator.all, ∀ other ∈ BinaryOperator.all,
      operator.symbol.toList <+: other.symbol.toList →
        other = operator ∨ other.symbol.toList = operator.symbol.toList ++ ['='] := by
    decide
  rcases longer operator operator.mem_all other other.mem_all ⟨more, spelled⟩ with
    rfl | isLonger
  · exact List.append_right_eq_self.mp spelled
  · rw [isLonger] at spelled
    rw [List.append_cancel_left spelled] at apart
    exact absurd (apart '=' rfl) (by decide)

/-- A rule matches the text of a token, and no longer text where only characters stand behind it
that may. -/
theorem exists_rule (spelling : Spelling span kind value) :
    ∃ rule ∈ expressionRules, rule.kind = some kind ∧ rule.pattern.Matches span ∧
      ∀ more, (∀ c ∈ more.head?, kind.mayPrecede c = true) →
        rule.pattern.Matches (span ++ more) → more = [] := by
  have ofChar {sign : Char} (more : List Char)
      (found : (Pattern.char sign).Matches ([sign] ++ more)) : more = [] := by
    obtain ⟨_, spelled, _⟩ := Pattern.matches_one_iff.mp found
    exact (List.cons.inj spelled).2
  cases spelling with
  | string decodes =>
      have isQuoted := matches_isLiteral (JsonString.decode?_iff.mp decodes)
      exact ⟨⟨quoted, some .string⟩, by simp [expressionRules], rfl, isQuoted,
        fun _ _ found => eq_nil_of_quoted isQuoted found⟩
  | number isNumber =>
      exact ⟨⟨unsignedNumber, some .number⟩, by simp [expressionRules], rfl, isNumber,
        fun _ apart found => eq_nil_of_number isNumber apart found⟩
  | keyword isWord =>
      exact ⟨⟨oneWord ["true", "false", "null"], some .keyword⟩, by simp [expressionRules], rfl,
        matches_oneWord isWord, fun _ _ found => eq_nil_of_keyword isWord found⟩
  | current =>
      exact ⟨⟨.char 'x', some .current⟩, by simp [expressionRules], rfl, .one rfl,
        fun more _ => ofChar more⟩
  | operator operator =>
      exact ⟨⟨oneWord (BinaryOperator.all.map BinaryOperator.symbol), some .binaryOperator⟩,
        by simp [expressionRules], rfl, matches_oneWord (List.mem_map_of_mem operator.mem_all),
        fun _ apart found => eq_nil_of_symbol apart found⟩
  | opening =>
      exact ⟨⟨.char '(', some .leftParen⟩, by simp [expressionRules], rfl, .one rfl,
        fun more _ => ofChar more⟩
  | closing =>
      exact ⟨⟨.char ')', some .rightParen⟩, by simp [expressionRules], rfl, .one rfl,
        fun more _ => ofChar more⟩

theorem longest? (spelling : Spelling span kind value)
    (apart : ∀ c ∈ behind.head?, kind.mayPrecede c = true) :
    ∃ rule, rule.kind = some kind ∧
      TokenRule.longest? expressionRules (span ++ behind) = some (rule, span.length) := by
  obtain ⟨rule, isRule, isKind, spanMatches, ends⟩ := spelling.exists_rule
  refine ⟨rule, isKind, longest?_of_unique isRule (List.prefix_append span behind) spelling.ne_nil
    spanMatches ?_⟩
  intro taker isTaker more isPrefix found
  obtain ⟨c, rest, rfl⟩ := List.exists_cons_of_ne_nil spelling.ne_nil
  have sameRule : taker = rule := eq_of_head isTaker isRule found spanMatches
  refine ⟨sameRule, ends more ?_ (sameRule ▸ found)⟩
  intro d isHead
  have isBehind : more <+: behind := (List.prefix_append_right_inj _).mp isPrefix
  obtain ⟨others, rfl⟩ := isBehind
  cases more with
  | nil => cases isHead
  | cons first more => exact apart d isHead

end Spelling

/-! ## Steps of the lexer -/

section Steps

variable {position length : Nat} {gap text span behind tail : List Char} {kind : TokenKind}
  {value : String} {rule : TokenRule} {pieces : List Piece}

theorem next_of_longest? (cursor : Cursor) (isExpression : cursor.grammar = .expression)
    (matched : TokenRule.longest? cursor.grammar.rules cursor.rest = some (rule, length)) :
    cursor.next = match rule.kind with
      | none => (cursor.advance length).next
      | some kind => cursor.nextOfRule kind length := by
  rw [Cursor.next]
  split
  · rename_i ended
    rw [ended] at matched
    have takes := TokenRule.takes_of_longest? matched
    exact absurd (List.prefix_nil.mp takes.isPrefix) takes.nonempty
  · rw [if_neg (by simp [isExpression])]
    split
    · rename_i found
      cases matched.symm.trans found
    · rename_i found
      cases matched.symm.trans found
      cases rule.kind <;> rfl

theorem longest?_gap (nonempty : gap ≠ []) (blank : ∀ c ∈ gap, isBlank c = true)
    (apart : ∀ c ∈ text.head?, isBlank c = false) :
    TokenRule.longest? expressionRules (gap ++ text) =
      some (⟨.atLeastOnce (.one isBlank), none⟩, gap.length) := by
  have isRule : ⟨.atLeastOnce (.one isBlank), none⟩ ∈ expressionRules := by
    simp [expressionRules]
  have gapMatches := matches_atLeastOnce_one_iff.mpr ⟨nonempty, blank⟩
  refine longest?_of_unique isRule (List.prefix_append gap text) nonempty gapMatches ?_
  intro taker isTaker more isPrefix found
  obtain ⟨c, rest, rfl⟩ := List.exists_cons_of_ne_nil nonempty
  have sameRule := eq_of_head isTaker isRule found gapMatches
  refine ⟨sameRule, ?_⟩
  rw [sameRule] at found
  obtain ⟨others, rfl⟩ := (List.prefix_append_right_inj _).mp isPrefix
  cases more with
  | nil => rfl
  | cons d more =>
      have isBlankToo := (matches_atLeastOnce_one_iff.mp found).2 d (by simp)
      cases (apart d rfl).symm.trans isBlankToo

/-- White space before a text is skipped. -/
theorem next_gap (blank : ∀ c ∈ gap, isBlank c = true)
    (apart : ∀ c ∈ text.head?, isBlank c = false) :
    (Cursor.mk .expression position (gap ++ text)).next =
      (Cursor.mk .expression (position + byteLength gap) text).next := by
  by_cases isNil : gap = []
  · rw [isNil]
    rfl
  · have matched := longest?_gap isNil blank apart
    rw [next_of_longest? ⟨.expression, position, gap ++ text⟩ rfl matched]
    simp only [Cursor.advance, List.take_left, List.drop_left]

theorem Spelling.not_blank (spelling : Spelling span kind value) :
    ∀ c ∈ span.head?, isBlank c = false := by
  intro c isHead
  obtain ⟨rule, isRule, isKind, spanMatches, _⟩ := spelling.exists_rule
  obtain ⟨rest, rfl⟩ := List.head?_eq_some_iff.mp isHead
  cases blank : isBlank c with
  | false => rfl
  | true =>
      have isBlanks : ⟨.atLeastOnce (.one isBlank), none⟩ ∈ expressionRules := by
        simp [expressionRules]
      have blankMatches : (Pattern.atLeastOnce (.one isBlank)).Matches [c] :=
        matches_atLeastOnce_one_iff.mpr ⟨by simp, by simpa using blank⟩
      rw [eq_of_head isRule isBlanks spanMatches blankMatches] at isKind
      cases isKind

theorem Spelling.next (spelling : Spelling span kind value)
    (blank : ∀ c ∈ gap, isBlank c = true)
    (apart : ∀ c ∈ behind.head?, kind.mayPrecede c = true) :
    (Cursor.mk .expression position (gap ++ span ++ behind)).next =
      .token ⟨kind, value, position + byteLength gap⟩
        ⟨.expression, position + byteLength gap + byteLength span, behind⟩ := by
  obtain ⟨rule, isKind, matched⟩ := spelling.longest? apart
  have notBlank : ∀ c ∈ (span ++ behind).head?, isBlank c = false := by
    obtain ⟨first, rest, rfl⟩ := List.exists_cons_of_ne_nil spelling.ne_nil
    exact spelling.not_blank
  rw [List.append_assoc, next_gap blank notBlank,
    next_of_longest? ⟨.expression, position + byteLength gap, span ++ behind⟩ rfl matched, isKind]
  simp only [Cursor.nextOfRule, List.take_left, spelling.readValue, Cursor.advance,
    List.drop_left]

theorem tokens_tail (blank : ∀ c ∈ tail, isBlank c = true) :
    (Cursor.mk .expression position tail).tokens = .ok [] := by
  have skipped : (Cursor.mk .expression position (tail ++ [])).next =
      (Cursor.mk .expression (position + byteLength tail) []).next :=
    next_gap blank (by simp)
  rw [List.append_nil] at skipped
  exact Cursor.tokens_of_finished (skipped.trans (Cursor.next_of_nil rfl))

end Steps

/-! ## Tokens next to each other -/

/-- Two tokens that stand next to each other in an expression. -/
def Touching (first second : Token) : Prop :=
  (first.kind = .number → second.kind = .binaryOperator ∨ second.kind = .rightParen) ∧
    (first.kind = .binaryOperator → second.kind = .binaryOperator → second.value = "-")

theorem mayPrecede_of_blank {kind : TokenKind} {c : Char} (blank : isBlank c = true) :
    kind.mayPrecede c = true := by
  have isMember : c ∈ blankCodes.map Char.ofNat :=
    List.mem_map.mpr ⟨c.toNat, toNat_mem_blankCodes blank, Char.ofNat_toNat c⟩
  have ofNumber : (blankCodes.map Char.ofNat).all TokenKind.number.mayPrecede = true := by decide
  have ofOperator : (blankCodes.map Char.ofNat).all TokenKind.binaryOperator.mayPrecede = true := by
    decide
  cases kind with
  | number => exact List.all_eq_true.mp ofNumber c isMember
  | binaryOperator => exact List.all_eq_true.mp ofOperator c isMember
  | _ => rfl

theorem Touching.mayPrecede {first second : Token} {span : List Char}
    (touching : Touching first second) (spelling : Spelling span second.kind second.value) :
    ∀ c ∈ span.head?, first.kind.mayPrecede c = true := by
  intro c isHead
  obtain ⟨rule, isRule, isKind, spanMatches, _⟩ := spelling.exists_rule
  obtain ⟨rest, rfl⟩ := List.head?_eq_some_iff.mp isHead
  obtain ⟨heads, areHeads, isMember⟩ := exists_heads_of_matches isRule spanMatches
  rw [isKind] at areHeads
  cases isFirst : first.kind with
  | number =>
      have apart : ∀ entry ∈ expressionHeads, entry.1 = some .binaryOperator ∨
          entry.1 = some .rightParen → entry.2.all TokenKind.number.mayPrecede = true := by
        decide
      have isApart := apart _ areHeads ((touching.1 isFirst).imp (congrArg some) (congrArg some))
      exact List.all_eq_true.mp isApart c isMember
  | binaryOperator =>
      by_cases isOperator : second.kind = .binaryOperator
      · rw [isOperator, touching.2 isFirst isOperator] at spelling
        cases spelling.eq_of_operator
        rfl
      · have apart : ∀ entry ∈ expressionHeads, entry.1 ≠ some .binaryOperator →
            entry.2.all TokenKind.binaryOperator.mayPrecede = true := by
          decide
        have isApart := apart _ areHeads fun same => isOperator (Option.some.inj same)
        exact List.all_eq_true.mp isApart c isMember
  | _ => rfl

theorem tokens_of_spelled {pieces : List Piece} {tail : List Char}
    (spelled : ∀ piece ∈ pieces, Spelling piece.span piece.token.kind piece.token.value)
    (gapsBlank : ∀ piece ∈ pieces, ∀ c ∈ piece.gap, isBlank c = true)
    (tailBlank : ∀ c ∈ tail, isBlank c = true)
    (touching : (pieces.map Piece.token).IsChain Touching) (position : Nat) :
    ∃ found, (Cursor.mk .expression position (Piece.join pieces ++ tail)).tokens = .ok found ∧
      found.map Token.content = pieces.map (·.token.content) := by
  induction pieces generalizing position with
  | nil => exact ⟨[], tokens_tail tailBlank, rfl⟩
  | cons piece pieces induction =>
      obtain ⟨spelling, spelledBehind⟩ := List.forall_mem_cons.mp spelled
      obtain ⟨gapBlank, gapsBehind⟩ := List.forall_mem_cons.mp gapsBlank
      have apart : ∀ c ∈ (Piece.join pieces ++ tail).head?,
          piece.token.kind.mayPrecede c = true := by
        intro c isHead
        cases pieces with
        | nil => exact mayPrecede_of_blank (tailBlank c (List.mem_of_head? isHead))
        | cons next others =>
            rw [Piece.join_cons, List.append_assoc, List.append_assoc] at isHead
            cases isGap : next.gap with
            | nil =>
                have nextSpelling := spelledBehind next List.mem_cons_self
                rw [isGap, List.nil_append, List.head?_append_of_ne_nil _ nextSpelling.ne_nil]
                  at isHead
                exact (List.isChain_cons_cons.mp touching).1.mayPrecede nextSpelling c isHead
            | cons d rest =>
                rw [isGap] at isHead
                cases isHead
                exact mayPrecede_of_blank (gapsBehind next List.mem_cons_self _ (by simp [isGap]))
      obtain ⟨found, lexed, sameContent⟩ := induction spelledBehind gapsBehind touching.tail
        (position + byteLength piece.gap + byteLength piece.span)
      have first : (Cursor.mk .expression position
          (piece.gap ++ piece.span ++ (Piece.join pieces ++ tail))).next = _ :=
        spelling.next gapBlank apart
      refine ⟨⟨piece.token.kind, piece.token.value, position + byteLength piece.gap⟩ :: found,
        ?_, ?_⟩
      · rw [Piece.join_cons, List.append_assoc, Cursor.tokens_of_next first, lexed]
        rfl
      · rw [List.map_cons, List.map_cons, sameContent]
        rfl

/-- How the tokens of a phrase stand next to each other, and at its ends. -/
structure Touches (tokens : List Token) : Prop where
  nonempty : tokens ≠ []
  starts : ∀ first ∈ tokens.head?, first.kind = .binaryOperator → first.value = "-"
  ends : ∀ last ∈ tokens.getLast?, last.kind ≠ .binaryOperator
  chain : tokens.IsChain Touching

namespace Touches

variable {front back tokens : List Token} {token : Token}

theorem single (notOperator : token.kind ≠ .binaryOperator) : Touches [token] where
  nonempty := List.cons_ne_nil _ _
  starts := fun first isHead isOperator => by
    cases isHead
    exact absurd isOperator notOperator
  ends := fun last isLast => by
    cases isLast
    exact notOperator
  chain := .singleton _

/-- An operator before a phrase: a minus sign, or one behind another phrase. -/
theorem cons (isOperator : token.kind = .binaryOperator) (isMinus : token.value = "-")
    (touches : Touches tokens) : Touches (token :: tokens) where
  nonempty := List.cons_ne_nil _ _
  starts := fun first isHead _ => by
    cases isHead
    exact isMinus
  ends := fun last isLast => by
    rw [List.getLast?_cons_of_ne_nil touches.nonempty] at isLast
    exact touches.ends last isLast
  chain := touches.chain.cons fun second isHead =>
    ⟨fun isNumber => by simp [isOperator] at isNumber, fun _ => touches.starts second isHead⟩

theorem binary (isOperator : token.kind = .binaryOperator) (first : Touches front)
    (second : Touches back) : Touches (front ++ token :: back) where
  nonempty := List.append_ne_nil_of_left_ne_nil first.nonempty _
  starts := by
    rw [List.head?_append_of_ne_nil _ first.nonempty]
    exact first.starts
  ends := by
    rw [List.getLast?_append_of_ne_nil _ (List.cons_ne_nil _ _),
      List.getLast?_cons_of_ne_nil second.nonempty]
    exact second.ends
  chain := by
    have signed : (token :: back).IsChain Touching := second.chain.cons fun next isHead =>
      ⟨fun isNumber => by simp [isOperator] at isNumber, fun _ => second.starts next isHead⟩
    refine List.isChain_append.mpr ⟨first.chain, signed, ?_⟩
    intro last isLast sign isSign
    cases isSign
    exact ⟨fun _ => .inl isOperator, fun isAlso => absurd isAlso (first.ends last isLast)⟩

theorem group {opening closing : Token} (opens : opening.kind = .leftParen)
    (closes : closing.kind = .rightParen) (inner : Touches tokens) :
    Touches (opening :: (tokens ++ [closing])) where
  nonempty := List.cons_ne_nil _ _
  starts := fun first isHead isOperator => by
    cases isHead
    rw [opens] at isOperator
    cases isOperator
  ends := fun last isLast => by
    rw [← List.cons_append, List.getLast?_concat] at isLast
    cases isLast
    simp [closes]
  chain := by
    have closed : (tokens ++ [closing]).IsChain Touching := by
      refine List.isChain_append.mpr ⟨inner.chain, .singleton _, ?_⟩
      intro last isLast next isNext
      cases isNext
      exact ⟨fun _ => .inr closes, fun isAlso => absurd isAlso (inner.ends last isLast)⟩
    exact closed.cons fun _ _ => ⟨fun isNumber => by simp [opens] at isNumber,
      fun isOperator => by simp [opens] at isOperator⟩

end Touches

theorem Phrase.touches {tier : Nat} {tokens : List Token} {expr : Expr}
    (phrase : Phrase tier tokens expr) : Touches tokens := by
  induction phrase with
  | atom isAtom => exact .single (by cases isAtom <;> simp [*])
  | group opens _ closes induction => exact .group opens closes induction
  | minusNumber isOperator isMinus _ induction => exact .cons isOperator isMinus induction
  | minus isOperator isMinus _ _ induction => exact .cons isOperator isMinus induction
  | binary isOperator _ _ _ onLeft onRight => exact .binary isOperator onLeft onRight
  | tighter _ _ induction => exact induction

/-! ## Reading a spelled expression -/

theorem Atom.congr {token other : Token} {expr : Expr} (isAtom : Atom token expr)
    (same : other.content = token.content) : Atom other expr := by
  obtain ⟨sameKind, sameValue⟩ := Token.content_eq_iff.mp same
  cases isAtom with
  | current kind => exact .current (sameKind.trans kind)
  | string kind => exact sameValue ▸ .string (sameKind.trans kind)
  | number kind reads => exact .number (sameKind.trans kind) (sameValue ▸ reads)
  | true kind word => exact .true (sameKind.trans kind) (sameValue.trans word)
  | false kind word => exact .false (sameKind.trans kind) (sameValue.trans word)
  | null kind notTrue notFalse =>
      exact .null (sameKind.trans kind) (sameValue ▸ notTrue) (sameValue ▸ notFalse)

/-- A phrase is told by the kinds and the values of its tokens. -/
theorem Phrase.congr {tier : Nat} {tokens others : List Token} {expr : Expr}
    (phrase : Phrase tier tokens expr)
    (same : others.map Token.content = tokens.map Token.content) : Phrase tier others expr := by
  induction phrase generalizing others with
  | atom isAtom =>
      obtain ⟨token, rfl, sameToken⟩ := List.map_eq_singleton_iff.mp same
      exact .atom (isAtom.congr sameToken)
  | group opens _ closes induction =>
      obtain ⟨first, behind, rfl, sameFirst, sameBehind⟩ := List.map_eq_cons_iff.mp same
      rw [List.map_append] at sameBehind
      obtain ⟨inside, back, rfl, sameInside, sameBack⟩ := List.map_eq_append_iff.mp sameBehind
      obtain ⟨last, rfl, sameLast⟩ := List.map_eq_singleton_iff.mp sameBack
      exact .group ((Token.content_eq_iff.mp sameFirst).1.trans opens) (induction sameInside)
        ((Token.content_eq_iff.mp sameLast).1.trans closes)
  | minusNumber isOperator isMinus _ induction =>
      obtain ⟨sign, behind, rfl, sameSign, sameBehind⟩ := List.map_eq_cons_iff.mp same
      obtain ⟨sameKind, sameValue⟩ := Token.content_eq_iff.mp sameSign
      exact .minusNumber (sameKind.trans isOperator) (sameValue.trans isMinus)
        (induction sameBehind)
  | minus isOperator isMinus _ notNumber induction =>
      obtain ⟨sign, behind, rfl, sameSign, sameBehind⟩ := List.map_eq_cons_iff.mp same
      obtain ⟨sameKind, sameValue⟩ := Token.content_eq_iff.mp sameSign
      exact .minus (sameKind.trans isOperator) (sameValue.trans isMinus) (induction sameBehind)
        notNumber
  | binary isOperator isSymbol _ _ onLeft onRight =>
      rw [List.map_append] at same
      obtain ⟨front, back, rfl, sameFront, sameBack⟩ := List.map_eq_append_iff.mp same
      obtain ⟨sign, behind, rfl, sameSign, sameBehind⟩ := List.map_eq_cons_iff.mp sameBack
      obtain ⟨sameKind, sameValue⟩ := Token.content_eq_iff.mp sameSign
      exact .binary (sameKind.trans isOperator) (sameValue.trans isSymbol) (onLeft sameFront)
        (onRight sameBehind)
  | tighter looser _ induction => exact .tighter looser (induction same)

/-- A phrase whose tokens are spelled one after another, with any white space around them, is read
as its expression. -/
theorem ofText_of_phrase {pieces : List Piece} {tail : List Char} {text : String} {expr : Expr}
    (phrase : Phrase 0 (pieces.map Piece.token) expr)
    (spelled : ∀ piece ∈ pieces, Spelling piece.span piece.token.kind piece.token.value)
    (gapsBlank : ∀ piece ∈ pieces, ∀ c ∈ piece.gap, isBlank c = true)
    (tailBlank : ∀ c ∈ tail, isBlank c = true)
    (isText : text.toList = Piece.join pieces ++ tail) : ofText text = .ok expr := by
  obtain ⟨found, lexed, sameContent⟩ :=
    tokens_of_spelled spelled gapsBlank tailBlank phrase.touches.chain 0
  have tokenized : tokenize .expression text = .ok found := by
    rw [tokenize, isText]
    exact lexed
  have same : found.map Token.content = (pieces.map Piece.token).map Token.content := by
    rw [sameContent, List.map_map]
    rfl
  rw [ofText, tokenized]
  exact parse_of_phrase (phrase.congr same)

end Expr

end TreeQuery
