import TreeQuery.Proofs.Token.Operators

/-!
Selectors joined by a comma.

No rule has a match that starts in a selector and goes on into the comma behind it, unless the
selector ends with a combinator or with white space that a name takes with it. So the tokens of
`a, b` are those of `a`, the comma, and those of `b` at other positions.
-/

namespace TreeQuery

namespace TokenRule

open Pattern

variable {rule taker : TokenRule} {sign c : Char} {word front back span text : List Char}
  {length : Nat}

/-- The comma, and the white space that no name takes with it. -/
def separators : List Char := [',', ' ', '\t', '\n', '\x0b', '\x0c', '\r']

theorem combinator_of_mem_signs (isSign : sign ∈ signs) :
    Combinator.ofSign? (String.ofList [sign]) ≠ none := by
  simp only [signs, List.mem_cons, List.not_mem_nil, or_false] at isSign
  rcases isSign with rfl | rfl | rfl <;> decide

/-- A text that ends neither with white space nor with a sign. -/
def Ends (text : List Char) : Prop :=
  ∃ first last, text = first ++ [last] ∧ isBlank last = false ∧ last ∉ signs

theorem Ends.of_append {first : List Char} (ends : Ends (first ++ text)) (nonempty : text ≠ []) :
    Ends text := by
  obtain ⟨before, last, spelled, notBlank, notSign⟩ := ends
  obtain ⟨init, other, rfl⟩ := exists_last nonempty
  rw [← List.append_assoc] at spelled
  obtain ⟨_, same⟩ := List.append_inj' spelled rfl
  cases same
  exact ⟨init, last, rfl, notBlank, notSign⟩

theorem Ends.apart (ends : Ends front) (separated : ∀ c ∈ back.head?, c ∈ separators) :
    Apart front back := by
  obtain ⟨first, last, rfl, notBlank, notSign⟩ := ends
  have isSeparator : ∀ c more, c :: more <+: back → c ∈ separators := by
    intro c more isPrefix
    obtain ⟨behind, rfl⟩ := isPrefix
    exact separated c rfl
  have isLast : ∀ c more, last ∈ first ++ [last] ++ c :: more := by simp
  refine ⟨?_, ?_, ?_, ?_⟩
  · intro c isHead
    have areGaps : separators.all (fun c => isBlank c || signs.contains c) = true := by decide
    have isGap := List.all_eq_true.mp areGaps c (separated c isHead)
    rwa [Bool.or_eq_true, List.contains_iff_mem] at isGap
  · intro c more isPrefix found
    have areApart : separators.all (fun c => !continuesName c) = true := by decide
    have notName := List.all_eq_true.mp areApart c (isSeparator c more isPrefix)
    have isTail : c ∈ (first ++ [last] ++ c :: more).tail := by
      cases first <;> simp
    have continues := continuesName_of_bareName found c isTail
    rw [continues] at notName
    cases notName
  · intro c more _ found
    cases notBlank.symm.trans (all_of_matches_atLeastOnce found last (isLast c more))
  · intro sign isSign c more _ found
    rcases isGap_of_spaced isSign found last (isLast c more) with blank | isSign
    · cases notBlank.symm.trans blank
    · exact notSign isSign

end TokenRule

/-! ## Tokens before a separator -/

namespace Cursor

variable {cursor after : Cursor} {token : Token} {found : List Token} {back : List Char}

/-- The tokens before a separator are those of the text alone. -/
theorem tokens_append (isSelector : cursor.grammar = .selector)
    (ends : cursor.rest ≠ [] → TokenRule.Ends cursor.rest)
    (separated : ∀ c ∈ back.head?, c ∈ TokenRule.separators)
    (lexed : cursor.tokens = .ok found) :
    (Cursor.mk .selector cursor.position (cursor.rest ++ back)).tokens =
      (Cursor.mk .selector (cursor.position + byteLength cursor.rest) back).tokens.map
        (found ++ ·) := by
  fun_induction tokens cursor generalizing found with
  | case1 cursor after finished =>
      cases lexed
      rw [(next_finished finished).2 isSelector, List.nil_append, byteLength_nil, Nat.add_zero]
      cases (Cursor.mk .selector cursor.position back).tokens <;> rfl
  | case2 => cases lexed
  | case3 cursor token after step induction =>
      obtain ⟨later, others, rfl⟩ := ok_of_map lexed
      have nonempty : cursor.rest ≠ [] := fun isNil => by
        have shorter := shorter_of_next step
        simp [isNil] at shorter
      obtain ⟨gap, span, spelled, sameGrammar, _, adjacent, position, read⟩ := next_token step
      rw [adjacent isSelector] at spelled position read
      rw [byteLength_nil, Nat.add_zero] at position read
      rw [isSelector, ← List.append_nil after.rest] at read
      have apart := (ends nonempty).apart separated
      rw [spelled] at apart
      have first := read.isNext_of_apart apart cursor.position
      have endsLater : after.rest ≠ [] → TokenRule.Ends after.rest := by
        have endsHere := ends nonempty
        rw [spelled] at endsHere
        exact endsHere.of_append
      have behind := induction (sameGrammar.trans isSelector) endsLater others
      have stop : after.position + byteLength after.rest =
          cursor.position + byteLength cursor.rest := by
        rw [position, spelled]
        simp [Nat.add_assoc]
      have isToken : token = ⟨token.kind, token.value, cursor.position⟩ := by
        rw [← read.position_eq]
      rw [spelled, List.nil_append] at stop
      rw [spelled, List.nil_append, List.append_assoc, tokens_of_next first, ← position, behind,
        stop, ← isToken]
      cases (Cursor.mk .selector _ back).tokens <;> rfl

end Cursor

/-! ## The joined text -/

/-- A token that ends with the sign of a combinator is the combinator. -/
theorem Token.ReadFrom.combinator_of_last {position : Nat} {span after : List Char} {token : Token}
    {c : Char} (read : token.ReadFrom .selector position span after)
    (isLast : span.getLast? = some c) (isSign : c ∈ TokenRule.signs) :
    token.kind = .operator ∧ Combinator.ofSign? token.value ≠ none := by
  cases read with
  | blob _ _ closes =>
      rw [Arguments.getLast?_of_splitFrom? closes] at isLast
      cases isLast
      exact absurd isSign (by decide)
  | @rule rule kind value notBlob takes isKind reads =>
      have spanMatches := takes.spanMatches
      have isMember := List.mem_of_getLast? isLast
      rcases TokenRule.rule_of_gap takes.isRule spanMatches isMember (.inr isSign) with
        isSpaced | rfl | rfl | rfl
      · obtain ⟨sign, isSpacedSign, rfl⟩ := isSpaced
        obtain ⟨before, behind, rfl, beforeBlank, behindBlank⟩ :=
          TokenRule.matches_spaced_iff.mp spanMatches
        cases isKind
        have trimmed := TokenRule.trimBlank_sign isSpacedSign beforeBlank behindBlank
        simp only [readValue, trimmed, List.isEmpty_cons, Bool.false_eq_true, if_false,
          Except.ok.injEq] at reads
        exact ⟨rfl, reads ▸ TokenRule.combinator_of_mem_signs isSpacedSign⟩
      · have isBlank := Pattern.all_of_matches_atLeastOnce spanMatches c isMember
        cases (TokenRule.not_blank_of_mem_signs isSign).symm.trans isBlank
      · exact absurd isMember (TokenRule.not_mem_bareName_of_sign isSign spanMatches)
      · obtain ⟨dot, name, rfl, _, nameMatches⟩ := TokenRule.exists_of_matches_dotted spanMatches
        obtain ⟨body, rfl, isBody⟩ := TokenRule.exists_of_matches_quoted nameMatches
        rw [List.getLast?_append, List.getLast?_cons, isBody.getLast?] at isLast
        cases isLast
        exact absurd isSign (by decide)

/-- A selector ends as its last token does. -/
theorem IsTiling.ends {start : Nat} {text : List Char} {pieces : List Piece} {tail : List Char}
    (tiling : IsTiling .selector start text pieces tail) (nonempty : text ≠ [])
    (kept : ∀ c ∈ text.getLast?, isBlank c = false)
    (noSign : ∀ token ∈ (pieces.map Piece.token).getLast?, token.kind = .operator →
      Combinator.ofSign? token.value = none) : TokenRule.Ends text := by
  obtain ⟨rfl, noGaps⟩ := tiling.adjacent rfl
  obtain ⟨first, last, rfl⟩ := exists_last nonempty
  refine ⟨first, last, rfl, kept last (by simp), ?_⟩
  intro isSign
  have spelled := tiling.spelled
  rw [List.append_nil] at spelled
  rcases List.eq_nil_or_concat pieces with rfl | ⟨before, piece, rfl⟩
  · simp [Piece.join] at spelled
  · have read := tiling.reads before piece [] (by simp)
    obtain ⟨spanFirst, spanLast, isSpan⟩ := exists_last read.span_ne_nil
    have sameLast : spanLast = last := by
      rw [Piece.join, List.concat_eq_append, List.flatMap_append, List.flatMap_singleton,
        noGaps piece (by simp), List.nil_append, isSpan, ← List.append_assoc] at spelled
      exact (List.append_singleton_inj.mp spelled).2
    have isLast : piece.span.getLast? = some last := by simp [isSpan, sameLast]
    have isCombinator := read.combinator_of_last isLast isSign
    exact isCombinator.2 (noSign piece.token (by simp) isCombinator.1)

/-- The white space at the end of a text. -/
def blankEnd (text : List Char) : List Char :=
  (text.reverse.takeWhile isBlank).reverse

theorem blankEnd_of_trims {front body back : List Char}
    (trims : Grammar.selector.Trims front body back) (nonempty : body ≠ []) :
    blankEnd (front ++ body ++ back) = back := by
  have lastKept : ∀ c ∈ (body.reverse ++ front.reverse).head?, isBlank c = false := by
    obtain ⟨first, last, rfl⟩ := exists_last nonempty
    intro c isHead
    refine trims.2.2.2 c ?_
    simpa using isHead
  have backReversed : ∀ c ∈ back.reverse, isBlank c = true := fun c isMember =>
    trims.2.1 c (List.mem_reverse.mp isMember)
  rw [blankEnd, List.reverse_append, List.reverse_append,
    List.takeWhile_append_of_pos backReversed, (dropWhile_takeWhile_of_kept lastKept).2,
    List.append_nil, List.reverse_reverse]

/-- White space that goes on no name separates. -/
theorem mem_separators {c : Char} (blank : isBlank c = true)
    (apart : TokenRule.continuesName c = false) : c ∈ TokenRule.separators := by
  have isAscii : c.toNat ≤ 0x7f := by
    simp only [TokenRule.continuesName, TokenRule.startsName, Bool.or_eq_false_iff,
      decide_eq_false_iff_not] at apart
    omega
  have isCode : c.toNat ∈ [9, 10, 11, 12, 13, 32] := by
    simp only [isBlank, blankRanges, List.any_cons, List.any_nil, Bool.or_false, Bool.or_eq_true,
      Bool.and_eq_true, decide_eq_true_eq] at blank
    simp only [List.mem_cons, List.not_mem_nil, or_false]
    omega
  have areSeparators : ∀ code ∈ [9, 10, 11, 12, 13, 32],
      Char.ofNat code ∈ TokenRule.separators := by decide
  have found := areSeparators c.toNat isCode
  rw [Char.ofNat_toNat] at found
  exact found

/-- The tokens of two selectors with a comma between them. -/
theorem tokenize_comma {first second : String} {firstTokens secondTokens : List Token}
    (firstLexed : tokenize .selector first = .ok firstTokens)
    (secondLexed : tokenize .selector second = .ok secondTokens)
    (firstNonempty : firstTokens ≠ []) (secondNonempty : secondTokens ≠ [])
    (noSign : ∀ token ∈ firstTokens.getLast?, token.kind = .operator →
      Combinator.ofSign? token.value = none)
    (apart : ∀ c ∈ (blankEnd first.toList).head?, TokenRule.continuesName c = false) :
    ∃ sign others,
      tokenize .selector (first ++ ", " ++ second) = .ok (firstTokens ++ sign :: others) ∧
        sign.content = (.operator, ",") ∧
          others.map Token.content = secondTokens.map Token.content := by
  obtain ⟨front, body, back, firstSpelled, firstTrims, bodyNonempty, firstRan⟩ :=
    exists_body_of_tokenize firstLexed firstNonempty
  obtain ⟨before, other, behind, secondSpelled, secondTrims, otherNonempty, secondRan⟩ :=
    exists_body_of_tokenize secondLexed secondNonempty
  have ends : TokenRule.Ends body := by
    obtain ⟨pieces, tail, rfl, tiling⟩ := Cursor.tokens_isTiling firstRan
    exact tiling.ends bodyNonempty firstTrims.2.2.2 noSign
  generalize isRest : back ++ ',' :: ' ' :: before ++ other = rest
  have separated : ∀ c ∈ rest.head?, c ∈ TokenRule.separators := by
    rw [firstSpelled, blankEnd_of_trims firstTrims bodyNonempty] at apart
    intro c isHead
    rw [← isRest, List.append_assoc, List.cons_append] at isHead
    cases back with
    | nil =>
        cases isHead
        decide
    | cons d back =>
        cases isHead
        exact mem_separators (firstTrims.2.1 c List.mem_cons_self) (apart c rfl)
  have spelled : (first ++ ", " ++ second).toList = front ++ (body ++ rest) ++ behind := by
    simp [firstSpelled, secondSpelled, ← isRest]
  have trims : Grammar.selector.Trims front (body ++ rest) behind := by
    refine ⟨firstTrims.1, secondTrims.2.1, head?_append_kept firstTrims.2.2.1 bodyNonempty _, ?_⟩
    obtain ⟨init, last, rfl⟩ := exists_last otherNonempty
    intro c isLast
    refine secondTrims.2.2.2 c ?_
    rw [← isRest, ← List.append_assoc, ← List.append_assoc, List.getLast?_concat] at isLast
    rw [List.getLast?_concat]
    exact isLast
  have behindComma : ∀ c ∈ ' ' :: before, isBlank c = true :=
    List.forall_mem_cons.mpr ⟨by decide, secondTrims.1⟩
  have comma : (Token.mk .operator "," 0).IsNext (back ++ ',' :: ' ' :: before) other :=
    .of_sign (by decide) firstTrims.2.1 behindComma secondTrims.2.2.1 rfl rfl
  have commaStep := comma (byteLength front + byteLength body)
  obtain ⟨others, othersRan, sameContent⟩ := Cursor.tokens_shift rfl secondRan
    (byteLength front + byteLength body + byteLength (back ++ ',' :: ' ' :: before))
  rw [isRest] at commaStep
  have lexed : tokenize .selector (first ++ ", " ++ second) = .ok (firstTokens ++
      ⟨.operator, ",", byteLength front + byteLength body⟩ :: others) := by
    have firstThenRest := Cursor.tokens_append rfl (fun _ => ends) separated firstRan
    rw [tokenize, spelled, Cursor.start_of_trims trims (by simp [bodyNonempty]), firstThenRest,
      Cursor.tokens_of_next commaStep, othersRan]
    rfl
  exact ⟨_, others, lexed, rfl, sameContent⟩

end TreeQuery
