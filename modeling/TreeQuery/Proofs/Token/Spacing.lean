import TreeQuery.Proofs.Token.Respacing

/-!
Other white space in selectors.

White space at the ends of a selector has no part in its tokens. Other white space in one of its
operators leaves the tokens as they are exactly if no name takes it, neither the word before it nor
a name that starts with it.
-/

namespace TreeQuery

open TokenRule

variable {span other front back : List Char} {position start : Nat} {c : Char}

/-- Whether no name takes the white space of an operator: not the word before it, and not a name
that starts with it. -/
structure StandsApart (before : List Piece) (span : List Char) (behind : List Piece) : Prop where
  ofWord : ∀ last ∈ before.getLast?, IsWord last.span last.token.kind →
    ∀ c ∈ span.head?, continuesName c = false
  ofName : (∀ c ∈ span, continuesName c = true) →
    ∀ c ∈ (Piece.join behind).head?, continuesName c = false

namespace IsTiling

variable {text : List Char} {pieces first before behind : List Piece} {piece : Piece}

theorem span_ne_nil (tiling : IsTiling .selector start text pieces []) (isPiece : piece ∈ pieces) :
    piece.span ≠ [] := by
  obtain ⟨before, behind, split⟩ := List.append_of_mem isPiece
  exact (tiling.reads before piece behind split).span_ne_nil

theorem join_split (tiling : IsTiling .selector start text pieces [])
    (split : pieces = before ++ piece :: behind) :
    Piece.join pieces = Piece.join before ++ (piece.span ++ Piece.join behind) := by
  have noGap := (tiling.adjacent rfl).2 piece (by simp [split])
  rw [split, Piece.join_append, Piece.join_cons, noGap, List.nil_append]

theorem eq_nil_of_join {middles : List Piece} (tiling : IsTiling .selector start text pieces [])
    (areIn : ∀ piece ∈ middles, piece ∈ pieces) (isNil : Piece.join middles = []) :
    middles = [] := by
  cases middles with
  | nil => rfl
  | cons piece middles =>
      rw [Piece.join_cons, List.append_eq_nil_iff, List.append_eq_nil_iff] at isNil
      exact absurd isNil.1.2 (tiling.span_ne_nil (areIn piece List.mem_cons_self))

/-- The tokens before an operator are read before other white space, unless a name takes it. -/
theorem tokens_before (tiling : IsTiling .selector start text pieces []) (middles : List Piece)
    (split : pieces = first ++ (middles ++ piece :: behind))
    (isOperator : piece.token.kind = .operator) (respaced : Respaced piece.span other)
    (noName : middles = [] → ∀ last ∈ first.getLast?, IsWord last.span last.token.kind →
      ∀ c ∈ other.head?, continuesName c = false) (position : Nat) :
    ∃ front, front.map Token.content = first.map (·.token.content) ∧
      (Cursor.mk .selector position
          (Piece.join first ++ (Piece.join middles ++ (other ++ Piece.join behind)))).tokens =
        (Cursor.mk .selector (position + byteLength (Piece.join first))
          (Piece.join middles ++ (other ++ Piece.join behind))).tokens.map (front ++ ·) := by
  have noGaps : ∀ piece ∈ pieces, piece.gap = [] := (tiling.adjacent rfl).2
  have noGapsFirst : ∀ piece ∈ first, piece.gap = [] :=
    fun piece isPiece => noGaps piece (by simp [split, isPiece])
  refine Cursor.tokens_of_pieces_append noGapsFirst ?_ position
  intro before last later firstSplit
  have read := tiling.reads before last (later ++ (middles ++ piece :: behind))
    (by rw [split, firstSplit, List.append_assoc, List.cons_append])
  have operatorRead := tiling.reads (first ++ middles) piece behind (by simp [split])
  have isGapText := (isOperator ▸ operatorRead.spelling).isGapText respaced.ne_star
  obtain ⟨c, others, rfl⟩ := List.exists_cons_of_ne_nil respaced.ne_nil
  obtain ⟨d, isHead, alike⟩ := respaced.head List.head?_cons
  obtain ⟨rest, isSpan⟩ := List.head?_eq_some_iff.mp isHead
  have isGap := (isGapText.respaced respaced).isGap c List.mem_cons_self
  simp only [Piece.join_append, Piece.join_cons, noGaps piece (by simp [split]), isSpan,
    List.nil_append, List.append_nil, List.cons_append] at read ⊢
  rw [← List.append_assoc] at read ⊢
  refine read.isNext_before_gap alike isGap fun notArgument isName => ?_
  refine Bool.eq_false_iff.mpr fun continues => ?_
  -- Such a name ends where its own span ends, so the operator stands right behind it.
  obtain ⟨isNil, isWord⟩ := read.isWord notArgument alike isGap isName continues
  obtain ⟨laterNil, middlesNil⟩ := List.append_eq_nil_iff.mp isNil
  have noLater := tiling.eq_nil_of_join
    (fun piece isPiece => by simp [split, firstSplit, isPiece]) laterNil
  have noMiddles := tiling.eq_nil_of_join
    (fun piece isPiece => by simp [split, isPiece]) middlesNil
  have isLast : first.getLast? = some last := by rw [firstSplit, noLater, List.getLast?_concat]
  cases (noName noMiddles last isLast isWord c rfl).symm.trans continues

theorem respaced_of_apart (tiling : IsTiling .selector start text pieces [])
    (split : pieces = before ++ piece :: behind) (isOperator : piece.token.kind = .operator)
    (respaced : Respaced piece.span other) (apart : StandsApart before other behind)
    (position : Nat) :
    ∃ others, (Cursor.mk .selector position
        (Piece.join before ++ (other ++ Piece.join behind))).tokens = .ok others ∧
      others.map Token.content = pieces.map (·.token.content) := by
  have noGaps : ∀ piece ∈ pieces, piece.gap = [] := (tiling.adjacent rfl).2
  have read := tiling.reads before piece behind split
  rw [List.append_nil] at read
  have isNext := read.isNext_respaced isOperator respaced apart.ofName
  have areNext : ∀ first last later, behind = first ++ last :: later →
      last.token.IsNext last.span (Piece.join later) := by
    intro first last later behindSplit
    have wholeSplit : pieces = (before ++ piece :: first) ++ last :: later := by
      rw [split, behindSplit, List.append_assoc, List.cons_append]
    exact tiling.isNext wholeSplit
  obtain ⟨front, sameFront, ran⟩ := tiling.tokens_before [] split isOperator respaced
    (fun _ => apart.ofWord) position
  obtain ⟨later, ranBehind, sameBehind⟩ := Cursor.tokens_of_pieces
    (fun piece isPiece => noGaps piece (by simp [split, isPiece])) areNext
    (position + byteLength (Piece.join before) + byteLength other)
  rw [Piece.join_nil, List.nil_append, Cursor.tokens_of_next (isNext _), ranBehind] at ran
  refine ⟨_, ran, ?_⟩
  rw [List.map_append, List.map_cons, sameFront, sameBehind, split, List.map_append, List.map_cons]
  rfl

/-- The tokens from a place before an operator on, in a text with other white space that has the
same tokens. -/
theorem exists_later {others : List Token} (tiling : IsTiling .selector start text pieces [])
    (middles : List Piece) (split : pieces = first ++ (middles ++ piece :: behind))
    (isOperator : piece.token.kind = .operator) (respaced : Respaced piece.span other)
    (noName : middles = [] → ∀ last ∈ first.getLast?, IsWord last.span last.token.kind →
      ∀ c ∈ other.head?, continuesName c = false)
    (ran : (Cursor.mk .selector position
        (Piece.join first ++ (Piece.join middles ++ (other ++ Piece.join behind)))).tokens =
      .ok others)
    (same : others.map Token.content = pieces.map (·.token.content)) :
    ∃ place later,
      (Cursor.mk .selector place (Piece.join middles ++ (other ++ Piece.join behind))).tokens =
          .ok later ∧
        later.map Token.content = (middles ++ piece :: behind).map (·.token.content) := by
  obtain ⟨front, sameFront, ranFront⟩ :=
    tiling.tokens_before middles split isOperator respaced noName position
  rw [ran] at ranFront
  generalize position + byteLength (Piece.join first) = place at ranFront
  cases ranLater : (Cursor.mk .selector place
      (Piece.join middles ++ (other ++ Piece.join behind))).tokens with
  | error error =>
      rw [ranLater] at ranFront
      cases ranFront
  | ok later =>
      rw [ranLater] at ranFront
      cases ranFront
      rw [List.map_append, split, List.map_append] at same
      have sameLength : (front.map Token.content).length =
          (first.map (·.token.content)).length := by rw [sameFront]
      exact ⟨place, later, ranLater, (List.append_inj same sameLength).2⟩

/-- No word goes on into the white space of an operator that is read. -/
theorem not_continuesName_of_word {last : Piece} {others : List Token}
    (tiling : IsTiling .selector start text pieces [])
    (split : pieces = first ++ ([last] ++ piece :: behind))
    (isOperator : piece.token.kind = .operator) (respaced : Respaced piece.span other)
    (ran : (Cursor.mk .selector position
        (Piece.join first ++ (Piece.join [last] ++ (other ++ Piece.join behind)))).tokens =
      .ok others)
    (same : others.map Token.content = pieces.map (·.token.content))
    (isWord : IsWord last.span last.token.kind) (isHead : other.head? = some c) :
    continuesName c = false := by
  refine Bool.eq_false_iff.mpr fun continues => ?_
  obtain ⟨place, later, ranLater, sameLater⟩ :=
    tiling.exists_later [last] split isOperator respaced (fun isNil => by cases isNil) ran same
  obtain ⟨span, after, _, token, spelled, read, sameKind, sameValue⟩ :=
    Cursor.exists_read ranLater sameLater
  have lastRead := tiling.reads first last (piece :: behind) split
  have longerMatches := isWord.matches_append lastRead.spelling continues
  have notArgument : token.kind ≠ .arguments := by
    rw [sameKind]
    exact isWord.ne_arguments
  have isPrefix : last.span ++ [c] <+: span ++ after := by
    obtain ⟨rest, rfl⟩ := List.head?_eq_some_iff.mp isHead
    rw [← spelled, Piece.join_cons, (tiling.adjacent rfl).2 last (by simp [split])]
    exact ⟨rest ++ Piece.join behind, by simp⟩
  obtain ⟨more, isSpan⟩ :=
    read.prefix_of_matches notArgument IsSelectorRule.bareName.mem isPrefix longerMatches
  have longer := read.spelling
  rw [sameKind, sameValue, ← isSpan, List.append_assoc, List.singleton_append] at longer
  exact isWord.not_longer lastRead.spelling longer

theorem apart_of_respaced {others : List Token} (tiling : IsTiling .selector start text pieces [])
    (split : pieces = before ++ piece :: behind) (isOperator : piece.token.kind = .operator)
    (respaced : Respaced piece.span other)
    (ran : (Cursor.mk .selector position
        (Piece.join before ++ (other ++ Piece.join behind))).tokens = .ok others)
    (same : others.map Token.content = pieces.map (·.token.content)) :
    StandsApart before other behind := by
  have noGaps : ∀ piece ∈ pieces, piece.gap = [] := (tiling.adjacent rfl).2
  have ofWord : ∀ last ∈ before.getLast?, IsWord last.span last.token.kind →
      ∀ c ∈ other.head?, continuesName c = false := by
    intro last isLast isWord c isHead
    obtain ⟨first, rfl⟩ := List.getLast?_eq_some_iff.mp isLast
    rw [Piece.join_append, List.append_assoc] at ran
    rw [List.append_assoc] at split
    exact tiling.not_continuesName_of_word split isOperator respaced ran same isWord isHead
  refine ⟨ofWord, ?_⟩
  intro areNames c isHead
  refine Bool.eq_false_iff.mpr fun continues => ?_
  obtain ⟨place, later, ranLater, sameLater⟩ :=
    tiling.exists_later [] split isOperator respaced (fun _ => ofWord) ran same
  obtain ⟨span, after, _, token, spelled, read, sameKind, sameValue⟩ :=
    Cursor.exists_read ranLater sameLater
  -- The token at the white space would take the character behind it too. No operator does: that
  -- character is no gap, since the operator in the text as it was left it alone.
  rw [isOperator] at sameKind
  have operatorRead := tiling.reads before piece behind split
  rw [List.append_nil] at operatorRead
  have isGapText := (isOperator ▸ operatorRead.spelling).isGapText respaced.ne_star
  have isOther := isGapText.respaced respaced
  have longerMatches := isOther.matches_append areNames continues
  have allBlank := respaced.symm.all_blank (isOther.all_blank areNames).2
  have notGap := operatorRead.not_gap_behind isOperator allBlank c isHead
  have isPrefix : other ++ [c] <+: span ++ after := by
    obtain ⟨rest, isBehind⟩ := List.head?_eq_some_iff.mp isHead
    rw [← spelled, isBehind]
    exact ⟨rest, by simp⟩
  obtain ⟨more, isSpan⟩ :=
    read.prefix_of_matches (by simp [sameKind]) IsSelectorRule.bareName.mem isPrefix longerMatches
  have notStar : span ≠ ['*'] := by
    intro isStar
    have sameLength := congrArg List.length (isSpan.trans isStar)
    have positive := List.length_pos_iff.mpr respaced.ne_nil
    simp only [List.length_append, List.length_cons, List.length_nil] at sameLength
    omega
  exact notGap (((sameKind ▸ read.spelling).isGapText notStar).isGap c (by simp [← isSpan]))

end IsTiling

/-! ## Texts with other white space -/

theorem Respaced.trims {left right : List Char} (respaced : Respaced span other)
    (trims : Grammar.selector.Trims front (left ++ (span ++ right)) back) :
    Grammar.selector.Trims front (left ++ (other ++ right)) back := by
  obtain ⟨frontBlank, backBlank, headKept, lastKept⟩ := trims
  refine ⟨frontBlank, backBlank, ?_, ?_⟩
  · intro c isHead
    cases left with
    | cons first left => exact headKept c isHead
    | nil =>
        obtain ⟨first, rest, isOther⟩ := List.exists_cons_of_ne_nil respaced.ne_nil
        have isFirst : other.head? = some c := by simpa [isOther] using isHead
        obtain ⟨d, isHeadBefore, alike⟩ := respaced.head isFirst
        exact alike.isKept (headKept d (by simp [isHeadBefore]))
  · intro c isLast
    rcases List.eq_nil_or_concat right with rfl | ⟨right, last, rfl⟩
    · obtain ⟨init, last, isOther⟩ := exists_last respaced.ne_nil
      have isEnd : other.getLast? = some c := by
        simpa [isOther, List.getLast?_append] using isLast
      obtain ⟨d, isLastBefore, alike⟩ := respaced.last isEnd
      exact alike.isKept (lastKept d (by simp [List.getLast?_append, isLastBefore]))
    · refine lastKept c ?_
      have same : last = c := by simpa [List.getLast?_append] using isLast
      simp [List.getLast?_append, same]

/-- Whether a text is a selector whose tokens have the kinds and values. -/
def LexesTo (contents : List (TokenKind × String)) (text : List Char) : Prop :=
  ∃ tokens, tokenize .selector (String.ofList text) = .ok tokens ∧
    tokens.map Token.content = contents

theorem lexesTo_iff {body : List Char} {contents : List (TokenKind × String)}
    (trims : Grammar.selector.Trims front body back) (nonempty : body ≠ []) :
    LexesTo contents (front ++ body ++ back) ↔
      ∃ tokens, (Cursor.mk .selector (byteLength front) body).tokens = .ok tokens ∧
        tokens.map Token.content = contents := by
  rw [LexesTo, tokenize, String.toList_ofList, Cursor.start_of_trims trims nonempty]

theorem lexesTo_nil {text : List Char} (blank : ∀ c ∈ text, isBlank c = true) :
    LexesTo [] text := by
  refine ⟨[], ?_, rfl⟩
  rw [tokenize, String.toList_ofList, Cursor.start, trimBlank_of_blank blank]
  exact Cursor.tokens_nil

/-- White space at the ends of a selector has no part in its tokens, and other white space in an
operator has none if it stands apart from the names around it. -/
theorem tokenize_respaced {text : String} {tokens : List Token}
    (lexed : tokenize .selector text = .ok tokens) :
    ∃ front pieces back, text.toList = front ++ Piece.join pieces ++ back ∧
      Grammar.selector.Trims front (Piece.join pieces) back ∧ pieces.map Piece.token = tokens ∧
      IsTiling .selector (byteLength front) (Piece.join pieces) pieces [] ∧
      (∀ otherFront otherBack, (∀ c ∈ otherFront ++ otherBack, isBlank c = true) →
        LexesTo (tokens.map Token.content) (otherFront ++ Piece.join pieces ++ otherBack)) ∧
      ∀ before piece behind other, pieces = before ++ piece :: behind →
        piece.token.kind = .operator → Respaced piece.span other →
          (LexesTo (tokens.map Token.content)
              (front ++ (Piece.join before ++ (other ++ Piece.join behind)) ++ back) ↔
            StandsApart before other behind) := by
  obtain ⟨front, body, back, spelled, trims, ran⟩ := exists_trimmed_of_tokenize lexed
  obtain ⟨pieces, tail, areTokens, tiling⟩ := Cursor.tokens_isTiling ran
  obtain ⟨rfl, noGaps⟩ := tiling.adjacent rfl
  have joined := tiling.spelled
  simp only [List.append_nil] at joined tiling
  rw [← joined] at spelled trims tiling
  refine ⟨front, pieces, back, spelled, trims, areTokens, tiling, ?_, ?_⟩
  · intro otherFront otherBack blank
    obtain ⟨otherFrontBlank, otherBackBlank⟩ := List.forall_mem_append.mp blank
    by_cases isNil : Piece.join pieces = []
    · have noPieces := tiling.eq_nil_of_join (fun _ isPiece => isPiece) isNil
      rw [← areTokens, noPieces, Piece.join_nil, List.append_nil]
      exact lexesTo_nil blank
    · have otherTrims : Grammar.selector.Trims otherFront (Piece.join pieces) otherBack :=
        ⟨otherFrontBlank, otherBackBlank, trims.2.2⟩
      rw [lexesTo_iff otherTrims isNil]
      rw [← joined] at ran
      exact Cursor.tokens_shift rfl ran (byteLength otherFront)
  · intro before piece behind other split isOperator respaced
    have otherTrims : Grammar.selector.Trims front
        (Piece.join before ++ (other ++ Piece.join behind)) back := by
      rw [tiling.join_split split] at trims
      exact respaced.trims trims
    rw [lexesTo_iff otherTrims (by simp [respaced.ne_nil]), ← areTokens, List.map_map]
    constructor
    · intro relexed
      obtain ⟨others, ranAgain, same⟩ := relexed
      exact tiling.apart_of_respaced split isOperator respaced ranAgain same
    · intro apart
      exact tiling.respaced_of_apart split isOperator respaced apart _

theorem tokenize_respaced_sign :
    tokenize .selector " a > b" = .ok [⟨.identifier, "a", 1⟩, ⟨.operator, ">", 2⟩,
        ⟨.identifier, "b", 5⟩] ∧
      ∃ front pieces back, " a > b".toList = front ++ Piece.join pieces ++ back ∧
        Grammar.selector.Trims front (Piece.join pieces) back ∧
        pieces.map Piece.token = [⟨.identifier, "a", 1⟩, ⟨.operator, ">", 2⟩,
          ⟨.identifier, "b", 5⟩] ∧
        IsTiling .selector (byteLength front) (Piece.join pieces) pieces [] ∧
        (∀ otherFront otherBack, (∀ c ∈ otherFront ++ otherBack, isBlank c = true) →
          LexesTo [(.identifier, "a"), (.operator, ">"), (.identifier, "b")]
            (otherFront ++ Piece.join pieces ++ otherBack)) ∧
        ∀ before piece behind other, pieces = before ++ piece :: behind →
          piece.token.kind = .operator → Respaced piece.span other →
            (LexesTo [(.identifier, "a"), (.operator, ">"), (.identifier, "b")]
                (front ++ (Piece.join before ++ (other ++ Piece.join behind)) ++ back) ↔
              StandsApart before other behind) := by
  have lexed : tokenize .selector " a > b" = .ok [⟨.identifier, "a", 1⟩, ⟨.operator, ">", 2⟩,
      ⟨.identifier, "b", 5⟩] := by
    decide +kernel
  exact ⟨lexed, tokenize_respaced lexed⟩

/-- A no-break space is white space, and a name goes on with it. -/
theorem tokenize_respaced_merges :
    tokenize .selector "a b" = .ok [⟨.identifier, "a", 0⟩, ⟨.operator, " ", 1⟩,
        ⟨.identifier, "b", 2⟩] ∧
      Respaced [' '] ['\u00a0'] ∧
        ¬ LexesTo [(.identifier, "a"), (.operator, " "), (.identifier, "b")]
          ['a', '\u00a0', 'b'] := by
  have isOneName : tokenize .selector (String.ofList ['a', '\u00a0', 'b']) =
      .ok [⟨.identifier, "a\u00a0b", 0⟩] := by
    decide +kernel
  have respaced : Respaced ([] ++ [' '] ++ []) ([] ++ ['\u00a0'] ++ []) :=
    .run (by simp) (by simp) (List.forall_mem_singleton.mpr (by decide))
      (List.forall_mem_singleton.mpr (by decide))
  refine ⟨by decide +kernel, respaced, ?_⟩
  intro lexes
  obtain ⟨tokens, lexed, same⟩ := lexes
  cases isOneName.symm.trans lexed
  exact absurd same (by decide)

end TreeQuery
