import TreeQuery.Proofs.Token.Scanning

/-!
Reading tokens again.

The lexer reads a token from a span in the same way wherever the span stands. So a text of spans
has the tokens of the spans if each span is read in full before the others behind it.
-/

namespace TreeQuery

variable {position : Nat} {span after behind : List Char} {token : Token}

namespace Cursor

theorem readValue_shift {kind : TokenKind} {text : List Char} {value : String}
    (reads : readValue kind text position = .ok value) (other : Nat) :
    readValue kind text other = .ok value := by
  have readString_shift : ∀ {text : List Char}, readString text position = .ok value →
      readString text other = .ok value := by
    intro text reads
    unfold readString at reads ⊢
    split at reads
    · exact reads
    · cases reads
  have readName_shift : ∀ name : List Char,
      (if name.head? = some '"' then readString name position else .ok (String.ofList name)) =
          .ok value →
        (if name.head? = some '"' then readString name other else .ok (String.ofList name)) =
          .ok value := by
    intro name reads
    by_cases isQuoted : name.head? = some '"'
    · rw [if_pos isQuoted] at reads ⊢
      exact readString_shift reads
    · rw [if_neg isQuoted] at reads ⊢
      exact reads
  cases kind with
  | identifier => exact readName_shift _ reads
  | string => exact readString_shift reads
  | _ => exact reads

end Cursor

/-- Whether the lexer reads a token from a span before a text, wherever they stand. -/
def Token.IsNext (token : Token) (span behind : List Char) : Prop :=
  ∀ position, (Cursor.mk .selector position (span ++ behind)).next =
    .token ⟨token.kind, token.value, position⟩ ⟨.selector, position + byteLength span, behind⟩

namespace Token.IsNext

theorem of_longest? {rule : TokenRule} (notBlob : span.head? ≠ some '(') (nonempty : span ≠ [])
    (matched : TokenRule.longest? TokenRule.selectorRules (span ++ behind) =
      some (rule, span.length))
    (isKind : rule.kind = some token.kind)
    (reads : readValue token.kind span position = .ok token.value) : token.IsNext span behind := by
  intro other
  have notOpening : (span ++ behind).head? ≠ some '(' := by
    obtain ⟨first, rest, rfl⟩ := List.exists_cons_of_ne_nil nonempty
    exact notBlob
  rw [Cursor.next_of_longest? ⟨.selector, other, span ++ behind⟩ notOpening matched isKind,
    Cursor.nextOfRule]
  simp only [List.take_left, Cursor.readValue_shift reads other, Cursor.advance, List.drop_left]

theorem of_split? (isArgument : token.kind = .arguments) (isSpan : token.value = String.ofList span)
    (opens : span.head? = some '(')
    (closes : Arguments.split? (span ++ behind) = some (span, behind)) :
    token.IsNext span behind := by
  intro position
  obtain ⟨inner, rfl⟩ := List.head?_eq_some_iff.mp opens
  rw [isArgument, isSpan]
  exact Cursor.next_of_split? ⟨.selector, position, '(' :: inner ++ behind⟩ rfl rfl closes

end Token.IsNext

theorem Token.ReadFrom.isNext (read : token.ReadFrom .selector position span after) :
    token.IsNext span after := by
  cases read with
  | blob _ opens closes => exact .of_split? rfl rfl opens closes
  | rule notBlob takes isKind reads =>
      exact .of_longest? (notBlob rfl) takes.nonempty (TokenRule.longest?_of_takes takes) isKind
        reads

theorem IsTiling.isNext {start : Nat} {text tail : List Char} {pieces before others : List Piece}
    {piece : Piece} (tiling : IsTiling .selector start text pieces tail)
    (split : pieces = before ++ piece :: others) :
    piece.token.IsNext piece.span (Piece.join others) := by
  have read := tiling.reads before piece others split
  rw [(tiling.adjacent rfl).1, List.append_nil] at read
  exact read.isNext

namespace Cursor

/-- The spans at the start of a text have their tokens, whatever the text behind them has. -/
theorem tokens_of_pieces_append {pieces : List Piece} {back : List Char}
    (noGaps : ∀ piece ∈ pieces, piece.gap = [])
    (areNext : ∀ before piece behind, pieces = before ++ piece :: behind →
      piece.token.IsNext piece.span (Piece.join behind ++ back)) (position : Nat) :
    ∃ front, front.map Token.content = pieces.map (·.token.content) ∧
      (Cursor.mk .selector position (Piece.join pieces ++ back)).tokens =
        (Cursor.mk .selector (position + byteLength (Piece.join pieces)) back).tokens.map
          (front ++ ·) := by
  induction pieces generalizing position with
  | nil =>
      refine ⟨[], rfl, ?_⟩
      rw [Piece.join_nil, List.nil_append, byteLength_nil, Nat.add_zero]
      cases (Cursor.mk .selector position back).tokens <;> rfl
  | cons piece pieces induction =>
      obtain ⟨noGap, noGapsBehind⟩ := List.forall_mem_cons.mp noGaps
      have first := areNext [] piece pieces rfl position
      have nextBehind : ∀ before other behind, pieces = before ++ other :: behind →
          other.token.IsNext other.span (Piece.join behind ++ back) := by
        intro before other behind split
        exact areNext (piece :: before) other behind (by rw [split]; rfl)
      obtain ⟨front, sameContent, ran⟩ :=
        induction noGapsBehind nextBehind (position + byteLength piece.span)
      refine ⟨⟨piece.token.kind, piece.token.value, position⟩ :: front, ?_, ?_⟩
      · rw [List.map_cons, List.map_cons, sameContent]
        rfl
      · rw [Piece.join_cons, noGap, List.nil_append, List.append_assoc, tokens_of_next first, ran,
          byteLength_append, Nat.add_assoc]
        cases (Cursor.mk .selector _ back).tokens <;> rfl

theorem tokens_of_pieces {pieces : List Piece} (noGaps : ∀ piece ∈ pieces, piece.gap = [])
    (areNext : ∀ before piece behind, pieces = before ++ piece :: behind →
      piece.token.IsNext piece.span (Piece.join behind)) (position : Nat) :
    ∃ others, (Cursor.mk .selector position (Piece.join pieces)).tokens = .ok others ∧
      others.map Token.content = pieces.map (·.token.content) := by
  have areNextBeforeNothing : ∀ before piece behind, pieces = before ++ piece :: behind →
      piece.token.IsNext piece.span (Piece.join behind ++ []) := by
    intro before piece behind split
    rw [List.append_nil]
    exact areNext before piece behind split
  obtain ⟨front, sameContent, ran⟩ := tokens_of_pieces_append noGaps areNextBeforeNothing position
  rw [List.append_nil, tokens_nil] at ran
  refine ⟨front, ?_, sameContent⟩
  rw [ran]
  exact congrArg Except.ok (List.append_nil front)

theorem tokens_shift {cursor : Cursor} {found : List Token}
    (isSelector : cursor.grammar = .selector) (lexed : cursor.tokens = .ok found) (position : Nat) :
    ∃ others, (Cursor.mk .selector position cursor.rest).tokens = .ok others ∧
      others.map Token.content = found.map Token.content := by
  obtain ⟨pieces, tail, rfl, tiling⟩ := tokens_isTiling lexed
  rw [isSelector] at tiling
  obtain ⟨rfl, noGaps⟩ := tiling.adjacent rfl
  have spelled := tiling.spelled
  rw [List.append_nil] at spelled
  rw [← spelled, List.map_map]
  exact tokens_of_pieces noGaps (fun _ _ _ split => tiling.isNext split) position

/-- The first token of a text is read from the start of the text. -/
theorem exists_read {text : List Char} {found : List Token} {kind : TokenKind} {value : String}
    {rest : List (TokenKind × String)}
    (lexed : (Cursor.mk .selector position text).tokens = .ok found)
    (contents : found.map Token.content = (kind, value) :: rest) :
    ∃ span after place token, text = span ++ after ∧
      Token.ReadFrom .selector place span after token ∧
        token.kind = kind ∧ token.value = value := by
  obtain ⟨pieces, tail, rfl, tiling⟩ := tokens_isTiling lexed
  cases pieces with
  | nil => cases contents
  | cons piece pieces =>
      have spelled := tiling.spelled
      rw [Piece.join_cons, (tiling.adjacent rfl).2 piece List.mem_cons_self, List.nil_append,
        List.append_assoc] at spelled
      obtain ⟨sameKind, sameValue⟩ := Prod.mk.inj (List.cons.inj contents).1
      exact ⟨_, _, _, piece.token, spelled.symm, tiling.reads [] piece pieces rfl, sameKind,
        sameValue⟩

end Cursor

theorem exists_trimmed_of_tokenize {text : String} {tokens : List Token}
    (lexed : tokenize .selector text = .ok tokens) :
    ∃ front body back, text.toList = front ++ body ++ back ∧
      Grammar.selector.Trims front body back ∧
        (Cursor.mk .selector (byteLength front) body).tokens = .ok tokens := by
  obtain ⟨front, back, spelled, trims, position⟩ := Grammar.trims_start .selector text.toList
  have isCursor : Cursor.start .selector text.toList =
      ⟨.selector, byteLength front, (Cursor.start .selector text.toList).rest⟩ := by
    rw [← position]
    rfl
  rw [tokenize, isCursor] at lexed
  exact ⟨front, _, back, spelled, trims, lexed⟩

theorem exists_body_of_tokenize {text : String} {tokens : List Token}
    (lexed : tokenize .selector text = .ok tokens) (nonempty : tokens ≠ []) :
    ∃ front body back, text.toList = front ++ body ++ back ∧
      Grammar.selector.Trims front body back ∧ body ≠ [] ∧
        (Cursor.mk .selector (byteLength front) body).tokens = .ok tokens := by
  obtain ⟨front, body, back, spelled, trims, ran⟩ := exists_trimmed_of_tokenize lexed
  refine ⟨front, body, back, spelled, trims, ?_, ran⟩
  intro isNil
  rw [isNil] at ran
  cases ran.symm.trans Cursor.tokens_nil
  exact nonempty rfl

end TreeQuery
