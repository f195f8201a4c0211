import TreeQuery.Proofs.Token.LongestMatch
import TreeQuery.Token.Lexer

/-!
Tokens tile a text.

A token is read from a span of the text, and what stands between two spans is skipped. Each step of
the lexer puts one piece of the text before what is left, so the pieces of a whole run are the text.
-/

namespace TreeQuery

/-! ## Words of kinds -/

/-- Only the rule of the kind words makes native kinds. -/
theorem Grammar.nativeKind_rule {grammar : Grammar} {rule : TokenRule}
    (isRule : rule ∈ grammar.rules) (isKind : rule.kind = some .nativeKind) :
    grammar = .selector ∧ rule.pattern = TokenRule.oneWord TokenRule.kindWords := by
  cases grammar with
  | selector =>
      refine ⟨rfl, ?_⟩
      simp only [Grammar.rules, TokenRule.selectorRules, List.mem_cons, List.not_mem_nil,
        or_false] at isRule
      rcases isRule with rfl | rfl | rfl | rfl | rfl | rfl | rfl | rfl | rfl | rfl | rfl | rfl | rfl
      case inr.inr.inr.inr.inr.inl => rfl
      all_goals cases isKind
  | expression =>
      have otherKind : ∀ rule ∈ TokenRule.expressionRules, rule.kind ≠ some .nativeKind := by
        simp [TokenRule.expressionRules]
      exact absurd isKind (otherKind rule isRule)

namespace TokenRule

/-- The rule of bare names. -/
theorem name_mem_selectorRules : ⟨dotted (.seq (.one startsName) (.many (.one continuesName))),
    some .identifier⟩ ∈ selectorRules := by
  simp [selectorRules]

theorem startsName_of_kindWord {word : String} (isWord : word ∈ kindWords) :
    ∃ first behind, word.toList = first :: behind ∧ startsName first = true ∧
      ∀ c ∈ behind, continuesName c = true := by
  have areNames : ∀ word ∈ kindWords, word.toList.head?.any startsName = true ∧
      word.toList.tail.all continuesName = true := by decide
  have isName := areNames word isWord
  cases spelled : word.toList with
  | nil =>
      rw [spelled] at isName
      cases isName.1
  | cons first behind =>
      rw [spelled] at isName
      exact ⟨first, behind, rfl, isName.1, List.all_eq_true.mp isName.2⟩

/-- A kind word with one more character of a name is a name. -/
theorem matches_name_of_kindWord {word : String} {c : Char} (isWord : word ∈ kindWords)
    (continues : continuesName c = true) :
    (dotted (.seq (.one startsName) (.many (.one continuesName)))).Matches
      (word.toList ++ [c]) := by
  obtain ⟨first, behind, spelled, starts, inName⟩ := startsName_of_kindWord isWord
  have restMatches : (Pattern.many (.one continuesName)).Matches (behind ++ [c]) := by
    refine Pattern.matches_many_one_iff.mpr ?_
    intro d isMember
    rcases List.mem_append.mp isMember with isBehind | isLast
    · exact inName d isBehind
    · rw [List.mem_singleton.mp isLast]
      exact continues
  rw [spelled]
  refine Pattern.matches_seq_iff.mpr ⟨[], _, rfl, .right .done, ?_⟩
  exact Pattern.matches_seq_iff.mpr ⟨[first], behind ++ [c], rfl, .one starts, restMatches⟩

end TokenRule

/-! ## Reading one token -/

/-- What a token says, wherever it stands. -/
def Token.content (token : Token) : TokenKind × String :=
  (token.kind, token.value)

theorem Token.content_eq_iff {token other : Token} :
    token.content = other.content ↔ token.kind = other.kind ∧ token.value = other.value := by
  simp [Token.content]

/-- A token is read from a span at a position, before the rest of the text. -/
inductive Token.ReadFrom (grammar : Grammar) (position : Nat) (span after : List Char) :
    Token → Prop where
  /-- An argument in parentheses. -/
  | blob (isSelector : grammar = .selector) (opens : span.head? = some '(')
      (closes : Arguments.split? (span ++ after) = some (span, after)) :
      ReadFrom grammar position span after ⟨.arguments, String.ofList span, position⟩
  | rule {rule : TokenRule} {kind : TokenKind} {value : String}
      (notBlob : grammar = .selector → span.head? ≠ some '(')
      (takes : TokenRule.Takes grammar.rules rule span (span ++ after))
      (isKind : rule.kind = some kind) (reads : readValue kind span position = .ok value) :
      ReadFrom grammar position span after ⟨kind, value, position⟩

namespace Token.ReadFrom

variable {grammar : Grammar} {position : Nat} {span after : List Char} {token : Token}

theorem position_eq (read : token.ReadFrom grammar position span after) :
    token.position = position := by
  cases read <;> rfl

theorem span_ne_nil (read : token.ReadFrom grammar position span after) : span ≠ [] := by
  cases read with
  | blob isSelector opens closes =>
      intro isNil
      rw [isNil] at opens
      cases opens
  | rule notBlob takes isKind reads => exact takes.nonempty

/-- A word of a kind ends where no character of a name follows. -/
theorem not_continuesName (read : token.ReadFrom grammar position span after)
    (isKind : token.kind = .nativeKind) :
    ∀ c ∈ after.head?, TokenRule.continuesName c = false := by
  cases read with
  | blob => cases isKind
  | @rule rule kind value notBlob takes isRuleKind reads =>
      have nativeKind : rule.kind = some .nativeKind := isRuleKind.trans (congrArg some isKind)
      obtain ⟨rfl, isWords⟩ := Grammar.nativeKind_rule takes.isRule nativeKind
      have spanMatches := takes.spanMatches
      rw [isWords] at spanMatches
      obtain ⟨word, isWord, isSpan⟩ := TokenRule.exists_of_matches_oneWord spanMatches
      intro c isHead
      cases continues : TokenRule.continuesName c with
      | false => rfl
      | true =>
          obtain ⟨behind, rfl⟩ : ∃ behind, after = c :: behind := List.head?_eq_some_iff.mp isHead
          have longerMatches := TokenRule.matches_name_of_kindWord isWord continues
          rw [← isSpan] at longerMatches
          have isPrefix : span ++ [c] <+: span ++ c :: behind := ⟨behind, by simp⟩
          have bound := takes.longest _ TokenRule.name_mem_selectorRules _ isPrefix longerMatches
          rw [List.length_append] at bound
          exact absurd bound (Nat.not_succ_le_self _)

end Token.ReadFrom

/-! ## One step -/

namespace Cursor

variable {cursor after : Cursor} {token : Token}

theorem next_of_nil (ended : cursor.rest = []) : cursor.next = .finished cursor := by
  rw [next]
  split
  · rfl
  · rename_i spelled
    cases ended.symm.trans spelled

theorem next_of_opening {behind : List Char} (opens : cursor.rest = '(' :: behind)
    (isSelector : cursor.grammar = .selector) : cursor.next = cursor.nextArguments := by
  rw [next]
  split
  · rename_i ended
    cases opens.symm.trans ended
  · rename_i spelled
    cases opens.symm.trans spelled
    rw [if_pos ⟨rfl, isSelector⟩]

/-- A step fails where no rule matches. -/
theorem next_of_noRule {c : Char} {behind : List Char} (left : cursor.rest = c :: behind)
    (notBlob : ¬ (c = '(' ∧ cursor.grammar = .selector))
    (noRule : TokenRule.longest? cursor.grammar.rules cursor.rest = none) :
    cursor.next = .failed (if c = '"' then .unterminatedString cursor.position
      else .unexpectedChar c cursor.position) cursor := by
  rw [next]
  split
  · rename_i ended
    cases left.symm.trans ended
  · rename_i spelled
    cases left.symm.trans spelled
    rw [if_neg notBlob]
    split
    · rfl
    · rename_i matched
      cases noRule.symm.trans matched

theorem nextArguments_readFrom (isSelector : cursor.grammar = .selector)
    (opens : cursor.rest.head? = some '(') (found : cursor.nextArguments = .token token after) :
    ∃ span, cursor.rest = span ++ after.rest ∧ after.grammar = cursor.grammar ∧
      after.position = cursor.position + byteLength span ∧
        token.ReadFrom cursor.grammar cursor.position span after.rest := by
  unfold nextArguments at found
  split at found
  · rename_i span remaining split
    cases found
    have spelled := Arguments.append_of_split? split
    refine ⟨span, spelled.symm, rfl, rfl, .blob isSelector ?_ (spelled.symm ▸ split)⟩
    cases span with
    | nil => exact absurd split Arguments.splitFrom?_ne_nil
    | cons first behind =>
        rw [← spelled] at opens
        exact opens
  · cases found

theorem nextOfRule_readFrom {rule : TokenRule} {kind : TokenKind} {length : Nat}
    (notBlob : cursor.grammar = .selector → cursor.rest.head? ≠ some '(')
    (matched : TokenRule.longest? cursor.grammar.rules cursor.rest = some (rule, length))
    (isKind : rule.kind = some kind) (found : cursor.nextOfRule kind length = .token token after) :
    ∃ span, cursor.rest = span ++ after.rest ∧ after.grammar = cursor.grammar ∧
      after.position = cursor.position + byteLength span ∧
        token.ReadFrom cursor.grammar cursor.position span after.rest := by
  have takes := TokenRule.takes_of_longest? matched
  have spelled := List.take_append_drop length cursor.rest
  unfold nextOfRule at found
  split at found
  · rename_i value reads
    cases found
    refine ⟨cursor.rest.take length, spelled.symm, rfl, rfl, .rule ?_ ?_ isKind reads⟩
    · intro isSelector opens
      rw [List.head?_take, if_neg (Nat.ne_of_gt (TokenRule.longest?_positive matched))] at opens
      exact notBlob isSelector opens
    · rw [advance, spelled]
      exact takes
  · cases found

/-- Only white space of expressions is skipped. -/
theorem isBlank_of_skipped {grammar : Grammar} {rule : TokenRule} {length : Nat}
    {text : List Char} (matched : TokenRule.longest? grammar.rules text = some (rule, length))
    (isSkipped : rule.kind = none) :
    grammar = .expression ∧ ∀ c ∈ text.take length, isBlank c = true := by
  have isRule := TokenRule.longest?_mem matched
  have spanMatches := (TokenRule.takes_of_longest? matched).spanMatches
  cases grammar with
  | selector =>
      have hasKind : ∀ rule ∈ TokenRule.selectorRules, rule.kind ≠ none := by
        simp [TokenRule.selectorRules]
      exact absurd isSkipped (hasKind rule isRule)
  | expression =>
      have isBlanks : rule.pattern = .atLeastOnce (.one isBlank) := by
        simp only [Grammar.rules, TokenRule.expressionRules, List.mem_cons, List.not_mem_nil,
          or_false] at isRule
        rcases isRule with rfl | rfl | rfl | rfl | rfl | rfl | rfl | rfl
        · rfl
        all_goals cases isSkipped
      rw [isBlanks] at spanMatches
      exact ⟨rfl, Pattern.all_of_matches_atLeastOnce spanMatches⟩

theorem next_token (found : cursor.next = .token token after) :
    ∃ gap span, cursor.rest = gap ++ span ++ after.rest ∧ after.grammar = cursor.grammar ∧
      (∀ c ∈ gap, isBlank c = true) ∧ (cursor.grammar = .selector → gap = []) ∧
        after.position = cursor.position + byteLength gap + byteLength span ∧
          token.ReadFrom cursor.grammar (cursor.position + byteLength gap) span after.rest := by
  fun_induction next cursor with
  | case1 => cases found
  | case2 cursor c behind left isBlob =>
      have opens : cursor.rest.head? = some '(' := by
        rw [left, isBlob.1]
        rfl
      obtain ⟨span, spelled, sameGrammar, position, read⟩ :=
        nextArguments_readFrom isBlob.2 opens found
      exact ⟨[], span, spelled, sameGrammar, by simp, fun _ => rfl, position, read⟩
  | case3 => cases found
  | case4 cursor c behind left notBlob rule length matched isSkipped induction =>
      obtain ⟨isExpression, blank⟩ := isBlank_of_skipped matched isSkipped
      obtain ⟨gap, span, spelled, sameGrammar, gapBlank, _, position, read⟩ := induction found
      simp only [advance] at spelled sameGrammar position read
      refine ⟨cursor.rest.take length ++ gap, span, ?_, sameGrammar, ?_, ?_, ?_, ?_⟩
      · rw [List.append_assoc, List.append_assoc, ← List.append_assoc gap, ← spelled,
          List.take_append_drop]
      · intro d isGap
        rcases List.mem_append.mp isGap with isSkipped | isGap
        · exact blank d isSkipped
        · exact gapBlank d isGap
      · intro isSelector
        rw [isExpression] at isSelector
        cases isSelector
      · rw [position, byteLength_append]
        omega
      · rw [byteLength_append, ← Nat.add_assoc]
        exact read
  | case5 cursor c behind left notBlob rule length matched kind isKind =>
      have notOpening : cursor.grammar = .selector → cursor.rest.head? ≠ some '(' := by
        intro isSelector opens
        rw [left] at opens
        exact notBlob ⟨Option.some.inj opens, isSelector⟩
      obtain ⟨span, spelled, sameGrammar, position, read⟩ :=
        nextOfRule_readFrom notOpening matched isKind found
      exact ⟨[], span, spelled, sameGrammar, by simp, fun _ => rfl, position, read⟩

theorem next_finished (found : cursor.next = .finished after) :
    (∀ c ∈ cursor.rest, isBlank c = true) ∧ (cursor.grammar = .selector → cursor.rest = []) := by
  fun_induction next cursor with
  | case1 cursor left =>
      rw [left]
      exact ⟨by simp, fun _ => rfl⟩
  | case2 cursor =>
      unfold nextArguments at found
      split at found <;> cases found
  | case3 => cases found
  | case4 cursor c behind left notBlob rule length matched isSkipped induction =>
      obtain ⟨isExpression, blank⟩ := isBlank_of_skipped matched isSkipped
      obtain ⟨restBlank, _⟩ := induction found
      refine ⟨?_, ?_⟩
      · intro d isLeft
        rw [← List.take_append_drop length cursor.rest] at isLeft
        rcases List.mem_append.mp isLeft with isSkipped | isRest
        · exact blank d isSkipped
        · exact restBlank d isRest
      · intro isSelector
        rw [isExpression] at isSelector
        cases isSelector
  | case5 cursor =>
      unfold nextOfRule at found
      split at found <;> cases found

end Cursor

/-! ## A whole run -/

/-- The text of a token, with what is skipped before it. -/
structure Piece where
  gap : List Char
  span : List Char
  token : Token

namespace Piece

/-- The text of a row of pieces. -/
def join (pieces : List Piece) : List Char :=
  pieces.flatMap fun piece => piece.gap ++ piece.span

@[simp] theorem join_nil : join [] = [] := rfl

@[simp] theorem join_cons (piece : Piece) (pieces : List Piece) :
    join (piece :: pieces) = piece.gap ++ piece.span ++ join pieces := rfl

@[simp] theorem join_append (front back : List Piece) :
    join (front ++ back) = join front ++ join back :=
  List.flatMap_append

end Piece

/-- Pieces, with a tail behind them, are a text that starts at a position. -/
structure IsTiling (grammar : Grammar) (start : Nat) (text : List Char) (pieces : List Piece)
    (tail : List Char) : Prop where
  /-- Nothing is lost, and nothing overlaps. -/
  spelled : Piece.join pieces ++ tail = text
  gapsBlank : ∀ piece ∈ pieces, ∀ c ∈ piece.gap, isBlank c = true
  tailBlank : ∀ c ∈ tail, isBlank c = true
  adjacent : grammar = .selector → tail = [] ∧ ∀ piece ∈ pieces, piece.gap = []
  /-- Each token is read from its span, at the byte position of the span. -/
  reads : ∀ before piece behind, pieces = before ++ piece :: behind →
    piece.token.ReadFrom grammar (start + byteLength (Piece.join before ++ piece.gap)) piece.span
      (Piece.join behind ++ tail)
  increasing : (pieces.map (·.token.position)).Pairwise (· < ·)
  /-- No character of a name follows a word of a kind. -/
  wholeWords : ∀ before piece behind, pieces = before ++ piece :: behind →
    piece.token.kind = .nativeKind →
      ∀ c ∈ (Piece.join behind ++ tail).head?, TokenRule.continuesName c = false

namespace IsTiling

variable {grammar : Grammar} {start : Nat} {text tail gap span : List Char} {pieces : List Piece}
  {token : Token}

theorem ofBlank (blank : ∀ c ∈ text, isBlank c = true)
    (adjacent : grammar = .selector → text = []) : IsTiling grammar start text [] text where
  spelled := rfl
  gapsBlank := fun piece isPiece => by cases isPiece
  tailBlank := blank
  adjacent := fun isSelector => ⟨adjacent isSelector, fun piece isPiece => by cases isPiece⟩
  reads := fun before piece behind split => by simp at split
  increasing := .nil
  wholeWords := fun before piece behind split => by simp at split

theorem start_le (tiling : IsTiling grammar start text pieces tail) {piece : Piece}
    (isPiece : piece ∈ pieces) : start ≤ piece.token.position := by
  obtain ⟨before, behind, split⟩ := List.append_of_mem isPiece
  rw [(tiling.reads before piece behind split).position_eq]
  exact Nat.le_add_right _ _

theorem cons (gapBlank : ∀ c ∈ gap, isBlank c = true) (adjacent : grammar = .selector → gap = [])
    (read : token.ReadFrom grammar (start + byteLength gap) span text)
    (tiling : IsTiling grammar (start + byteLength gap + byteLength span) text pieces tail) :
    IsTiling grammar start (gap ++ span ++ text) (⟨gap, span, token⟩ :: pieces) tail where
  spelled := by
    rw [← tiling.spelled, ← List.append_assoc]
    rfl
  gapsBlank := List.forall_mem_cons.mpr ⟨gapBlank, tiling.gapsBlank⟩
  tailBlank := tiling.tailBlank
  adjacent := by
    intro isSelector
    obtain ⟨noTail, noGaps⟩ := tiling.adjacent isSelector
    exact ⟨noTail, List.forall_mem_cons.mpr ⟨adjacent isSelector, noGaps⟩⟩
  reads := by
    intro before piece behind split
    cases before with
    | nil =>
        cases split
        rw [tiling.spelled]
        exact read
    | cons first before =>
        cases split
        have later := tiling.reads before piece behind rfl
        simp only [byteLength_append] at later
        simp only [Piece.join, List.flatMap_cons, byteLength_append, Nat.add_assoc] at later ⊢
        exact later
  increasing := by
    rw [List.map_cons, List.pairwise_cons]
    refine ⟨?_, tiling.increasing⟩
    intro position isLater
    obtain ⟨piece, isPiece, rfl⟩ := List.mem_map.mp isLater
    have bound := tiling.start_le isPiece
    have positive := byteLength_pos read.span_ne_nil
    rw [read.position_eq]
    omega
  wholeWords := by
    intro before piece behind split isKind
    cases before with
    | nil =>
        cases split
        rw [tiling.spelled]
        exact read.not_continuesName isKind
    | cons first before =>
        cases split
        exact tiling.wholeWords before piece behind rfl isKind

end IsTiling

/-- What is left and right of the text that is lexed: white space around selectors, and nothing
around expressions. -/
def Grammar.Trims (grammar : Grammar) (front body back : List Char) : Prop :=
  match grammar with
  | .selector => (∀ c ∈ front, isBlank c = true) ∧ (∀ c ∈ back, isBlank c = true) ∧
      (∀ c ∈ body.head?, isBlank c = false) ∧ ∀ c ∈ body.getLast?, isBlank c = false
  | .expression => front = [] ∧ back = []

theorem not_blank_head_dropWhile {text : List Char} {c : Char}
    (isHead : c ∈ (text.dropWhile isBlank).head?) : isBlank c = false := by
  have stops := List.head?_dropWhile_not isBlank text
  rw [Option.mem_def.mp isHead] at stops
  exact stops

theorem Grammar.trims_start (grammar : Grammar) (text : List Char) :
    ∃ front back, text = front ++ (Cursor.start grammar text).rest ++ back ∧
      grammar.Trims front (Cursor.start grammar text).rest back ∧
        (Cursor.start grammar text).position = byteLength front := by
  cases grammar with
  | expression => exact ⟨[], [], (List.append_nil _).symm, ⟨rfl, rfl⟩, rfl⟩
  | selector =>
      have behindFront := List.takeWhile_append_dropWhile (p := isBlank) (l := text)
      generalize isMiddle : text.dropWhile isBlank = middle at behindFront
      have reversed := List.takeWhile_append_dropWhile (p := isBlank) (l := middle.reverse)
      have isBody : (Cursor.start .selector text).rest =
          (middle.reverse.dropWhile isBlank).reverse := by
        rw [← isMiddle]
        rfl
      have beforeBack : (middle.reverse.dropWhile isBlank).reverse ++
          (middle.reverse.takeWhile isBlank).reverse = middle := by
        rw [← List.reverse_append, reversed, List.reverse_reverse]
      rw [isBody]
      refine ⟨text.takeWhile isBlank, (middle.reverse.takeWhile isBlank).reverse, ?_,
        ⟨?_, ?_, ?_, ?_⟩, rfl⟩
      · rw [List.append_assoc, beforeBack, behindFront]
      · exact List.all_eq_true.mp List.all_takeWhile
      · intro c isBack
        exact List.all_eq_true.mp List.all_takeWhile c (List.mem_reverse.mp isBack)
      · intro c isHead
        obtain ⟨behind, body⟩ := List.head?_eq_some_iff.mp isHead
        have startsMiddle : c ∈ (text.dropWhile isBlank).head? := by
          rw [isMiddle, ← beforeBack, body]
          rfl
        exact not_blank_head_dropWhile startsMiddle
      · intro c isLast
        rw [List.getLast?_reverse] at isLast
        exact not_blank_head_dropWhile isLast

theorem Cursor.tokens_isTiling {cursor : Cursor} {found : List Token}
    (lexed : cursor.tokens = .ok found) :
    ∃ pieces tail, pieces.map Piece.token = found ∧
      IsTiling cursor.grammar cursor.position cursor.rest pieces tail := by
  fun_induction tokens cursor generalizing found with
  | case1 cursor after finished =>
      cases lexed
      obtain ⟨blank, adjacent⟩ := next_finished finished
      exact ⟨[], cursor.rest, rfl, .ofBlank blank adjacent⟩
  | case2 => cases lexed
  | case3 cursor token after step induction =>
      obtain ⟨later, others, rfl⟩ := ok_of_map lexed
      obtain ⟨pieces, tail, isLater, tiling⟩ := induction others
      obtain ⟨gap, span, spelled, sameGrammar, gapBlank, adjacent, position, read⟩ :=
        next_token step
      rw [sameGrammar, position] at tiling
      rw [spelled]
      exact ⟨⟨gap, span, token⟩ :: pieces, tail, congrArg _ isLater,
        .cons gapBlank adjacent read tiling⟩

/-- The tokens of a text tile it. -/
theorem tokenize_isTiling {grammar : Grammar} {text : String} {tokens : List Token}
    (lexed : tokenize grammar text = .ok tokens) :
    ∃ front body back pieces tail, text.toList = front ++ body ++ back ∧
      grammar.Trims front body back ∧ pieces.map Piece.token = tokens ∧
        IsTiling grammar (byteLength front) body pieces tail := by
  obtain ⟨front, back, split, trims, position⟩ := grammar.trims_start text.toList
  obtain ⟨pieces, tail, isFound, tiling⟩ := Cursor.tokens_isTiling lexed
  have sameGrammar : (Cursor.start grammar text.toList).grammar = grammar := by
    cases grammar <;> rfl
  rw [sameGrammar, position] at tiling
  exact ⟨front, _, back, pieces, tail, split, trims, isFound, tiling⟩

theorem tokenize_isTiling_trimmed :
    tokenize .selector " é > null(b) " = .ok [⟨.identifier, "é", 1⟩, ⟨.operator, ">", 3⟩,
        ⟨.nativeKind, "null", 6⟩, ⟨.arguments, "(b)", 10⟩] ∧
      ∃ front body back pieces tail, " é > null(b) ".toList = front ++ body ++ back ∧
        Grammar.selector.Trims front body back ∧
          pieces.map Piece.token = [⟨.identifier, "é", 1⟩, ⟨.operator, ">", 3⟩,
            ⟨.nativeKind, "null", 6⟩, ⟨.arguments, "(b)", 10⟩] ∧
            IsTiling .selector (byteLength front) body pieces tail := by
  have lexed : tokenize .selector " é > null(b) " = .ok [⟨.identifier, "é", 1⟩,
      ⟨.operator, ">", 3⟩, ⟨.nativeKind, "null", 6⟩, ⟨.arguments, "(b)", 10⟩] := by
    decide +kernel
  exact ⟨lexed, tokenize_isTiling lexed⟩

end TreeQuery
