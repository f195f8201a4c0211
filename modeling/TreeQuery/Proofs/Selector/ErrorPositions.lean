import TreeQuery.Proofs.Selector.Arguments
import TreeQuery.Proofs.Selector.Errors
import TreeQuery.Proofs.Token.Stepping

/-!
What the positions of lexer errors point at.

A lexer counts bytes from the start of the text that it is given. That text is the selector, or the
argument of one of its functions, at any depth: the argument is a text of its own, which stands in
the selector behind an opening parenthesis. So the position of an error in an argument is a place in
the argument, and the place in the selector is as many bytes behind the start of the argument.
-/

namespace TreeQuery

/-- An error points at the character that it is about, with its position counted from a place of a
text: at a character that no rule takes, at the quote of a string or at a parenthesis. -/
def LexError.PointsInto (text : List Char) (start : Nat) : LexError → Prop
  | .unexpectedChar found position => StandsAt text (start + position) [found]
  | .unterminatedString position => StandsAt text (start + position) ['"']
  | .unbalancedParens position => StandsAt text (start + position) ['(']
  | .invalidString position => ∃ first, StandsAt text (start + position) [first]

/-- What an error points at in a part, it points at around the part too. -/
theorem LexError.PointsInto.outside {whole text : List Char} {start : Nat} {error : LexError}
    (points : error.PointsInto text 0) (stands : StandsAt whole start text) :
    error.PointsInto whole start := by
  cases error with
  | invalidString position =>
      obtain ⟨first, inside⟩ := points
      rw [Nat.zero_add] at inside
      exact ⟨first, stands.trans inside⟩
  | _ =>
      simp only [PointsInto, Nat.zero_add] at points
      exact stands.trans points

/-! ## One lexer -/

namespace Cursor

variable {cursor after : Cursor} {text : List Char} {error : LexError}

theorem StandsIn.head {c : Char} {behind : List Char} (stands : cursor.StandsIn text)
    (left : cursor.rest = c :: behind) : StandsAt text (0 + cursor.position) [c] := by
  have atFront : StandsAt cursor.rest 0 [c] := ⟨[], behind, left, rfl⟩
  rw [Nat.zero_add]
  exact stands.trans atFront

theorem pointsInto_of_next (stands : cursor.StandsIn text)
    (failed : cursor.next = .failed error after) : error.PointsInto text 0 := by
  fun_induction next cursor with
  | case1 => cases failed
  | case2 cursor c behind left opens =>
      unfold nextArguments at failed
      split at failed <;> cases failed
      obtain ⟨rfl, _⟩ := opens
      exact stands.head left
  | case3 cursor c behind left =>
      cases failed
      by_cases isQuote : c = '"'
      · rw [if_pos isQuote]
        subst isQuote
        exact stands.head left
      · rw [if_neg isQuote]
        exact stands.head left
  | case4 cursor _ _ _ _ _ length _ _ induction =>
      exact induction ((Passes.advance cursor length).standsIn stands) failed
  | case5 cursor c behind left =>
      unfold nextOfRule at failed
      split at failed <;> cases failed
      rename_i unread
      rw [readValue_error unread]
      exact ⟨c, stands.head left⟩

theorem pointsInto_of_tokens (stands : cursor.StandsIn text)
    (failed : cursor.tokens = .error error) : error.PointsInto text 0 := by
  fun_induction tokens cursor with
  | case1 => cases failed
  | case2 cursor found after step =>
      cases failed
      exact pointsInto_of_next stands step
  | case3 cursor token after step induction =>
      obtain ⟨passed, passes, _⟩ := exists_passes cursor
      rw [step] at passes
      exact induction (passes.standsIn stands) (error_of_map failed)

end Cursor

theorem pointsInto_of_tokenize {grammar : Grammar} {text : String} {error : LexError}
    (failed : tokenize grammar text = .error error) : error.PointsInto text.toList 0 :=
  Cursor.pointsInto_of_tokens (Cursor.start_standsIn grammar text.toList) failed

/-! ## Arguments -/

theorem Arguments.exists_inner {span after : List Char} (opens : span.head? = some '(')
    (closes : split? (span ++ after) = some (span, after)) :
    ∃ inner, span = '(' :: (inner ++ [')']) := by
  obtain ⟨behind, rfl⟩ := List.head?_eq_some_iff.mp opens
  rw [List.cons_append, split?_opening] at closes
  obtain ⟨⟨others, remaining⟩, split, spelled⟩ := Option.map_eq_some_iff.mp closes
  cases spelled
  obtain ⟨inner, rfl⟩ := List.getLast?_eq_some_iff.mp (getLast?_of_splitFrom? split)
  exact ⟨inner, rfl⟩

/-- The argument of a token stands in the text behind its opening parenthesis. -/
theorem standsAt_argument {text : String} {tokens : List Token} {blob : Token}
    (lexed : tokenize .selector text = .ok tokens) (isToken : blob ∈ tokens)
    (isBlob : blob.kind = .arguments) :
    StandsAt text.toList (blob.position + 1) (Level.innerText blob.value).toList := by
  obtain ⟨front, body, back, pieces, tail, spelled, _, rfl, tiling⟩ := tokenize_isTiling lexed
  obtain ⟨piece, isPiece, rfl⟩ := List.mem_map.mp isToken
  obtain ⟨before, behind, split⟩ := List.append_of_mem isPiece
  have read := tiling.reads before piece behind split
  have body := tiling.spelled
  rw [split, Piece.join_append, Piece.join_cons] at body
  generalize piece.token = token at read isBlob
  generalize piece.span = span at read body
  cases read with
  | blob _ opens closes =>
      obtain ⟨inner, rfl⟩ := Arguments.exists_inner opens closes
      have asText :
          String.ofList ('(' :: (inner ++ [')'])) = "(" ++ String.ofList inner ++ ")" := by
        simp [← String.toList_inj]
      rw [asText, Level.innerText_parentheses, String.toList_ofList]
      refine ⟨front ++ (Piece.join before ++ piece.gap) ++ ['('],
        [')'] ++ Piece.join behind ++ tail ++ back, ?_, ?_⟩
      · rw [spelled, ← body]
        simp
      · simp only [byteLength_append]
        rfl
  | rule _ takes isKind =>
      exact absurd (isBlob ▸ isKind) (Grammar.rules_not_arguments _ _ takes.isRule)

/-! ## Errors of readers -/

/-- The grammar of the argument of a function. -/
def argumentGrammar (name : String) : Grammar :=
  if name = "expr" then .expression else .selector

/-- The error of a lexer in an error of a selector. -/
def QueryError.lexError? : QueryError → Option LexError
  | .lex error => some error
  | .expr (.lex error) => some error
  | _ => none

namespace Level

variable {scope : PackageScope} {tokens : List Token} {name inner : String} {error : QueryError}
  {lexError : LexError}

theorem unlexed_of_functionFails (fails : FunctionFails name inner error)
    (isLex : error.lexError? = some lexError) :
    tokenize (argumentGrammar name) inner = .error lexError := by
  cases fails with
  | lex notExpr unlexed =>
      cases isLex
      rwa [argumentGrammar, if_neg notExpr]
  | expr isExpr unparsed =>
      rcases ofText_error_cases unparsed with ⟨found, rfl, unlexed⟩ | rfl | ⟨token, rfl⟩
      · cases isLex
        rwa [argumentGrammar, if_pos isExpr]
      · cases isLex
      · cases isLex
  | missing => cases isLex
  | unknown => cases isLex

/-- Only the argument of a function is lexed when a level is read. -/
theorem exists_argument_of_readerFails (fails : ReaderFails scope tokens error)
    (isLex : error.lexError? = some lexError) :
    ∃ function blob, [function, blob] <+: tokens ∧ function.kind = .pseudoClassFunction ∧
      blob.kind = .arguments ∧
        tokenize (argumentGrammar function.value) (innerText blob.value) = .error lexError := by
  cases fails with
  | @function function blob rest _ isFunction isBlob fails =>
      exact ⟨function, blob, ⟨rest, rfl⟩, isFunction, isBlob, unlexed_of_functionFails fails isLex⟩
  | nth _ fails =>
      rcases nthTest_error_cases fails with ⟨nthError, rfl⟩ | ⟨rfl, _⟩ <;> cases isLex
  | native => cases isLex
  | declared => cases isLex
  | pseudoClass => cases isLex
  | missing => cases isLex

/-- A row fails with an error of the lexer at the argument of a function in the row. -/
theorem exists_argument_of_failsAt (fails : Plan.FailsAt scope tokens error)
    (isLex : error.lexError? = some lexError) :
    ∃ function blob, [function, blob] <:+: tokens ∧ function.kind = .pseudoClassFunction ∧
      blob.kind = .arguments ∧
        tokenize (argumentGrammar function.value) (innerText blob.value) = .error lexError := by
  cases fails with
  | level unread =>
      rcases read_error_cases unread with ⟨rest, isRest, fails⟩ | ⟨position, rfl⟩
      · obtain ⟨function, blob, atFront, isCall⟩ := exists_argument_of_readerFails fails isLex
        exact ⟨function, blob, atFront.isInfix.trans isRest.isInfix, isCall⟩
      · cases isLex
  | combinator _ unsplit =>
      unfold Plan.splitCombinator at unsplit
      split at unsplit
      · split at unsplit
        · cases unsplit
          cases isLex
        · split at unsplit <;> cases unsplit
          cases isLex
      · cases unsplit

end Level

/-! ## The texts of a selector -/

/-- The texts that a selector has lexed, each with its grammar and the byte position at which it
stands in the selector: the selector, and the argument of each function in such a text. -/
inductive IsLexed (selector : String) : Grammar → Nat → String → Prop where
  | selector : IsLexed selector .selector 0 selector
  | argument {start : Nat} {text : String} {tokens : List Token} {function blob : Token}
      (outer : IsLexed selector .selector start text)
      (lexed : tokenize .selector text = .ok tokens) (isCall : [function, blob] <:+: tokens)
      (isFunction : function.kind = .pseudoClassFunction) (isBlob : blob.kind = .arguments) :
      IsLexed selector (argumentGrammar function.value) (start + (blob.position + 1))
        (Level.innerText blob.value)

/-- A text that is lexed stands in the selector. -/
theorem IsLexed.standsAt {selector text : String} {grammar : Grammar} {start : Nat}
    (isLexed : IsLexed selector grammar start text) :
    StandsAt selector.toList start text.toList := by
  induction isLexed with
  | selector => exact .itself
  | argument _ lexed isCall _ isBlob induction =>
      exact induction.trans (standsAt_argument lexed (isCall.subset (by simp)) isBlob)

/-- A row of tokens is left of a text that a selector has lexed. -/
def IsLeft (selector : String) (row : List Token) : Prop :=
  ∃ start text tokens, IsLexed selector .selector start text ∧
    tokenize .selector text = .ok tokens ∧ row <:+ tokens

theorem Plan.Descends.isLeft {scope : PackageScope} {selector : String} {tokens row : List Token}
    (descends : Descends scope tokens row) (isLeft : IsLeft selector tokens) :
    IsLeft selector row := by
  induction descends with
  | here => exact isLeft
  | behind isRest _ induction =>
      obtain ⟨start, text, whole, isLexed, lexed, isEnd⟩ := isLeft
      exact induction ⟨start, text, whole, isLexed, lexed, isRest.trans isEnd⟩
  | inner level isHas _ induction =>
      obtain ⟨start, text, whole, isLexed, lexed, isEnd⟩ := isLeft
      obtain ⟨category, unit, isUnit, inTokens⟩ := exists_isUnit_of_read level isHas
      cases isUnit with
      | nth _ _ reads =>
          obtain ⟨nth, isNth⟩ := Level.exists_of_nthTest reads
          cases isNth
      | @function function blob _ isFunction isBlob reads =>
          obtain ⟨isName, innerLexed⟩ := Level.lexed_of_functionTest reads
          have argument := IsLexed.argument isLexed lexed (inTokens.trans isEnd.isInfix)
            isFunction isBlob
          rw [isName, argumentGrammar, if_neg (by decide)] at argument
          exact induction ⟨_, _, _, argument, innerLexed, List.suffix_rfl⟩

namespace Query

variable {error : QueryError} {lexError : LexError}

/-- An error of the lexer in the selector itself points into the selector. Any error of the lexer
that a selector fails with is that of a text which was lexed for it, at some depth: it points into
that text, and into the selector if its position is counted from where the text stands there. -/
theorem select_lexError (query : Query) (selector : String) :
    (∀ lexError, tokenize .selector selector = .error lexError →
      (query.select selector).outcome = .error (.lex lexError) ∧
        lexError.PointsInto selector.toList 0) ∧
    ∀ error lexError, (query.select selector).outcome = .error error →
      error.lexError? = some lexError →
        ∃ grammar start text, IsLexed selector grammar start text ∧
          tokenize grammar text = .error lexError ∧ lexError.PointsInto text.toList 0 ∧
            lexError.PointsInto selector.toList start := by
  refine ⟨fun lexError unlexed => ⟨?_, pointsInto_of_tokenize unlexed⟩, ?_⟩
  · rw [select, unlexed]
    rfl
  · intro error lexError failed isLex
    have pointing {grammar : Grammar} {start : Nat} {text : String}
        (isLexed : IsLexed selector grammar start text)
        (unlexed : tokenize grammar text = .error lexError) :
        ∃ grammar start text, IsLexed selector grammar start text ∧
          tokenize grammar text = .error lexError ∧ lexError.PointsInto text.toList 0 ∧
            lexError.PointsInto selector.toList start := by
      have points := pointsInto_of_tokenize unlexed
      exact ⟨grammar, start, text, isLexed, unlexed, points, points.outside isLexed.standsAt⟩
    rw [select] at failed
    split at failed
    · rename_i unlexed
      cases failed
      cases isLex
      exact pointing .selector unlexed
    · rename_i tokens lexed
      obtain ⟨row, descends, fails⟩ := Plan.exists_row_of_error failed
      obtain ⟨start, text, whole, isLexed, wholeLexed, isEnd⟩ :=
        descends.isLeft ⟨0, selector, tokens, .selector, lexed, List.suffix_rfl⟩
      obtain ⟨function, blob, isCall, isFunction, isBlob, unlexed⟩ :=
        Level.exists_argument_of_failsAt fails isLex
      exact pointing (.argument isLexed wholeLexed (isCall.trans isEnd.isInfix) isFunction isBlob)
        unlexed

/-- An error in the expression of an inner selector: the sign is the third character of the
expression. -/
theorem select_lexError_nested :
    let query : Query := ⟨.ofTree (.scalar none .null), ⟨"", []⟩⟩
    let selector := ":has( *:expr(x @ 1))"
    let error := LexError.unexpectedChar '@' 2
    (query.select selector).outcome = .error (.expr (.lex error)) ∧
      (QueryError.expr (.lex error)).lexError? = some error ∧
        ∃ grammar start text, IsLexed selector grammar start text ∧
          tokenize grammar text = .error error ∧ error.PointsInto text.toList 0 ∧
            error.PointsInto selector.toList start := by
  intro query selector error
  have failed : (query.select selector).outcome = .error (.expr (.lex error)) := by
    decide +kernel
  exact ⟨failed, rfl, (select_lexError query selector).2 _ error failed rfl⟩

/-- The position of an error in an argument is no place in the selector. -/
theorem select_lexError_inner :
    let query : Query := ⟨.ofTree (.scalar none .null), ⟨"", []⟩⟩
    (query.select ":has(#)").outcome = .error (.lex (.unexpectedChar '#' 0)) ∧
      ¬ StandsAt ":has(#)".toList 0 ['#'] := by
  refine ⟨by decide +kernel, ?_⟩
  rintro ⟨front, back, spelled, atStart⟩
  cases front with
  | nil => cases spelled
  | cons first front =>
      have positive := byteLength_pos (List.cons_ne_nil first front)
      omega

end Query

end TreeQuery
