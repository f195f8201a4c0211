import TreeQuery.Text.JsonString
import TreeQuery.Token.Arguments
import TreeQuery.Token.Rules

/-!
Lexing: the tokens of a text in either grammar.

A `Cursor` stands at a byte position before the text that is left. `Cursor.next` makes one token
there, and `tokenize` makes tokens until nothing is left. White space at the ends of a selector is
taken off before, because between its tokens it has a meaning.
-/

namespace TreeQuery

/-! ## Bytes -/

/-- The number of UTF-8 bytes of a text. -/
def byteLength : List Char → Nat
  | [] => 0
  | c :: rest => c.utf8Size + byteLength rest

@[simp] theorem byteLength_nil : byteLength [] = 0 := rfl

@[simp] theorem byteLength_cons (c : Char) (rest : List Char) :
    byteLength (c :: rest) = c.utf8Size + byteLength rest := rfl

@[simp] theorem byteLength_append (front back : List Char) :
    byteLength (front ++ back) = byteLength front + byteLength back := by
  induction front with
  | nil => simp
  | cons c rest induction => simp [induction, Nat.add_assoc]

theorem byteLength_pos {text : List Char} (nonempty : text ≠ []) : 0 < byteLength text := by
  cases text with
  | nil => exact absurd rfl nonempty
  | cons c rest => exact Nat.lt_of_lt_of_le (Char.utf8Size_pos c) (Nat.le_add_right _ _)

/-! ## Errors -/

instance decidableEqExcept {Error Result : Type} [DecidableEq Error] [DecidableEq Result] :
    DecidableEq (Except Error Result)
  | .ok left, .ok right => decidable_of_iff (left = right) ⟨congrArg Except.ok, Except.ok.inj⟩
  | .error left, .error right =>
      decidable_of_iff (left = right) ⟨congrArg Except.error, Except.error.inj⟩
  | .ok _, .error _ => isFalse fun same => by cases same
  | .error _, .ok _ => isFalse fun same => by cases same

theorem ok_of_map {Error First Second : Type} {result : Except Error First}
    {onward : First → Second} {second : Second} (mapped : result.map onward = .ok second) :
    ∃ first, result = .ok first ∧ onward first = second := by
  cases result with
  | error error => cases mapped
  | ok first => exact ⟨first, rfl, Except.ok.inj mapped⟩

inductive LexError where
  | unexpectedChar (found : Char) (position : Nat)
  | unterminatedString (position : Nat)
  | unbalancedParens (position : Nat)
  /-- A quoted string that is no JSON string literal. The text in which the JSON reader says what is
  wrong with it is left out, here and in the message. -/
  | invalidString (position : Nat)
  deriving DecidableEq, Repr

namespace LexError

def message : LexError → String
  | .unexpectedChar found position =>
      "unexpected character '" ++ String.singleton found ++ "' at position " ++
        toString position
  | .unterminatedString position =>
      "unterminated string starting at position " ++ toString position
  | .unbalancedParens position =>
      "unbalanced parenthesis starting at position " ++ toString position
  | .invalidString position => "invalid string literal at position " ++ toString position

end LexError

/-- A place in a text: the byte position and what is left from there on. -/
structure Cursor where
  grammar : Grammar
  position : Nat
  rest : List Char
  deriving DecidableEq, Repr

/-- What a step of a lexer finds, and where it leaves the cursor. -/
inductive LexStep where
  | finished (after : Cursor)
  | token (token : Token) (after : Cursor)
  | failed (error : LexError) (after : Cursor)
  deriving DecidableEq, Repr

namespace Cursor

def start (grammar : Grammar) (text : List Char) : Cursor :=
  match grammar with
  | .selector => ⟨.selector, byteLength (text.takeWhile isBlank), trimBlank text⟩
  | .expression => ⟨.expression, 0, text⟩

/-- The cursor after a number of characters. -/
def advance (cursor : Cursor) (length : Nat) : Cursor :=
  { cursor with
    position := cursor.position + byteLength (cursor.rest.take length)
    rest := cursor.rest.drop length }

end Cursor

/-! ## Decoding -/

def readString (text : List Char) (position : Nat) : Except LexError String :=
  match JsonString.decode? text with
  | some value => .ok (String.ofList value)
  | none => .error (.invalidString position)

/-- The value of a token, from its text: names without their dot and quotes, types without their
brackets, pseudo-classes without their colon, operators without the white space around them. White
space alone is the operator of one space. -/
def readValue (kind : TokenKind) (text : List Char) (position : Nat) :
    Except LexError String :=
  match kind with
  | .identifier =>
      let name := match text with
        | '.' :: name => name
        | name => name
      if name.head? = some '"' then readString name position else .ok (String.ofList name)
  | .string => readString text position
  | .declaredType => .ok (String.ofList (text.drop 1).dropLast)
  | .pseudoClass | .nthFunction | .pseudoClassFunction => .ok (String.ofList (text.drop 1))
  | .operator =>
      let sign := trimBlank text
      .ok (if sign.isEmpty then " " else String.ofList sign)
  | _ => .ok (String.ofList text)

/-! ## Steps -/

namespace Cursor

def nextArguments (cursor : Cursor) : LexStep :=
  match Arguments.split? cursor.rest with
  | some (front, after) =>
      .token ⟨.arguments, String.ofList front, cursor.position⟩
        { cursor with position := cursor.position + byteLength front, rest := after }
  | none => .failed (.unbalancedParens cursor.position) cursor

/-- Makes the token of a matched rule. The cursor moves on even if the text has no value. -/
def nextOfRule (cursor : Cursor) (kind : TokenKind) (length : Nat) : LexStep :=
  match readValue kind (cursor.rest.take length) cursor.position with
  | .ok value => .token ⟨kind, value, cursor.position⟩ (cursor.advance length)
  | .error error => .failed error (cursor.advance length)

def next (cursor : Cursor) : LexStep :=
  match _left : cursor.rest with
  | [] => .finished cursor
  | c :: _ =>
      if c = '(' ∧ cursor.grammar = .selector then
        cursor.nextArguments
      else
        match _found : TokenRule.longest? cursor.grammar.rules cursor.rest with
        | none =>
            .failed
              (if c = '"' then .unterminatedString cursor.position
              else .unexpectedChar c cursor.position)
              cursor
        | some (rule, length) =>
            match rule.kind with
            | none => next (cursor.advance length)
            | some kind => cursor.nextOfRule kind length
  termination_by cursor.rest.length
  decreasing_by
    have positive := TokenRule.longest?_positive _found
    simp only [advance, List.length_drop, _left, List.length_cons]
    omega

theorem nextArguments_token {cursor after : Cursor} {token : Token}
    (found : cursor.nextArguments = .token token after) :
    token.weight + after.rest.length ≤ cursor.rest.length := by
  unfold nextArguments at found
  split at found
  · rename_i front remaining split
    cases found
    have spelled := Arguments.append_of_split? split
    simp only [Token.weight, if_true, String.toList_ofList, ← spelled, List.length_append]
    omega
  · cases found

theorem nextOfRule_token {cursor after : Cursor} {kind : TokenKind} {length : Nat} {token : Token}
    (found : cursor.nextOfRule kind length = .token token after) :
    token.kind = kind ∧ after = cursor.advance length := by
  unfold nextOfRule at found
  split at found
  · cases found
    exact ⟨rfl, rfl⟩
  · cases found

/-- A token takes at least as much text as it weighs. -/
theorem weight_le_of_next {cursor after : Cursor} {token : Token}
    (found : cursor.next = .token token after) :
    token.weight + after.rest.length ≤ cursor.rest.length := by
  fun_induction next cursor with
  | case1 => cases found
  | case2 => exact nextArguments_token found
  | case3 => cases found
  | case4 cursor _ _ spelled _ rule length matched _ induction =>
      have shorter := induction found
      simp only [advance, List.length_drop] at shorter
      omega
  | case5 cursor _ _ spelled _ rule length matched kind ruleKind =>
      obtain ⟨kindEq, rfl⟩ := nextOfRule_token found
      have positive := TokenRule.longest?_positive matched
      have notArguments : token.kind ≠ .arguments := by
        intro arguments
        apply cursor.grammar.rules_not_arguments rule (TokenRule.longest?_mem matched)
        rw [ruleKind, ← kindEq, arguments]
      simp only [Token.weight, notArguments, if_false, advance, List.length_drop, spelled,
        List.length_cons]
      omega

/-- Every token takes some text. -/
theorem shorter_of_next {cursor after : Cursor} {token : Token}
    (found : cursor.next = .token token after) : after.rest.length < cursor.rest.length := by
  fun_induction next cursor with
  | case1 => cases found
  | case2 cursor c _ spelled =>
      unfold nextArguments at found
      split at found
      · rename_i front remaining split
        cases found
        have appended := Arguments.append_of_split? split
        cases front with
        | nil =>
            simp only [Arguments.split?] at split
            have := Arguments.splitFrom?_ne_nil split
            contradiction
        | cons first front =>
            simp only [← appended, List.cons_append, List.length_cons, List.length_append]
            omega
      · cases found
  | case3 => cases found
  | case4 cursor _ _ spelled _ rule length matched _ induction =>
      have shorter := induction found
      simp only [advance, List.length_drop] at shorter
      omega
  | case5 cursor _ _ spelled _ rule length matched kind ruleKind =>
      obtain ⟨_, rfl⟩ := nextOfRule_token found
      have positive := TokenRule.longest?_positive matched
      simp only [advance, List.length_drop, spelled, List.length_cons]
      omega

def tokens (cursor : Cursor) : Except LexError (List Token) :=
  match _found : cursor.next with
  | .finished _ => .ok []
  | .failed error _ => .error error
  | .token token after => (tokens after).map (token :: ·)
  termination_by cursor.rest.length
  decreasing_by exact shorter_of_next _found

end Cursor

def tokenize (grammar : Grammar) (text : String) : Except LexError (List Token) :=
  (Cursor.start grammar text.toList).tokens

namespace Cursor

/-- The steps of a lexer that goes on after failures. -/
def steps : Nat → Cursor → List LexStep
  | 0, _ => []
  | count + 1, cursor =>
      let step := cursor.next
      match step with
      | .finished after | .token _ after | .failed _ after => step :: steps count after

theorem tokensWeight_tokens {cursor : Cursor} {found : List Token}
    (lexed : cursor.tokens = .ok found) : tokensWeight found ≤ cursor.rest.length := by
  fun_induction tokens cursor generalizing found with
  | case1 =>
      cases lexed
      exact Nat.zero_le _
  | case2 => cases lexed
  | case3 cursor token after next induction =>
      obtain ⟨others, rest, rfl⟩ := ok_of_map lexed
      have front := weight_le_of_next next
      have back := induction rest
      simp only [tokensWeight_cons]
      omega

end Cursor

theorem trimBlank_length_le (text : List Char) : (trimBlank text).length ≤ text.length := by
  have dropped : ∀ text : List Char, (text.dropWhile isBlank).length ≤ text.length :=
    fun text => (List.dropWhile_suffix isBlank).length_le
  unfold trimBlank trimBlankEnd trimBlankStart
  have front := dropped text
  have back := dropped (text.dropWhile isBlank).reverse
  simp only [List.length_reverse] at *
  omega

/-- The tokens of a text weigh no more than the text has characters. -/
theorem tokensWeight_tokenize {grammar : Grammar} {text : String} {found : List Token}
    (lexed : tokenize grammar text = .ok found) : tokensWeight found ≤ text.toList.length := by
  have bound := Cursor.tokensWeight_tokens lexed
  cases grammar with
  | selector => exact Nat.le_trans bound (trimBlank_length_le _)
  | expression => exact bound

end TreeQuery
