import TreeQuery.Proofs.Expr.Scanning
import TreeQuery.Proofs.Token.Stepping

/-!
How far a string reaches.

The scan for a closing parenthesis follows a string by its flags, and the rules of the grammars have
a pattern for it. Both end it at the first quote that no backslash takes. But a backslash of the
pattern does not take a line feed, so a string with such a line feed has an end for the scan only,
and a lexer that stands before it says that the string is not closed.
-/

namespace TreeQuery

namespace Arguments

/-- The quoting behind a text. -/
def Quoting.behind (quoting : Quoting) (text : List Char) : Quoting :=
  text.foldl Quoting.turn quoting

namespace Quoting

variable {quoting : Quoting} {c : Char} {front text : List Char}

@[simp] theorem behind_nil : quoting.behind [] = quoting := rfl

@[simp] theorem behind_cons : quoting.behind (c :: text) = (quoting.turn c).behind text := rfl

@[simp] theorem behind_append :
    quoting.behind (front ++ text) = (quoting.behind front).behind text := by
  simp [behind]

@[simp] theorem turn_escaped : Quoting.escaped.turn c = .inside := rfl

@[simp] theorem turn_backslash : Quoting.inside.turn '\\' = .escaped := rfl

@[simp] theorem turn_quote : Quoting.inside.turn '"' = .outside := rfl

theorem turn_plain (notQuote : c ≠ '"') (notEscape : c ≠ '\\') :
    Quoting.inside.turn c = .inside := by
  simp [turn, notQuote, notEscape]

end Quoting

/-- A scan that stands in a string leaves the string with the last character of a text. -/
structure LeavesString (body : List Char) : Prop where
  left : Quoting.inside.behind body = .outside
  first : ∀ front back, body = front ++ back → back ≠ [] → Quoting.inside.behind front ≠ .outside

/-- Whether a text has a line feed that a backslash of a string takes. -/
def TakesLineFeed (body : List Char) : Prop :=
  ∃ front back, body = front ++ '\n' :: back ∧ Quoting.inside.behind front = .escaped

variable {c : Char} {front body text : List Char} {quoting : Quoting} {depth : Nat}

/-! ## The scan -/

namespace LeavesString

theorem behind (front : List Char) (leaves : LeavesString (front ++ body))
    (stays : Quoting.inside.behind front = .inside) : LeavesString body where
  left := by
    have left := leaves.left
    rwa [Quoting.behind_append, stays] at left
  first := by
    intro before after split more
    have inFront := leaves.first (front ++ before) after (by rw [split, List.append_assoc]) more
    rwa [Quoting.behind_append, stays] at inFront

theorem stringBody (leaves : LeavesString body) : StringBody body := by
  -- An escape takes two characters at once, so the induction is on the length.
  induction size : body.length using Nat.strongRecOn generalizing body with
  | ind size shorter =>
      cases body with
      | nil => cases leaves.left
      | cons c body =>
          rw [List.length_cons] at size
          by_cases closes : c = '"'
          · cases body with
            | nil =>
                rw [closes]
                exact .closed
            | cons next body =>
                have goesOn := leaves.first [c] (next :: body) rfl (by simp)
                rw [closes] at goesOn
                exact absurd rfl goesOn
          · by_cases escapes : c = '\\'
            · subst escapes
              cases body with
              | nil => cases leaves.left
              | cons taken body =>
                  have later : LeavesString body := leaves.behind ['\\', taken] rfl
                  rw [List.length_cons] at size
                  exact .escaped (shorter body.length (by omega) later rfl)
            · have stays := Quoting.turn_plain closes escapes
              have later : LeavesString body := leaves.behind [c] stays
              exact .plain closes escapes (shorter body.length (by omega) later rfl)

theorem of_stringBody (isBody : StringBody body) : LeavesString body := by
  induction isBody with
  | closed =>
      refine ⟨rfl, fun front back split more => ?_⟩
      cases front with
      | nil => simp
      | cons first front =>
          have isEmpty := (List.cons.inj split).2.symm
          exact absurd (List.append_eq_nil_iff.mp isEmpty).2 more
  | @plain c body notQuote notEscape _ induction =>
      have stays := Quoting.turn_plain notQuote notEscape
      refine ⟨by rw [Quoting.behind_cons, stays, induction.left], ?_⟩
      intro front back split more
      cases front with
      | nil => simp
      | cons first front =>
          obtain ⟨rfl, others⟩ := List.cons.inj split
          rw [Quoting.behind_cons, stays]
          exact induction.first front back others more
  | @escaped c body _ induction =>
      refine ⟨induction.left, fun front back split more => ?_⟩
      cases front with
      | nil => simp
      | cons first front =>
          obtain ⟨rfl, behindFirst⟩ := List.cons.inj split
          cases front with
          | nil => simp
          | cons taken front =>
              obtain ⟨rfl, others⟩ := List.cons.inj behindFirst
              exact induction.first front back others more

end LeavesString

/-- The text up to the quote that closes a string, by the flags of the scan and by its spelling. -/
theorem leavesString_iff : LeavesString body ↔ StringBody body :=
  ⟨LeavesString.stringBody, LeavesString.of_stringBody⟩

theorem exists_leavesString {text : List Char} (outside : Quoting.inside.behind text = .outside) :
    ∃ body, body <+: text ∧ LeavesString body := by
  by_cases earlier : ∃ front back, text = front ++ back ∧ back ≠ [] ∧
      Quoting.inside.behind front = .outside
  · obtain ⟨front, back, split, more, outsideThere⟩ := earlier
    have shorter : front.length < text.length := by
      have positive := List.length_pos_iff.mpr more
      rw [split, List.length_append]
      omega
    obtain ⟨body, isPrefix, leaves⟩ := exists_leavesString outsideThere
    exact ⟨body, isPrefix.trans ⟨back, split.symm⟩, leaves⟩
  · refine ⟨text, List.prefix_rfl, outside, fun front back split more outsideThere => ?_⟩
    exact earlier ⟨front, back, split, more, outsideThere⟩
  termination_by text.length

/-- A scan that never gets out of its strings finds no closing parenthesis. -/
theorem splitFrom?_of_never_outside
    (never : ∀ front, front <+: text → quoting.behind front ≠ .outside) :
    splitFrom? depth quoting text = none := by
  induction text generalizing depth quoting with
  | nil => rfl
  | cons c text induction =>
      have notOutside : quoting ≠ .outside := never [] List.nil_prefix
      rw [splitFrom?_cons, if_neg fun closes => notOutside closes.1, induction]
      · rfl
      · intro front isPrefix
        exact never (c :: front) ((List.prefix_cons_inj c).mpr isPrefix)

theorem splitFrom?_inside_none (unclosed : ∀ body, body <+: text → ¬ LeavesString body) :
    splitFrom? depth .inside text = none := by
  refine splitFrom?_of_never_outside fun front isPrefix outside => ?_
  obtain ⟨body, isFront, leaves⟩ := exists_leavesString outside
  exact unclosed body (isFront.trans isPrefix) leaves

/-! ## Line feeds behind a backslash -/

theorem not_takesLineFeed_of_not_mem (noLineFeed : '\n' ∉ body) : ¬ TakesLineFeed body := by
  rintro ⟨front, back, rfl, _⟩
  simp at noLineFeed

theorem takesLineFeed_plain (notQuote : c ≠ '"') (notEscape : c ≠ '\\') :
    TakesLineFeed (c :: body) ↔ TakesLineFeed body := by
  have stays := Quoting.turn_plain notQuote notEscape
  constructor
  · rintro ⟨front, back, split, escapes⟩
    cases front with
    | nil => cases escapes
    | cons first front =>
        obtain ⟨rfl, others⟩ := List.cons.inj split
        rw [Quoting.behind_cons, stays] at escapes
        exact ⟨front, back, others, escapes⟩
  · rintro ⟨front, back, split, escapes⟩
    refine ⟨c :: front, back, by rw [split, List.cons_append], ?_⟩
    rw [Quoting.behind_cons, stays, escapes]

theorem takesLineFeed_escaped :
    TakesLineFeed ('\\' :: c :: body) ↔ c = '\n' ∨ TakesLineFeed body := by
  constructor
  · rintro ⟨front, back, split, escapes⟩
    cases front with
    | nil => cases escapes
    | cons first front =>
        obtain ⟨rfl, behindFirst⟩ := List.cons.inj split
        cases front with
        | nil => exact .inl (List.cons.inj behindFirst).1
        | cons taken front =>
            obtain ⟨rfl, others⟩ := List.cons.inj behindFirst
            exact .inr ⟨front, back, others, escapes⟩
  · rintro (rfl | takes)
    · exact ⟨['\\'], body, rfl, rfl⟩
    · obtain ⟨front, back, split, escapes⟩ := takes
      exact ⟨'\\' :: c :: front, back, by rw [split]; rfl, escapes⟩

end Arguments

/-! ## The rules -/

namespace TokenRule

open Pattern Arguments

variable {items body text : List Char}

theorem not_takesLineFeed_of_matches (found : (Pattern.many stringItem).Matches items) :
    ¬ TakesLineFeed (items ++ ['"']) := by
  generalize repeated : Pattern.many stringItem = whole at found
  induction found with
  | manyNil => exact not_takesLineFeed_of_not_mem (by decide)
  | @manyCons _ front back itemMatches _ _ induction =>
      cases repeated
      rcases matches_stringItem_iff.mp itemMatches with
        ⟨c, rfl, notQuote, notEscape⟩ | ⟨c, rfl, notLineFeed⟩
      · exact fun takes => induction rfl ((takesLineFeed_plain notQuote notEscape).mp takes)
      · intro takes
        rcases takesLineFeed_escaped.mp takes with isLineFeed | later
        · exact notLineFeed isLineFeed
        · exact induction rfl later
  | _ => cases repeated

theorem exists_items_of_stringBody (isBody : StringBody body) (plain : ¬ TakesLineFeed body) :
    ∃ items, body = items ++ ['"'] ∧ (Pattern.many stringItem).Matches items := by
  induction isBody with
  | closed => exact ⟨[], rfl, .manyNil⟩
  | @plain c body notQuote notEscape _ induction =>
      obtain ⟨items, rfl, others⟩ :=
        induction fun takes => plain ((takesLineFeed_plain notQuote notEscape).mpr takes)
      exact ⟨[c] ++ items, rfl,
        .manyCons (matches_stringItem_iff.mpr (.inl ⟨c, rfl, notQuote, notEscape⟩)) others⟩
  | @escaped c body _ induction =>
      obtain ⟨items, rfl, others⟩ :=
        induction fun takes => plain (takesLineFeed_escaped.mpr (.inr takes))
      have notLineFeed : c ≠ '\n' := fun same => plain (takesLineFeed_escaped.mpr (.inl same))
      exact ⟨['\\', c] ++ items, rfl,
        .manyCons (matches_stringItem_iff.mpr (.inr ⟨c, rfl, notLineFeed⟩)) others⟩

theorem matches_quoted_iff : quoted.Matches text ↔
    ∃ body, text = '"' :: body ∧ LeavesString body ∧ ¬ TakesLineFeed body := by
  rw [matches_quoted_iff_items]
  constructor
  · rintro ⟨items, rfl, itemsMatch⟩
    exact ⟨items ++ ['"'], rfl, .of_stringBody (stringBody_of_matches itemsMatch .closed),
      not_takesLineFeed_of_matches itemsMatch⟩
  · rintro ⟨body, rfl, leaves, plain⟩
    obtain ⟨items, rfl, itemsMatch⟩ :=
      exists_items_of_stringBody (leavesString_iff.mp leaves) plain
    exact ⟨items, rfl, itemsMatch⟩

end TokenRule

namespace Grammar

open TokenRule Arguments

variable {grammar : Grammar} {front body text : List Char}

/-- The kind of the tokens that strings make. -/
def stringKind : Grammar → TokenKind
  | .selector => .identifier
  | .expression => .string

/-- The rule of strings. That of a selector is also one of names, with an optional dot. -/
def stringRule (grammar : Grammar) : TokenRule where
  pattern :=
    match grammar with
    | .selector => dotted quoted
    | .expression => quoted
  kind := some grammar.stringKind

theorem stringRule_mem (grammar : Grammar) : grammar.stringRule ∈ grammar.rules := by
  cases grammar with
  | selector => simp [rules, selectorRules, stringRule, stringKind]
  | expression => simp [rules, expressionRules, stringRule, stringKind]

theorem stringRule_matches_iff : grammar.stringRule.pattern.Matches ('"' :: front) ↔
    LeavesString front ∧ ¬ TakesLineFeed front := by
  have asQuoted : quoted.Matches ('"' :: front) ↔ LeavesString front ∧ ¬ TakesLineFeed front := by
    rw [matches_quoted_iff]
    constructor
    · rintro ⟨body, same, isString⟩
      rwa [(List.cons.inj same).2]
    · exact fun isString => ⟨front, rfl, isString⟩
  cases grammar with
  | expression => exact asQuoted
  | selector =>
      rw [← asQuoted]
      constructor
      · intro found
        obtain ⟨dot, name, split, isDot, isName⟩ := exists_of_matches_dotted found
        rcases isDot with rfl | rfl
        · have isString : '"' :: front = name := split
          rwa [isString]
        · cases (List.cons.inj split).1
      · exact fun found => Pattern.matches_seq_iff.mpr ⟨[], _, rfl, .right .done, found⟩

/-- Only the rule of strings has texts that start with a quote. -/
theorem eq_stringRule {rule : TokenRule} (isRule : rule ∈ grammar.rules)
    (found : rule.pattern.Matches ('"' :: front)) : rule = grammar.stringRule := by
  have notAvoided : rule.pattern.avoids '"' ≠ true := fun avoids =>
    Pattern.not_mem_of_avoids avoids found List.mem_cons_self
  cases grammar with
  | selector =>
      rcases quoted_or_avoids isRule with isQuoted | avoids
      · exact isQuoted
      · exact absurd (avoids '"' (by simp)) notAvoided
  | expression =>
      rcases expressionRule_cases isRule with isQuoted | rfl | rfl | ⟨_, _, avoids⟩
      · exact isQuoted
      · exact absurd rfl notAvoided
      · exact absurd rfl notAvoided
      · exact absurd (avoids '"' (by simp)) notAvoided

theorem longest?_string (isPrefix : body <+: text) (leaves : LeavesString body)
    (plain : ¬ TakesLineFeed body) :
    longest? grammar.rules ('"' :: text) = some (grammar.stringRule, body.length + 1) := by
  have atFront : '"' :: body <+: '"' :: text := (List.prefix_cons_inj '"').mpr isPrefix
  refine longest?_of_unique grammar.stringRule_mem atFront (by simp)
    (stringRule_matches_iff.mpr ⟨leaves, plain⟩) ?_
  intro taker isRule more _ found
  have isString := eq_stringRule isRule found
  rw [isString, List.cons_append, stringRule_matches_iff] at found
  cases more with
  | nil => exact ⟨isString, rfl⟩
  | cons next more => exact absurd leaves.left (found.1.first body _ rfl (by simp))

theorem longest?_noString
    (unread : ∀ body, body <+: text → LeavesString body → TakesLineFeed body) :
    longest? grammar.rules ('"' :: text) = none := by
  cases found : longest? grammar.rules ('"' :: text) with
  | none => rfl
  | some taken =>
      obtain ⟨rule, length⟩ := taken
      obtain ⟨isPrefix, nonempty, spanMatches, -, -, -⟩ := takes_of_longest? found
      have isRule := longest?_mem found
      cases span : ('"' :: text).take length with
      | nil => exact absurd span nonempty
      | cons first body =>
          rw [span] at isPrefix spanMatches
          obtain ⟨rfl, inText⟩ := List.cons_prefix_cons.mp isPrefix
          rw [eq_stringRule isRule spanMatches, stringRule_matches_iff] at spanMatches
          exact absurd (unread body inText spanMatches.1) spanMatches.2

/-- Behind a quote, the scan for a closing parenthesis leaves the string at the quote that closes
it, or never. The rule of strings matches up to that same quote, in either grammar, but not over a
line feed that a backslash takes; and a lexer says that the string is not closed just where its rule
does not match. -/
theorem string_extent (text : List Char) :
    (∀ body, LeavesString body → Crosses .inside .outside body) ∧
    ((∀ body, body <+: text → ¬ LeavesString body) →
      ∀ depth, splitFrom? depth .inside text = none) ∧
    ∀ (grammar : Grammar) (position : Nat),
      (∀ front, front <+: '"' :: text → (grammar.stringRule.pattern.Matches front ↔
        ∃ body, front = '"' :: body ∧ LeavesString body ∧ ¬ TakesLineFeed body)) ∧
      (∀ body, body <+: text → LeavesString body → ¬ TakesLineFeed body →
        (Cursor.mk grammar position ('"' :: text)).next =
          (Cursor.mk grammar position ('"' :: text)).nextOfRule grammar.stringKind
            (body.length + 1)) ∧
      ((∃ place after, (Cursor.mk grammar position ('"' :: text)).next =
          .failed (.unterminatedString place) after) ↔
        ∀ body, body <+: text → LeavesString body → TakesLineFeed body) := by
  refine ⟨fun body leaves => .of_stringBody leaves.stringBody,
    fun unclosed depth => splitFrom?_inside_none unclosed, fun grammar position => ?_⟩
  · generalize isCursor : Cursor.mk grammar position ('"' :: text) = cursor
    have taken : ∀ body, body <+: text → LeavesString body → ¬ TakesLineFeed body →
        cursor.next = cursor.nextOfRule grammar.stringKind (body.length + 1) := by
      intro body isPrefix leaves plain
      have notBlob : cursor.rest.head? ≠ some '(' := by simp [← isCursor]
      have matched : longest? cursor.grammar.rules cursor.rest =
          some (grammar.stringRule, body.length + 1) := by
        rw [← isCursor]
        exact longest?_string isPrefix leaves plain
      exact Cursor.next_of_longest? cursor notBlob matched rfl
    refine ⟨fun front isPrefix => ?_, taken, ?_⟩
    · cases front with
      | nil =>
          constructor
          · intro found
            rw [← Pattern.nullable_iff] at found
            cases grammar <;> cases found
          · rintro ⟨body, same, _⟩
            cases same
      | cons first body =>
          obtain ⟨rfl, _⟩ := List.cons_prefix_cons.mp isPrefix
          rw [stringRule_matches_iff]
          constructor
          · exact fun isString => ⟨body, rfl, isString⟩
          · rintro ⟨other, same, isString⟩
            rwa [(List.cons.inj same).2]
    · constructor
      · rintro ⟨place, after, failed⟩ body isPrefix leaves
        refine Classical.byContradiction fun plain => ?_
        have takes := (Cursor.nextOfRule_takes cursor grammar.stringKind (body.length + 1)).1
        rw [← taken body isPrefix leaves plain, failed] at takes
        cases takes
      · intro unread
        have left : cursor.rest = '"' :: text := by rw [← isCursor]
        have noRule : longest? cursor.grammar.rules cursor.rest = none := by
          rw [← isCursor]
          exact longest?_noString unread
        exact ⟨_, _, Cursor.next_of_noRule left (by simp) noRule⟩

/-- A quote behind a backslash does not close a string, and the next one does. -/
theorem string_extent_escaped :
    LeavesString ['\\', '"', '"'] ∧ ¬ TakesLineFeed ['\\', '"', '"'] ∧
      Crosses .inside .outside ['\\', '"', '"'] ∧
      (Cursor.start .expression "\"\\\"\"x".toList).next =
        .token ⟨.string, "\"", 0⟩ ⟨.expression, 4, ['x']⟩ := by
  have leaves : LeavesString ['\\', '"', '"'] := .of_stringBody (.escaped .closed)
  have plain : ¬ TakesLineFeed ['\\', '"', '"'] := not_takesLineFeed_of_not_mem (by decide)
  obtain ⟨crosses, _, read⟩ := string_extent ['\\', '"', '"', 'x']
  obtain ⟨_, takes, _⟩ := read .expression 0
  have step := takes ['\\', '"', '"'] ⟨['x'], rfl⟩ leaves plain
  have value : (Cursor.mk .expression 0 "\"\\\"\"x".toList).nextOfRule .string 4 =
      .token ⟨.string, "\"", 0⟩ ⟨.expression, 4, ['x']⟩ := by decide +kernel
  exact ⟨leaves, plain, crosses _ leaves, step.trans value⟩

/-- The scan leaves a string with a line feed behind a backslash, and neither rule matches it. -/
theorem string_extent_lineFeed :
    LeavesString ['\\', '\n', '"'] ∧ Crosses .inside .outside ['\\', '\n', '"'] ∧
      ∀ grammar : Grammar,
        ¬ grammar.stringRule.pattern.Matches ['"', '\\', '\n', '"'] ∧
          (Cursor.start grammar ['"', '\\', '\n', '"']).next =
            .failed (.unterminatedString 0) ⟨grammar, 0, ['"', '\\', '\n', '"']⟩ := by
  have isBody : StringBody ['\\', '\n', '"'] := .escaped .closed
  refine ⟨.of_stringBody isBody, .of_stringBody isBody, fun grammar => ⟨fun found => ?_, ?_⟩⟩
  · exact (stringRule_matches_iff.mp found).2 (takesLineFeed_escaped.mpr (.inl rfl))
  · cases grammar <;> decide +kernel

end Grammar

end TreeQuery
