import TreeQuery.Element
import TreeQuery.Text.Pattern
import TreeQuery.Token
import TreeQuery.Vocabulary

/-!
The token rules of the two grammars.

A rule is a pattern and the kind of the tokens that it makes. At each place the rule with the
longest match makes the token, and the first one of several with the same length.
-/

namespace TreeQuery

/-! ## White space -/

/-- The code points with the property `White_Space`. -/
def blankRanges : List (Nat × Nat) :=
  [(0x9, 0xd), (0x20, 0x20), (0x85, 0x85), (0xa0, 0xa0), (0x1680, 0x1680), (0x2000, 0x200a),
    (0x2028, 0x2029), (0x202f, 0x202f), (0x205f, 0x205f), (0x3000, 0x3000)]

def isBlank (c : Char) : Bool :=
  blankRanges.any fun (first, last) => first ≤ c.toNat && c.toNat ≤ last

def trimBlankStart (text : List Char) : List Char :=
  text.dropWhile isBlank

def trimBlankEnd (text : List Char) : List Char :=
  (text.reverse.dropWhile isBlank).reverse

/-- A text without the white space at its ends. -/
def trimBlank (text : List Char) : List Char :=
  trimBlankEnd (trimBlankStart text)

/-- The characters of the ranges, by their code points. -/
def blankCodes : List Nat :=
  blankRanges.flatMap fun (first, last) => List.range' first (last + 1 - first)

theorem toNat_mem_blankCodes {c : Char} (blank : isBlank c = true) : c.toNat ∈ blankCodes := by
  obtain ⟨range, isRange, inside⟩ := List.any_eq_true.mp blank
  rw [Bool.and_eq_true, decide_eq_true_eq, decide_eq_true_eq] at inside
  refine List.mem_flatMap.mpr ⟨range, isRange, ?_⟩
  rw [List.mem_range'_1]
  omega

/-! ## Rules -/

structure TokenRule where
  pattern : Pattern
  /-- The kind of the tokens, or nothing for text that is skipped. -/
  kind : Option TokenKind

namespace TokenRule

/-! ## Character classes -/

/-- A character that starts a bare name: a letter, an underscore or anything beyond ASCII. -/
def startsName (c : Char) : Bool :=
  c == '_' || c.isAlpha || 0x7f < c.toNat

def continuesName (c : Char) : Bool :=
  startsName c || c.isDigit || c == '-'

def inReference (c : Char) : Bool :=
  c.isAlphanum || c == '_' || c == '-' || c == '.' || c == '/' || c == ':' || c == '@'

/-! ## Parts of patterns -/

def blanks : Pattern :=
  .many (.one isBlank)

/-- A sign with any white space around it. -/
def spaced (sign : Char) : Pattern :=
  .all [blanks, .char sign, blanks]

def digits : Pattern :=
  .atLeastOnce (.one Char.isDigit)

/-- Digits, then optionally a fraction, then optionally an exponent. -/
def unsignedNumber : Pattern :=
  .all [digits, .optional (.seq (.char '.') digits),
    .optional (.all [.one fun c => c == 'e' || c == 'E',
      .optional (.one fun c => c == '+' || c == '-'), digits])]

/-- A quote, then characters of which a backslash takes the next one with it, then a quote. A
backslash does not take a line feed. -/
def quoted : Pattern :=
  .all [.char '"',
    .many (.either (.one fun c => c != '"' && c != '\\')
      (.seq (.char '\\') (.one fun c => c != '\n'))),
    .char '"']

def oneWord (words : List String) : Pattern :=
  .oneOf (words.map Pattern.text)

def colonWord (words : List String) : Pattern :=
  .seq (.char ':') (oneWord words)

def dotted (name : Pattern) : Pattern :=
  .seq (.optional (.char '.')) name

/-! ## The tables -/

def kindWords : List String :=
  [Kind.string, .number, .bool, .null, .array, .map, .object].map Kind.word

def pseudoClassWords : List String :=
  [PseudoClass.root, .empty, .firstChild, .lastChild, .onlyChild].map PseudoClass.word

def selectorRules : List TokenRule :=
  [⟨.char '*', some .operator⟩,
    ⟨spaced ',', some .operator⟩,
    ⟨spaced '>', some .operator⟩,
    ⟨spaced '~', some .operator⟩,
    ⟨.atLeastOnce (.one isBlank), some .operator⟩,
    ⟨oneWord kindWords, some .nativeKind⟩,
    ⟨.all [.char '[', .atLeastOnce (.one inReference), .char ']'], some .declaredType⟩,
    ⟨dotted (.seq (.one startsName) (.many (.one continuesName))), some .identifier⟩,
    ⟨dotted quoted, some .identifier⟩,
    ⟨.seq (.optional (.char '-')) unsignedNumber, some .literal⟩,
    ⟨colonWord pseudoClassWords, some .pseudoClass⟩,
    ⟨colonWord ["nth-child", "nth-last-child"], some .nthFunction⟩,
    ⟨colonWord ["has", "expr", "val", "contains"], some .pseudoClassFunction⟩]

def expressionRules : List TokenRule :=
  [⟨.atLeastOnce (.one isBlank), none⟩,
    ⟨quoted, some .string⟩,
    ⟨unsignedNumber, some .number⟩,
    ⟨oneWord ["true", "false", "null"], some .keyword⟩,
    ⟨.char 'x', some .current⟩,
    ⟨oneWord (BinaryOperator.all.map BinaryOperator.symbol), some .binaryOperator⟩,
    ⟨.char '(', some .leftParen⟩,
    ⟨.char ')', some .rightParen⟩]

/-- The rule with the longest match at the start of a text, and the length of that match. An
empty match does not count. -/
def longest? : List TokenRule → List Char → Option (TokenRule × Nat)
  | [], _ => none
  | rule :: rules, text =>
      let other := longest? rules text
      match rule.pattern.longest? text with
      | none => other
      | some length =>
          if 0 < length ∧ other.all (fun found => found.2 ≤ length) then
            some (rule, length)
          else
            other

theorem longest?_positive {rules : List TokenRule} {text : List Char} {rule : TokenRule}
    {length : Nat} (found : longest? rules text = some (rule, length)) : 0 < length := by
  induction rules with
  | nil => cases found
  | cons first rules induction =>
      simp only [longest?] at found
      split at found
      · exact induction found
      · split at found
        · rename_i longer
          cases found
          exact longer.1
        · exact induction found

theorem longest?_mem {rules : List TokenRule} {text : List Char} {rule : TokenRule}
    {length : Nat} (found : longest? rules text = some (rule, length)) : rule ∈ rules := by
  induction rules with
  | nil => cases found
  | cons first rules induction =>
      simp only [longest?] at found
      split at found
      · exact List.mem_cons_of_mem _ (induction found)
      · split at found
        · cases found
          exact List.mem_cons_self
        · exact List.mem_cons_of_mem _ (induction found)

end TokenRule

def Grammar.rules : Grammar → List TokenRule
  | .selector => TokenRule.selectorRules
  | .expression => TokenRule.expressionRules

/-- Arguments in parentheses are read apart from the rules. -/
theorem Grammar.rules_not_arguments (grammar : Grammar) :
    ∀ rule ∈ grammar.rules, rule.kind ≠ some .arguments := by
  cases grammar <;> simp [rules, TokenRule.selectorRules, TokenRule.expressionRules]

end TreeQuery
