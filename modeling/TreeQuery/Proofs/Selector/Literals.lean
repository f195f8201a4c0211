import TreeQuery.Proofs.Document.Plain
import TreeQuery.Proofs.Expr.Rendering
import TreeQuery.Proofs.Number.Canonical
import TreeQuery.Proofs.Selector.Arguments
import TreeQuery.Proofs.Selector.Has
import TreeQuery.Proofs.Selector.Protocol
import TreeQuery.Proofs.Token.Literals

/-!
Literals in predicates and in expressions.

A string or a number can be compared with the nodes of a document in two ways: by the canonical text
that `:val(…)` and `:contains(…)` look at, and by the typed value that an `:expr(…)` looks at. On
documents of plain JSON the two ways agree, because a string is its own canonical text and numbers
with the same canonical text are equal.
-/

namespace TreeQuery

open TokenRule

/-! ## Literals in expressions -/

namespace Expr

variable {literal : String} {text : List Char}

/-- The element under test before an operator and an operand. -/
theorem ofText_current (operator : BinaryOperator) {pieces : List Piece} {operand : Expr}
    (phrase : Phrase signTier (pieces.map Piece.token) operand)
    (spelled : ∀ piece ∈ pieces, Spelling piece.span piece.token.kind piece.token.value)
    (gapsBlank : ∀ piece ∈ pieces, ∀ c ∈ piece.gap, isBlank c = true)
    (isText : ' ' :: literal.toList = Piece.join pieces) :
    ofText ("x " ++ operator.symbol ++ " " ++ literal) =
      .ok (.binary operator .current operand) := by
  let current : Piece := ⟨[], ['x'], ⟨.current, "x", 0⟩⟩
  let sign : Piece := ⟨[' '], operator.symbol.toList, ⟨.binaryOperator, operator.symbol, 0⟩⟩
  have inTable : operator.tier + 1 ≤ signTier := by cases operator <;> decide
  have isTier : operator.tier ≤ operandTier := by cases operator <;> decide
  have left : Phrase operator.tier [current.token] .current :=
    (Phrase.atom (.current rfl)).looser_of_le isTier (Nat.le_refl _)
  have right : Phrase (operator.tier + 1) (pieces.map Piece.token) operand :=
    phrase.looser_of_le inTable (by decide)
  have comparison : Phrase operator.tier ((current :: sign :: pieces).map Piece.token)
      (.binary operator .current operand) :=
    .binary rfl rfl left right
  have noTail : ∀ c ∈ ([] : List Char), isBlank c = true := by simp
  refine ofText_of_phrase (comparison.looser_of_le (Nat.zero_le _) isTier) ?_ ?_ noTail ?_
  · exact List.forall_mem_cons.mpr
      ⟨.current, List.forall_mem_cons.mpr ⟨.operator operator, spelled⟩⟩
  · exact List.forall_mem_cons.mpr
      ⟨by simp [current], List.forall_mem_cons.mpr ⟨isBlank_space, gapsBlank⟩⟩
  · rw [Piece.join_cons, Piece.join_cons, ← isText]
    simp [current, sign]

theorem ofText_current_string (operator : BinaryOperator)
    (decodes : JsonString.decode? literal.toList = some text) :
    ofText ("x " ++ operator.symbol ++ " " ++ literal) =
      .ok (.binary operator .current (.string (String.ofList text))) := by
  let piece : Piece := ⟨[' '], literal.toList, ⟨.string, String.ofList text, 0⟩⟩
  have phrase : Phrase operandTier ([piece].map Piece.token) (.string (String.ofList text)) :=
    .atom (.string rfl)
  refine ofText_current operator (phrase.looser_of_le (by decide) (Nat.le_refl _))
    (List.forall_mem_singleton.mpr (.string decodes))
    (List.forall_mem_singleton.mpr isBlank_space) (by simp [piece])

/-- A sign before a number is an operator in an expression, and part of the number all the same. -/
theorem ofText_current_number (operator : BinaryOperator)
    (isNumber : TokenRule.number.Matches literal.toList) :
    ∃ value, Number.ofText? literal = some value ∧
      ofText ("x " ++ operator.symbol ++ " " ++ literal) =
        .ok (.binary operator .current (.number value)) := by
  obtain ⟨sign, unsigned, spelled, isSign, isUnsigned⟩ := Pattern.matches_seq_iff.mp isNumber
  obtain ⟨decimal, reads, readsSigned⟩ := Number.exists_decimal_of_matches isUnsigned
  have readsText : Number.ofText? (String.ofList unsigned) =
      some (.ofDecimal false decimal) := by
    rw [Number.ofText?, String.toList_ofList]
    exact reads
  have isAtom : Atom ⟨.number, String.ofList unsigned, 0⟩ (.number (.ofDecimal false decimal)) :=
    .number rfl readsText
  have isNumberPhrase := (Phrase.atom isAtom).looser_of_le (show signTier ≤ operandTier by decide)
    (Nat.le_refl _)
  rcases matches_optional_iff.mp isSign with isMinus | rfl
  · obtain ⟨c, rfl, accepted⟩ := Pattern.matches_one_iff.mp isMinus
    rw [beq_iff_eq.mp accepted] at spelled
    let minus : Piece := ⟨[' '], ['-'], ⟨.binaryOperator, "-", 0⟩⟩
    let digits : Piece := ⟨[], unsigned, ⟨.number, String.ofList unsigned, 0⟩⟩
    refine ⟨.ofDecimal true decimal, ?_, ?_⟩
    · rw [Number.ofText?, spelled]
      exact readsSigned
    · have phrase : Phrase signTier ([minus, digits].map Piece.token)
          (.number (Number.ofDecimal false decimal).neg) :=
        .minusNumber rfl rfl isNumberPhrase
      rw [Number.neg_ofDecimal] at phrase
      refine ofText_current operator phrase ?_ ?_ ?_
      · exact List.forall_mem_cons.mpr
          ⟨.operator .subtract, List.forall_mem_singleton.mpr (.number isUnsigned)⟩
      · exact List.forall_mem_cons.mpr ⟨isBlank_space, by simp [digits]⟩
      · simp [minus, digits, spelled]
  · let digits : Piece := ⟨[' '], unsigned, ⟨.number, String.ofList unsigned, 0⟩⟩
    have phrase : Phrase signTier ([digits].map Piece.token)
        (.number (.ofDecimal false decimal)) := isNumberPhrase
    refine ⟨.ofDecimal false decimal, ?_, ?_⟩
    · rw [Number.ofText?, spelled]
      exact reads
    · exact ofText_current operator phrase
        (List.forall_mem_singleton.mpr (.number isUnsigned))
        (List.forall_mem_singleton.mpr isBlank_space) (by simp [digits, spelled])

end Expr

/-! ## Levels of literals -/

namespace Level

variable {scope : PackageScope} {name inner literal : String} {text : List Char} {test : Test}

theorem literal_string (name : String) (decodes : JsonString.decode? inner.toList = some text) :
    Level.literal name inner = .ok ⟨.identifier, String.ofList text, 0⟩ := by
  rw [Level.literal, selectorTokens, tokenize_string decodes]
  rfl

theorem literal_number (name : String) (isNumber : number.Matches inner.toList) :
    Level.literal name inner = .ok ⟨.literal, inner, 0⟩ := by
  rw [Level.literal, selectorTokens, tokenize_number isNumber]
  rfl

theorem functionTest_contains (decodes : JsonString.decode? inner.toList = some text) :
    functionTest "contains" inner = .ok (.contains (String.ofList text)) := by
  rw [functionTest, literal_string "contains" decodes]
  rfl

theorem functionTest_val_string (decodes : JsonString.decode? inner.toList = some text) :
    functionTest "val" inner = .ok (.val (String.ofList text)) := by
  rw [functionTest, literal_string "val" decodes]
  rfl

theorem functionTest_val_number {value : Number} (isNumber : number.Matches inner.toList)
    (reads : Number.ofText? inner = some value) :
    functionTest "val" inner = .ok (.val value.canonicalText) := by
  rw [functionTest, literal_number "val" isNumber]
  simp [Except.map, literalText, reads]

/-- Two units of ascending categories are a level of two tests. -/
theorem read_pair {category later : Category} {unit other : List Token} {otherTest : Test}
    (isUnit : IsUnit scope category unit test) (isOther : IsUnit scope later other otherTest)
    (inOrder : category.rank < later.rank) :
    read scope (unit ++ other) = .ok ([test, otherTest], []) := by
  refine read_ok_iff.mpr ⟨[⟨category, unit, test⟩, ⟨later, other, otherTest⟩], by simp, rfl, ?_⟩
  exact {
    units := by simp [isUnit, isOther]
    listed := by simp [Category.mem_all]
    ascending := by simp [inOrder]
    spelled := by simp
    maximal := by simp
  }

theorem reads_function (scope : PackageScope) (isName : name ∈ ["has", "expr", "val", "contains"])
    (crosses : Arguments.Crosses .outside .outside inner.toList)
    (reads : functionTest name inner = .ok test) :
    ∃ tokens, tokenize .selector (functionSelector name inner) = .ok tokens ∧
      read scope tokens = .ok ([test], []) :=
  ⟨_, tokenize_functionSelector isName crosses, read_function scope reads _ _⟩

theorem reads_kindFunction (scope : PackageScope) (kind : Kind)
    (isName : name ∈ ["has", "expr", "val", "contains"])
    (crosses : Arguments.Crosses .outside .outside inner.toList)
    (reads : functionTest name inner = .ok test) :
    ∃ tokens, tokenize .selector (kind.word ++ functionSelector name inner) = .ok tokens ∧
      read scope tokens = .ok ([.native kind, test], []) := by
  obtain ⟨tokens, lexed, contents⟩ := tokenize_kindFunction kind isName crosses
  have native : IsUnit scope .native [⟨.nativeKind, kind.word, 0⟩] (.native kind) :=
    .native rfl (Kind.ofWord?_word kind)
  have function : IsUnit scope .function [⟨.pseudoClassFunction, name, 0⟩,
      ⟨.arguments, "(" ++ inner ++ ")", 0⟩] test :=
    .function rfl rfl (by rw [innerText_parentheses]; exact reads)
  obtain ⟨rest, noRest, wasRead⟩ := read_congr (read_pair native function (by decide))
    contents.symm
  rw [List.map_eq_nil_iff.mp noRest.symm] at wasRead
  exact ⟨tokens, lexed, wasRead⟩

end Level

/-! ## Nodes and values -/

namespace Query

variable {query : Query} {tokens : List Token} {tests others : List Level.Test} {id : NodeId}
  {node : Node}

/-- A level without an inner selector selects the nodes that pass its tests. -/
theorem outcome_matchesAmong_level (level : Level.read query.scope tokens = .ok (tests, []))
    (noHas : ∀ inner, Predicate.has inner ∉ tests) :
    (query.matchesAmong tokens query.document.all 0).outcome =
      .ok (query.document.all.filter fun id => query.Passes tests id) := by
  have quiet : ∀ id ∈ query.document.all, ∃ passes, Plan.holdsAll query.document
      (tests.map (Plan.ofTest query.scope)) id 0 = Pure.pure passes :=
    fun id _ => holdsAll_quiet query noHas id 0
  obtain ⟨selected, filtered⟩ := Traced.filter_of_pure quiet
  have outcome := congrArg Traced.outcome filtered
  rw [matchesAmong, Plan.ofTokens_final level, Plan.outcome_run_final, outcome,
    filter_passes outcome]

theorem outcome_select_level {selector : String}
    (lexed : tokenize .selector selector = .ok tokens)
    (level : Level.read query.scope tokens = .ok (tests, []))
    (noHas : ∀ inner, Predicate.has inner ∉ tests) :
    (query.select selector).outcome =
      .ok (query.document.all.filter fun id => query.Passes tests id) := by
  rw [select, lexed]
  exact outcome_matchesAmong_level level noHas

theorem holds_native {kind : Kind} (present : query.document.node? id = some node) :
    query.Holds (.native kind) id ↔ node.element.kind = kind := by
  apply Iff.trans (holds_iff_of_looks rfl present)
  rw [decide_eq_true_iff]

theorem holds_contains {part : String} (present : query.document.node? id = some node) :
    query.Holds (.contains part) id ↔
      node.element.kind = .string ∧ part.toList <:+: node.element.ownText.toList := by
  apply Iff.trans (holds_iff_of_looks rfl present)
  rw [Bool.and_eq_true, decide_eq_true_iff, occursIn_iff]

theorem holds_val {text : String} (present : query.document.node? id = some node) :
    query.Holds (.val text) id ↔ node.element.canonicalText = text := by
  apply Iff.trans (holds_iff_of_looks rfl present)
  rw [beq_iff_eq]

theorem holds_expr {expr : Expr} (present : query.document.node? id = some node) :
    query.Holds (.expr expr) id ↔ expr.test node.element = true := by
  apply Iff.trans (holds_iff_of_looks rfl present)
  exact Iff.rfl

end Query

namespace Value

/-- Values of different types are not equal. -/
theorem equal_of_kind_ne {left right : Value} (differ : left.kind ≠ right.kind) :
    left.equal right = false := by
  cases left with
  | collection element =>
      cases right with
      | collection other =>
          have notSame : decide (element.kind = other.kind) = false := decide_eq_false differ
          rw [equal, notSame, Bool.false_and]
      | _ => rfl
  | string =>
      cases right with
      | string => exact absurd rfl differ
      | _ => rfl
  | number =>
      cases right with
      | number => exact absurd rfl differ
      | _ => rfl
  | bool =>
      cases right with
      | bool => exact absurd rfl differ
      | _ => rfl
  | null =>
      cases right with
      | null => exact absurd rfl differ
      | _ => rfl

theorem stringTest_of_kind_ne {holds : List Char → List Char → Bool} {left right : Value}
    (notString : left.kind ≠ .string) : stringTest holds left right = .bool false := by
  cases left with
  | string => exact absurd rfl notString
  | _ => rfl

end Value

namespace Element

variable {element : Element}

/-- What an element is compared as: a string, a finite number, or a value that equals neither. -/
inductive ComparedAs (element : Element) : Value → Prop where
  | string (isString : element.kind = .string)
      (isCanonical : element.canonicalText = element.ownText) :
      ComparedAs element (.string element.ownText)
  | number {value : Number} (isNumber : element.kind = .number) (isFinite : value.isFinite = true)
      (isCanonical : element.canonicalText = value.canonicalText) :
      ComparedAs element (.number value)
  | other {value : Value} (sameKind : value.kind = element.kind)
      (notString : element.kind ≠ .string) (notNumber : element.kind ≠ .number) :
      ComparedAs element value

theorem IsPlain.comparedAs (isPlain : element.IsPlain) :
    element.ComparedAs (.ofElement element) := by
  cases isPlain with
  | scalar isScalar =>
      cases isScalar with
      | null => exact .other rfl nofun nofun
      | bool => exact .other rfl nofun nofun
      | number isFinite => exact .number rfl isFinite rfl
      | string => exact .string rfl rfl
  | array => exact .other rfl nofun nofun
  | @keyed _ shape =>
      cases shape with
      | map => exact .other rfl nofun nofun
      | object => exact .other rfl nofun nofun

theorem ComparedAs.kind_eq {value : Value} (compared : element.ComparedAs value) :
    value.kind = element.kind := by
  cases compared with
  | string isString => exact isString.symm
  | number isNumber => exact isNumber.symm
  | other sameKind => exact sameKind

theorem ComparedAs.eq_ownText {value : Value} (compared : element.ComparedAs value)
    (isString : element.kind = .string) :
    value = .string element.ownText ∧ element.canonicalText = element.ownText := by
  cases compared with
  | string _ isCanonical => exact ⟨rfl, isCanonical⟩
  | number isNumber => cases isNumber.symm.trans isString
  | other _ notString => exact absurd isString notString

theorem IsPlain.test_contains (isPlain : element.IsPlain) (part : String) :
    (Expr.binary .contains .current (.string part)).test element = true ↔
      element.kind = .string ∧ part.toList <:+: element.ownText.toList := by
  have isTest : (Expr.binary .contains .current (.string part)).test element =
      (Value.stringTest (fun text inner => occursIn inner text) (.ofElement element)
        (.string part)).isTruthy := rfl
  rw [isTest, ← occursIn_iff]
  have compared := isPlain.comparedAs
  by_cases isString : element.kind = .string
  · rw [(compared.eq_ownText isString).1]
    exact (and_iff_right isString).symm
  · have otherKind : (Value.ofElement element).kind ≠ .string := compared.kind_eq ▸ isString
    rw [Value.stringTest_of_kind_ne otherKind]
    simp [isString, Value.isTruthy]

theorem IsPlain.test_equal_string (isPlain : element.IsPlain) (text : String) :
    (Expr.binary .equal .current (.string text)).test element = true ↔
      element.kind = .string ∧ element.canonicalText = text := by
  have isTest : (Expr.binary .equal .current (.string text)).test element =
      (Value.ofElement element).equal (.string text) := rfl
  rw [isTest]
  have compared := isPlain.comparedAs
  by_cases isString : element.kind = .string
  · obtain ⟨isText, isCanonical⟩ := compared.eq_ownText isString
    have isEqual : (Value.string element.ownText).equal (.string text) =
        (element.ownText == text) := rfl
    rw [isText, isCanonical, isEqual, beq_iff_eq, and_iff_right isString]
  · have otherKind : (Value.ofElement element).kind ≠ (Value.string text).kind :=
      compared.kind_eq ▸ isString
    rw [Value.equal_of_kind_ne otherKind]
    simp [isString]

/-- A finite number equals a literal where their canonical texts are the same. -/
theorem IsPlain.test_equal_number (isPlain : element.IsPlain) (literal : Number) :
    (Expr.binary .equal .current (.number literal)).test element = true ↔
      element.kind = .number ∧ element.canonicalText = literal.canonicalText := by
  have isTest : (Expr.binary .equal .current (.number literal)).test element =
      (Value.ofElement element).equal (.number literal) := rfl
  rw [isTest]
  have compared := isPlain.comparedAs
  by_cases isNumber : element.kind = .number
  · generalize Value.ofElement element = value at compared
    cases compared with
    | string isString => cases isString.symm.trans isNumber
    | number _ isFinite isCanonical =>
        rw [isCanonical, Number.canonicalText_eq_iff isFinite]
        exact (and_iff_right isNumber).symm
    | other _ _ notNumber => exact absurd isNumber notNumber
  · have otherKind : (Value.ofElement element).kind ≠ (Value.number literal).kind :=
      compared.kind_eq ▸ isNumber
    rw [Value.equal_of_kind_ne otherKind]
    simp [isNumber]

end Element

/-! ## Agreement -/

namespace Query

variable {query : Query} {first second literal : String} {tests others : List Level.Test}

/-- Two selectors have the same answer. -/
def Agree (query : Query) (first second : String) : Prop :=
  ∃ selected, (query.select first).outcome = .ok selected ∧
    (query.select second).outcome = .ok selected

theorem agree_of_levels
    (firstReads : ∃ tokens, tokenize .selector first = .ok tokens ∧
      Level.read query.scope tokens = .ok (tests, []))
    (secondReads : ∃ tokens, tokenize .selector second = .ok tokens ∧
      Level.read query.scope tokens = .ok (others, []))
    (noHas : ∀ inner, Predicate.has inner ∉ tests ∧ Predicate.has inner ∉ others)
    (same : ∀ id node, query.document.node? id = some node →
      (query.Passes tests id ↔ query.Passes others id)) : query.Agree first second := by
  obtain ⟨tokens, lexed, level⟩ := firstReads
  obtain ⟨otherTokens, otherLexed, otherLevel⟩ := secondReads
  refine ⟨_, outcome_select_level lexed level fun inner => (noHas inner).1, ?_⟩
  rw [outcome_select_level otherLexed otherLevel fun inner => (noHas inner).2]
  refine congrArg Except.ok (List.filter_congr fun id isNode => ?_)
  obtain ⟨node, present⟩ := Document.exists_node?_of_mem_all isNode
  exact decide_eq_decide.mpr (same id node present).symm

/-- An expression that compares the element under test with a literal is read as one test. -/
theorem reads_comparison (scope : PackageScope) (operator : BinaryOperator) {operand : Expr}
    (parsed : Expr.ofText ("x " ++ operator.symbol ++ " " ++ literal) =
      .ok (.binary operator .current operand)) :
    ∃ tokens, tokenize .selector
        (functionSelector "expr" ("x " ++ operator.symbol ++ " " ++ literal)) = .ok tokens ∧
      Level.read scope tokens = .ok ([.expr (.binary operator .current operand)], []) :=
  Level.reads_function scope (by simp) (Expr.crosses_of_ofText parsed)
    (Level.functionTest_expr parsed)

theorem passes_one {test : Level.Test} {id : NodeId} :
    query.Passes [test] id ↔ query.Holds test id := by
  simp [Passes]

theorem passes_two {test other : Level.Test} {id : NodeId} :
    query.Passes [test, other] id ↔ query.Holds test id ∧ query.Holds other id := by
  simp [Passes]

/-- On the document of a JSON value with finite numbers, a string literal is contained in the same
strings and equal to the same strings in a predicate and in an expression, and a number literal is
equal to the same numbers, whatever its sign, its size and its spelling. -/
theorem select_literals_agree {limit : Nat} {scope : PackageScope} {json : Json}
    (isFinite : json.IsFinite) (mapped : ofElement limit scope (.ofJson json) = .ok query) :
    (∀ (literal : String) (text : List Char), JsonString.decode? literal.toList = some text →
      query.Agree (":contains(" ++ literal ++ ")") (":expr(x *= " ++ literal ++ ")") ∧
        query.Agree ("string:val(" ++ literal ++ ")") (":expr(x = " ++ literal ++ ")")) ∧
      ∀ literal : String, number.Matches literal.toList →
        query.Agree ("number:val(" ++ literal ++ ")") (":expr(x = " ++ literal ++ ")") := by
  have isPlain (id : NodeId) (node : Node) (present : query.document.node? id = some node) :
      node.element.IsPlain := by
    rw [document_eq_of_ofElement mapped] at present
    exact Document.isPlain_of_node? (Element.isPlain_ofJson isFinite) present
  have equation (literal : String) : ":expr(x = " ++ literal ++ ")" = functionSelector "expr"
      ("x " ++ BinaryOperator.equal.symbol ++ " " ++ literal) := by
    simp [← String.toList_inj, functionSelector, BinaryOperator.symbol]
  have kindVal (kind : Kind) (literal : String) : kind.word ++ ":val(" ++ literal ++ ")" =
      kind.word ++ functionSelector "val" literal := by
    simp [← String.toList_inj, functionSelector]
  refine ⟨fun literal text decodes => ⟨?_, ?_⟩, fun literal isNumber => ?_⟩
  · have crosses := crosses_of_tokenize (tokenize_string decodes)
    have containment : ":expr(x *= " ++ literal ++ ")" = functionSelector "expr"
        ("x " ++ BinaryOperator.contains.symbol ++ " " ++ literal) := by
      simp [← String.toList_inj, functionSelector, BinaryOperator.symbol]
    have predicate := Level.reads_function query.scope (by simp) crosses
      (Level.functionTest_contains decodes)
    have expression := reads_comparison query.scope .contains
      (Expr.ofText_current_string .contains decodes)
    rw [containment]
    refine agree_of_levels predicate expression (by simp) fun id node present => ?_
    rw [passes_one, passes_one, holds_contains present, holds_expr present,
      (isPlain id node present).test_contains]
  · have crosses := crosses_of_tokenize (tokenize_string decodes)
    have predicate := Level.reads_kindFunction query.scope .string (by simp) crosses
      (Level.functionTest_val_string decodes)
    have expression := reads_comparison query.scope .equal
      (Expr.ofText_current_string .equal decodes)
    rw [equation, show "string:val(" = Kind.string.word ++ ":val(" from rfl, kindVal]
    refine agree_of_levels predicate expression (by simp) fun id node present => ?_
    rw [passes_two, passes_one, holds_native present, holds_val present, holds_expr present,
      (isPlain id node present).test_equal_string]
  · obtain ⟨value, reads, parsed⟩ := Expr.ofText_current_number .equal isNumber
    have crosses := crosses_of_tokenize (tokenize_number isNumber)
    have predicate := Level.reads_kindFunction query.scope .number (by simp) crosses
      (Level.functionTest_val_number isNumber reads)
    have expression := reads_comparison query.scope .equal parsed
    rw [equation, show "number:val(" = Kind.number.word ++ ":val(" from rfl, kindVal]
    refine agree_of_levels predicate expression (by simp) fun id node present => ?_
    rw [passes_two, passes_one, holds_native present, holds_val present, holds_expr present,
      (isPlain id node present).test_equal_number]

/-- An escaped parenthesis, a negative zero, and a number that is a hundred in another spelling. -/
theorem select_literals_agree_spellings :
    let json : Json := .array [.string "(", .number (.zero true), .integer 0, .integer 100]
    let query : Query := ⟨.ofTree (.ofJson json), ⟨"", []⟩⟩
    json.IsFinite ∧ ofElement 512 ⟨"", []⟩ (.ofJson json) = .ok query ∧
      (JsonString.decode? "\"\\u0028\"".toList = some ['('] ∧
        query.Agree (":contains(" ++ "\"\\u0028\"" ++ ")")
          (":expr(x *= " ++ "\"\\u0028\"" ++ ")") ∧
          (query.select ":contains(\"\\u0028\")").outcome = .ok [1]) ∧
      (number.Matches "-0.0".toList ∧
        query.Agree ("number:val(" ++ "-0.0" ++ ")") (":expr(x = " ++ "-0.0" ++ ")") ∧
          (query.select "number:val(-0.0)").outcome = .ok [2, 3]) ∧
      number.Matches "1e+2".toList ∧
        query.Agree ("number:val(" ++ "1e+2" ++ ")") (":expr(x = " ++ "1e+2" ++ ")") ∧
          (query.select "number:val(1e+2)").outcome = .ok [4] := by
  intro json query
  have isFinite : json.IsFinite := by
    refine .array ?_
    simp only [List.forall_mem_cons, List.not_mem_nil, false_implies, implies_true, and_true]
    exact ⟨.string "(", .number rfl, .integer (by decide +kernel), .integer (by decide +kernel)⟩
  have mapped : ofElement 512 ⟨"", []⟩ (.ofJson json) = .ok query := by
    rw [ofElement, Document.ofElement_of_visit rfl]
  have decodes : JsonString.decode? "\"\\u0028\"".toList = some ['('] := by decide +kernel
  have zeroMatches : number.Matches "-0.0".toList :=
    (Pattern.matches_take_of_longest?
      (show number.longest? ['-', '0', '.', '0'] = some 4 by rfl)).2
  have hundredMatches : number.Matches "1e+2".toList :=
    (Pattern.matches_take_of_longest?
      (show number.longest? ['1', 'e', '+', '2'] = some 4 by rfl)).2
  obtain ⟨strings, numbers⟩ := select_literals_agree isFinite mapped
  exact ⟨isFinite, mapped, ⟨decodes, (strings _ _ decodes).1, by decide +kernel⟩,
    ⟨zeroMatches, numbers _ zeroMatches, by decide +kernel⟩, hundredMatches,
    numbers _ hundredMatches, by decide +kernel⟩

end Query

end TreeQuery
