import TreeQuery.Proofs.Expr.Errors
import TreeQuery.Proofs.Selector.Acceptance
import TreeQuery.Proofs.Token.Spelling

/-!
The errors that a selector can have.

The lexer makes only tokens whose values their readers know: kinds, pseudo-classes and functions of
the tables, literals that are numbers, and operators that are combinators or stars. So no
pseudo-class is unknown, no number is invalid, and the only operator that joins nothing is a star.
This holds of the tokens of a selector, of the arguments of its functions and of the inner selectors
at every depth.
-/

namespace TreeQuery

/-- Whether an error can come from a selector. -/
def QueryError.Occurs : QueryError → Prop
  | .unknownPseudoClass _ => False
  | .expr (.invalidNumber _) => False
  | .unrecognizedOperator sign => sign = "*"
  | _ => True

theorem error_of_map {Error First Second : Type} {result : Except Error First}
    {change : First → Second} {error : Error} (failed : result.map change = .error error) :
    result = .error error := by
  cases result with
  | error found =>
      cases failed
      rfl
  | ok value => cases failed

theorem error_of_bind {Error First Second : Type} {result : Except Error First}
    {next : First → Except Error Second} {error : Error}
    (failed : result.bind next = .error error) :
    result = .error error ∨ ∃ value, result = .ok value ∧ next value = .error error := by
  cases result with
  | error found =>
      cases failed
      exact .inl rfl
  | ok value => exact .inr ⟨value, rfl, failed⟩

/-! ## Values of tokens -/

/-- A token with a value that its readers know. -/
structure Token.IsKnown (token : Token) : Prop extends token.HasWord where
  literal : token.kind = .literal → ∃ number, Number.ofText? token.value = some number
  nthFunction : token.kind = .nthFunction → token.value ∈ ["nth-child", "nth-last-child"]
  function : token.kind = .pseudoClassFunction →
    token.value ∈ ["has", "expr", "val", "contains"]
  operator : token.kind = .operator →
    token.value = "*" ∨ ∃ combinator, Combinator.ofSign? token.value = some combinator

theorem Number.exists_ofText?_of_matches {text : List Char}
    (isNumber : TokenRule.number.Matches text) :
    ∃ number, ofText? (String.ofList text) = some number := by
  obtain ⟨sign, unsigned, rfl, isSign, isUnsigned⟩ := Pattern.matches_seq_iff.mp isNumber
  obtain ⟨decimal, reads, readsSigned⟩ := exists_decimal_of_matches isUnsigned
  rw [ofText?, String.toList_ofList]
  rcases TokenRule.matches_optional_iff.mp isSign with isMinus | rfl
  · obtain ⟨c, rfl, accepted⟩ := Pattern.matches_one_iff.mp isMinus
    rw [beq_iff_eq.mp accepted]
    exact ⟨_, readsSigned⟩
  · exact ⟨_, reads⟩

theorem Token.isKnown_of_spelling {token : Token} {span : List Char}
    (spelling : Spelling span token.kind token.value) (hasWord : token.HasWord) :
    token.IsKnown := by
  obtain ⟨kind, value, position⟩ := token
  refine ⟨hasWord, ?_, ?_, ?_, ?_⟩
  · rintro rfl
    cases spelling with
    | number isNumber => exact Number.exists_ofText?_of_matches isNumber
    | colonWord areWords => simp [TokenRule.colonWords] at areWords
  · rintro rfl
    cases spelling with
    | @colonWord _ words _ areWords isWord =>
        have isTable : words = ["nth-child", "nth-last-child"] := by
          simpa [TokenRule.colonWords] using areWords
        rwa [isTable] at isWord
  · rintro rfl
    cases spelling with
    | @colonWord _ words _ areWords isWord =>
        have isTable : words = ["has", "expr", "val", "contains"] := by
          simpa [TokenRule.colonWords] using areWords
        rwa [isTable] at isWord
  · rintro rfl
    cases spelling with
    | star => exact .inl rfl
    | sign isSign =>
        simp only [TokenRule.signs, List.mem_cons, List.not_mem_nil, or_false] at isSign
        rcases isSign with rfl | rfl | rfl <;> exact .inr ⟨_, rfl⟩
    | blanks => exact .inr ⟨.descendant, rfl⟩
    | colonWord areWords => simp [TokenRule.colonWords] at areWords

/-- The lexer of selectors makes only tokens with known values. -/
theorem isKnown_of_tokenize {text : String} {tokens : List Token}
    (lexed : tokenize .selector text = .ok tokens) : ∀ token ∈ tokens, token.IsKnown := by
  intro token isToken
  have hasWord := hasWord_of_tokenize lexed token isToken
  obtain ⟨pieces, tail, rfl, tiling⟩ := Cursor.tokens_isTiling lexed
  obtain ⟨piece, isPiece, rfl⟩ := List.mem_map.mp isToken
  obtain ⟨before, behind, split⟩ := List.append_of_mem isPiece
  exact Token.isKnown_of_spelling (tiling.reads before piece behind split).spelling hasWord

/-! ## Errors of readers -/

namespace Level

variable {scope : PackageScope} {tokens rest : List Token} {tests : List Test}
  {name inner text : String} {token : Token} {error : QueryError} {category : Category}

/-- What a function fails with at its argument. -/
inductive FunctionFails (name inner : String) : QueryError → Prop where
  | lex {error : LexError} (notExpr : name ≠ "expr")
      (unlexed : tokenize .selector inner = .error error) : FunctionFails name inner (.lex error)
  | missing : FunctionFails name inner (.missingArgument name)
  | expr {error : ExprError} (isExpr : name = "expr")
      (unparsed : Expr.ofText inner = .error error) : FunctionFails name inner (.expr error)
  | unknown (notWord : name ∉ ["has", "expr", "val", "contains"]) :
      FunctionFails name inner (.unknownPseudoClass name)

theorem functionFails_of_selectorTokens (notExpr : name ≠ "expr")
    (failed : selectorTokens inner = .error error) : FunctionFails name inner error := by
  unfold selectorTokens at failed
  split at failed <;> cases failed
  rename_i unlexed
  exact .lex notExpr unlexed

theorem functionFails_of_hasTest (failed : hasTest inner = .error error) :
    FunctionFails "has" inner error := by
  unfold hasTest at failed
  split at failed
  · cases failed
    exact .missing
  · cases failed
  · rename_i unlexed
    cases failed
    exact functionFails_of_selectorTokens (by decide) unlexed

theorem functionFails_of_literal (notExpr : name ≠ "expr")
    (failed : literal name inner = .error error) : FunctionFails name inner error := by
  unfold literal at failed
  split at failed
  · rename_i unlexed
    cases failed
    exact functionFails_of_selectorTokens notExpr unlexed
  · cases failed
    exact .missing
  · split at failed <;> cases failed
    exact .missing

theorem functionFails_of_functionTest (failed : functionTest name inner = .error error) :
    FunctionFails name inner error := by
  unfold functionTest at failed
  split at failed
  · exact functionFails_of_hasTest failed
  · exact functionFails_of_literal (by decide) (error_of_map failed)
  · exact functionFails_of_literal (by decide) (error_of_map failed)
  · split at failed <;> cases failed
    rename_i unparsed
    exact .expr rfl unparsed
  · cases failed
    exact .unknown (by simp_all)

theorem nthTest_error_cases (failed : nthTest name text = .error error) :
    (∃ nthError, error = .nth nthError) ∨
      error = .unknownPseudoClass name ∧ name ∉ ["nth-child", "nth-last-child"] := by
  unfold nthTest nthDirection at failed
  split at failed
  · rename_i undirected
    cases failed
    split at undirected <;> cases undirected
    exact .inr ⟨rfl, by simp_all⟩
  · split at failed <;> cases failed
    exact .inl ⟨_, rfl⟩

theorem argument_error (failed : argument name tokens = .error error) :
    error = .missingArgument name := by
  unfold argument at failed
  split at failed
  · split at failed <;> cases failed
    rfl
  · cases failed
    rfl

/-- What a reader fails with at the front of a row of tokens. -/
inductive ReaderFails (scope : PackageScope) : List Token → QueryError → Prop where
  | native {token : Token} {rest : List Token} (isNative : token.kind = .nativeKind)
      (noKind : Kind.ofWord? token.value = none) :
      ReaderFails scope (token :: rest) (.noSelector token.position)
  | declared {token : Token} {rest : List Token} {error : ResolveError}
      (isDeclared : token.kind = .declaredType)
      (unresolved : scope.resolve token.value = .error error) :
      ReaderFails scope (token :: rest) (.resolve error)
  | pseudoClass {token : Token} {rest : List Token} (isPseudoClass : token.kind = .pseudoClass)
      (noWord : PseudoClass.ofWord? token.value = none) :
      ReaderFails scope (token :: rest) (.unknownPseudoClass token.value)
  | missing {token : Token} {rest : List Token} :
      ReaderFails scope (token :: rest) (.missingArgument token.value)
  | nth {token blob : Token} {rest : List Token} {error : QueryError}
      (isNth : token.kind = .nthFunction) (fails : nthTest token.value blob.value = .error error) :
      ReaderFails scope (token :: blob :: rest) error
  | function {token blob : Token} {rest : List Token} {error : QueryError}
      (isFunction : token.kind = .pseudoClassFunction) (isBlob : blob.kind = .arguments)
      (fails : FunctionFails token.value (innerText blob.value) error) :
      ReaderFails scope (token :: blob :: rest) error

theorem readerFails_of_reader (failed : category.reader scope tokens = .error error) :
    ReaderFails scope tokens error := by
  cases tokens with
  | nil => cases category <;> cases failed
  | cons token behind =>
      cases category with
      | native =>
          simp only [Category.reader, native] at failed
          split at failed
          · rename_i isNative
            split at failed <;> cases failed
            exact .native isNative ‹_›
          · cases failed
      | declared =>
          simp only [Category.reader, declared] at failed
          split at failed
          · rename_i isDeclared
            split at failed <;> cases failed
            exact .declared isDeclared ‹_›
          · cases failed
      | key =>
          simp only [Category.reader, key] at failed
          split at failed <;> cases failed
      | pseudoClass =>
          simp only [Category.reader, pseudoClass] at failed
          split at failed
          · rename_i isPseudoClass
            split at failed <;> cases failed
            exact .pseudoClass isPseudoClass ‹_›
          · cases failed
      | nth =>
          simp only [Category.reader, nth] at failed
          split at failed
          · rename_i isNth
            split at failed
            · rename_i noArgument
              cases failed
              rw [argument_error noArgument]
              exact .missing
            · rename_i taken
              split at failed <;> cases failed
              obtain ⟨blob, rfl, _, rfl⟩ := argument_ok_iff.mp taken
              exact .nth isNth ‹_›
          · cases failed
      | function =>
          simp only [Category.reader, function] at failed
          split at failed
          · rename_i isFunction
            split at failed
            · rename_i noArgument
              cases failed
              rw [argument_error noArgument]
              exact .missing
            · rename_i taken
              split at failed <;> cases failed
              rename_i untested
              obtain ⟨blob, rfl, isBlob, rfl⟩ := argument_ok_iff.mp taken
              exact .function isFunction isBlob (functionFails_of_functionTest untested)
          · cases failed
      | universal =>
          simp only [Category.reader, universal] at failed
          split at failed <;> cases failed

/-- The numbers of an expression are read from texts that the lexer takes for numbers, so only the
lexer and the places of tokens are in its errors. -/
theorem ofText_error_cases {exprError : ExprError} (failed : Expr.ofText inner = .error exprError) :
    (∃ lexError, exprError = .lex lexError ∧ tokenize .expression inner = .error lexError) ∨
      exprError = .unexpectedEnd ∨ ∃ token, exprError = .unexpectedToken token := by
  unfold Expr.ofText at failed
  split at failed
  · rename_i tokens lexed
    have readable := Expr.readable_of_tokenize lexed
    rcases Expr.viable_of_parse_error readable failed with ⟨rfl, _⟩ | ⟨index, inside, rfl, _⟩
    · exact .inr (.inl rfl)
    · exact .inr (.inr ⟨_, rfl⟩)
  · rename_i unlexed
    cases failed
    exact .inl ⟨_, rfl, unlexed⟩

theorem occurs_of_functionFails (isName : name ∈ ["has", "expr", "val", "contains"])
    (fails : FunctionFails name inner error) : error.Occurs := by
  cases fails with
  | lex | missing => trivial
  | expr _ unparsed =>
      rcases ofText_error_cases unparsed with ⟨lexError, rfl, _⟩ | rfl | ⟨token, rfl⟩ <;> trivial
  | unknown notWord => exact absurd isName notWord

/-- The reader of a kind takes every kind that is known. -/
theorem exists_native (scope : PackageScope) (isKnown : token.IsKnown) (rest : List Token) :
    ∃ found, native scope (token :: rest) = .ok found := by
  by_cases isNative : token.kind = .nativeKind
  · obtain ⟨kind, isWord⟩ := isKnown.native isNative
    exact ⟨some (.native kind, rest), by simp [native, isNative, isWord]⟩
  · exact ⟨none, if_neg isNative⟩

theorem occurs_of_readerFails (areKnown : ∀ token ∈ tokens, token.IsKnown)
    (fails : ReaderFails scope tokens error) : error.Occurs := by
  cases fails with
  | native | declared | missing => trivial
  | @pseudoClass token _ isPseudoClass noWord =>
      have isKnown := areKnown token List.mem_cons_self
      obtain ⟨which, isWord⟩ := isKnown.pseudoClass isPseudoClass
      cases noWord.symm.trans isWord
  | @nth token _ _ _ isNth fails =>
      have isKnown := areKnown token List.mem_cons_self
      rcases nthTest_error_cases fails with ⟨nthError, rfl⟩ | ⟨_, notWord⟩
      · trivial
      · exact absurd (isKnown.nthFunction isNth) notWord
  | @function token _ _ _ isFunction _ fails =>
      have isKnown := areKnown token List.mem_cons_self
      exact occurs_of_functionFails (isKnown.function isFunction) fails

/-- Several readers fail where one of them does, at the front or behind what was taken before. -/
theorem exists_suffix_of_collect_error {categories : List Category}
    (failed : collect scope (categories.map Category.reader) tokens = .error error) :
    ∃ rest, rest <:+ tokens ∧ ReaderFails scope rest error := by
  induction categories generalizing tokens with
  | nil => cases failed
  | cons category categories induction =>
      rw [List.map_cons, collect] at failed
      cases wasRead : category.reader scope tokens with
      | error found =>
          rw [wasRead] at failed
          cases failed
          exact ⟨tokens, List.suffix_rfl, readerFails_of_reader wasRead⟩
      | ok found =>
          cases found with
          | none =>
              rw [wasRead] at failed
              exact induction failed
          | some taken =>
              obtain ⟨test, behind⟩ := taken
              obtain ⟨unit, _, rfl⟩ := reader_some_iff.mp wasRead
              cases others : collect scope (categories.map Category.reader) behind with
              | ok found => simp [wasRead, others] at failed
              | error found =>
                  simp only [wasRead, others] at failed
                  cases failed
                  obtain ⟨rest, isRest, fails⟩ := induction others
                  exact ⟨rest, isRest.trans (List.suffix_append _ _), fails⟩

/-- A level fails with the error of a reader, or because it has no predicate. -/
theorem read_error_cases (failed : read scope tokens = .error error) :
    (∃ rest, rest <:+ tokens ∧ ReaderFails scope rest error) ∨
      ∃ position, error = .noSelector position := by
  unfold read at failed
  split at failed
  · rename_i collected
    cases failed
    rw [Category.readers_eq] at collected
    exact .inl (exists_suffix_of_collect_error collected)
  · cases failed
    exact .inr ⟨_, rfl⟩
  · cases failed

theorem occurs_of_read (areKnown : ∀ token ∈ tokens, token.IsKnown)
    (failed : read scope tokens = .error error) : error.Occurs := by
  rcases read_error_cases failed with ⟨rest, isRest, fails⟩ | ⟨position, rfl⟩
  · have restKnown : ∀ token ∈ rest, token.IsKnown := fun token isBehind =>
      areKnown token (isRest.subset isBehind)
    exact occurs_of_readerFails restKnown fails
  · trivial

/-- The inner tokens that a level reads come from the lexer. -/
theorem isKnown_of_has {inner : List Token} (level : read scope tokens = .ok (tests, rest))
    (isHas : Predicate.has inner ∈ tests) : ∀ token ∈ inner, token.IsKnown := by
  obtain ⟨category, unit, isUnit, _⟩ := exists_isUnit_of_read level isHas
  cases isUnit with
  | nth isNth isBlob reads =>
      obtain ⟨nth, isNthTest⟩ := exists_of_nthTest reads
      cases isNthTest
  | function isFunction isBlob reads => exact isKnown_of_tokenize (lexed_of_functionTest reads).2

end Level

/-! ## Errors of runs -/

/-- A known operator joins two levels, unless it is a star. -/
theorem occurs_of_splitCombinator {next : Token} {rest : List Token} {error : QueryError}
    (isKnown : next.IsKnown) (failed : Plan.splitCombinator next rest = .error error) :
    error.Occurs := by
  unfold Plan.splitCombinator at failed
  split at failed
  · rename_i isOperator
    split at failed
    · rename_i notCombinator
      cases failed
      rcases isKnown.operator isOperator with isStar | ⟨combinator, isSign⟩
      · exact isStar
      · cases notCombinator.symm.trans isSign
    · split at failed <;> cases failed
      trivial
  · cases failed

namespace Plan

variable {document : Document} {scope : PackageScope} {tokens : List Token}
  {level : List (Predicate Plan)} {nodes : List NodeId} {id : NodeId} {depth : Nat}
  {error : QueryError}

theorem exists_of_filter_error {Item : Type} {test : Item → Traced Bool} {items : List Item}
    (failed : (Traced.filter test items).outcome = .error error) :
    ∃ item, (test item).outcome = .error error := by
  induction items with
  | nil => cases failed
  | cons item items induction =>
      rw [Traced.outcome_filter_cons] at failed
      rcases error_of_bind failed with first | ⟨passes, _, others⟩
      · exact ⟨item, first⟩
      · exact induction (error_of_map others)

/-- A test fails only with an inner selector. -/
theorem exists_has_of_holdsAll_error
    (failed : (holdsAll document level id depth).outcome = .error error) :
    ∃ inner, Predicate.has inner ∈ level ∧
      (run document inner (document.subtree id) (depth + 1)).outcome = .error error := by
  induction level with
  | nil => cases failed
  | cons test tests induction =>
      rw [outcome_holdsAll_cons] at failed
      rcases error_of_bind failed with first | ⟨passes, _, others⟩
      · cases test with
        | has inner =>
            rw [outcome_holds_has] at first
            exact ⟨inner, List.mem_cons_self, error_of_map first⟩
        | _ => cases first
      · cases passes with
        | false => cases others
        | true =>
            obtain ⟨inner, isHas, ran⟩ := induction others
            exact ⟨inner, List.mem_cons_of_mem _ isHas, ran⟩

theorem exists_inner_of_filter_error {tests : List Level.Test}
    (failed : (Traced.filter
      (fun id => holdsAll document (tests.map (ofTest scope)) id depth) nodes).outcome =
        .error error) :
    ∃ inner id, Predicate.has inner ∈ tests ∧
      (run document (ofTokens scope inner) (document.subtree id) (depth + 1)).outcome =
        .error error := by
  obtain ⟨id, notHeld⟩ := exists_of_filter_error failed
  obtain ⟨plan, isHas, ran⟩ := exists_has_of_holdsAll_error notHeld
  obtain ⟨test, isTest, isPlan⟩ := List.mem_map.mp isHas
  cases test with
  | has inner =>
      cases isPlan
      exact ⟨inner, id, isTest, ran⟩
  | _ => cases isPlan

/-- The rows of tokens in a row: what is left behind its levels, and the inner tokens of its levels,
at every depth. -/
inductive Descends (scope : PackageScope) : List Token → List Token → Prop where
  | here {tokens : List Token} : Descends scope tokens tokens
  | behind {tokens rest row : List Token} (isRest : rest <:+ tokens)
      (later : Descends scope rest row) : Descends scope tokens row
  | inner {tokens rest inner row : List Token} {tests : List Level.Test}
      (level : Level.read scope tokens = .ok (tests, rest))
      (isHas : Predicate.has inner ∈ tests) (later : Descends scope inner row) :
      Descends scope tokens row

/-- An error at the front of a row: no level can be read there, or no combinator. -/
inductive FailsAt (scope : PackageScope) (row : List Token) (error : QueryError) : Prop where
  | level (unread : Level.read scope row = .error error)
  | combinator {next : Token} {rest : List Token} (isRow : row = next :: rest)
      (unsplit : splitCombinator next rest = .error error)

/-- A run fails with the error of a row that it arrives at. -/
theorem exists_row_of_error
    (failed : (run document (ofTokens scope tokens) nodes depth).outcome = .error error) :
    ∃ row, Descends scope tokens row ∧ FailsAt scope row error := by
  -- The tests of a level fail at their inner tokens, which the induction on the plan covers.
  have filtered {tokens rest : List Token} {tests : List Level.Test} {nodes : List NodeId}
      {depth : Nat} (level : Level.read scope tokens = .ok (tests, rest))
      (induction : ∀ test ∈ tests, ∀ inner, test = .has inner → ∀ nodes depth,
        (run document (ofTokens scope inner) nodes depth).outcome = .error error →
          ∃ row, Descends scope inner row ∧ FailsAt scope row error)
      (failed : (Traced.filter
        (fun id => holdsAll document (tests.map (ofTest scope)) id depth) nodes).outcome =
          .error error) : ∃ row, Descends scope tokens row ∧ FailsAt scope row error := by
    obtain ⟨inner, id, isHas, ran⟩ := exists_inner_of_filter_error failed
    obtain ⟨row, descends, fails⟩ := induction _ isHas inner rfl _ _ ran
    exact ⟨row, .inner level isHas descends, fails⟩
  induction tokens using ofTokens.induct scope generalizing nodes depth with
  | case1 tokens found level =>
      rw [ofTokens_unreadable level, outcome_run_unreadable] at failed
      cases failed
      exact ⟨tokens, .here, .level level⟩
  | case2 tokens tests level _ inner =>
      rw [ofTokens_final level, outcome_run_final] at failed
      exact filtered level inner failed
  | case3 tokens tests next rest level found split _ inner =>
      rw [ofTokens_next level, split, outcome_run_cut] at failed
      rcases error_of_bind failed with inTests | ⟨selected, _, isError⟩
      · exact filtered level inner inTests
      · cases isError
        exact ⟨next :: rest, .behind (Level.suffix_of_read level) .here, .combinator rfl split⟩
  | case4 tokens tests next rest level combinator remainder split _ inner induction =>
      rw [ofTokens_next level, split, outcome_run_join] at failed
      rcases error_of_bind failed with inTests | ⟨selected, _, others⟩
      · exact filtered level inner inTests
      · obtain ⟨row, descends, fails⟩ := induction (error_of_map others)
        have isRest := (suffix_of_splitCombinator split).trans (Level.suffix_of_read level)
        exact ⟨row, .behind isRest descends, fails⟩

theorem Descends.areKnown {row : List Token} (descends : Descends scope tokens row)
    (areKnown : ∀ token ∈ tokens, token.IsKnown) : ∀ token ∈ row, token.IsKnown := by
  induction descends with
  | here => exact areKnown
  | behind isRest _ induction =>
      exact induction fun token isToken => areKnown token (isRest.subset isToken)
  | inner level isHas _ induction => exact induction (Level.isKnown_of_has level isHas)

/-- Whether the runs of a plan fail only with errors of selectors. -/
def FailsWell (document : Document) (plan : Plan) : Prop :=
  ∀ nodes depth error, (run document plan nodes depth).outcome = .error error → error.Occurs

theorem failsWell_ofTokens (document : Document) (scope : PackageScope)
    (areKnown : ∀ token ∈ tokens, token.IsKnown) :
    FailsWell document (ofTokens scope tokens) := by
  intro nodes depth error failed
  obtain ⟨row, descends, fails⟩ := exists_row_of_error failed
  have rowKnown := descends.areKnown areKnown
  cases fails with
  | level unread => exact Level.occurs_of_read rowKnown unread
  | @combinator next rest isRow unsplit =>
      have nextKnown := rowKnown next (by rw [isRow]; exact List.mem_cons_self)
      exact occurs_of_splitCombinator nextKnown unsplit

end Plan

/-! ## Errors of selectors -/

/-- The rows of tokens that a selector gives: its own, those behind its levels, and the inner ones
of its levels at every depth. -/
inductive Reached (scope : PackageScope) (selector : String) : List Token → Prop where
  | selector {tokens : List Token} (lexed : tokenize .selector selector = .ok tokens) :
      Reached scope selector tokens
  | behind {tokens rest : List Token} (reached : Reached scope selector tokens)
      (isRest : rest <:+ tokens) : Reached scope selector rest
  | inner {tokens rest inner : List Token} {tests : List Level.Test}
      (reached : Reached scope selector tokens)
      (level : Level.read scope tokens = .ok (tests, rest))
      (isHas : Predicate.has inner ∈ tests) : Reached scope selector inner

theorem Reached.areKnown {scope : PackageScope} {selector : String} {tokens : List Token}
    (reached : Reached scope selector tokens) : ∀ token ∈ tokens, token.IsKnown := by
  induction reached with
  | selector lexed => exact isKnown_of_tokenize lexed
  | behind _ isRest induction => exact fun token isToken => induction token (isRest.subset isToken)
  | inner _ level isHas _ => exact Level.isKnown_of_has level isHas

theorem Level.isKnown_of_literal {name inner : String} {token : Token}
    (found : literal name inner = .ok token) : token.IsKnown := by
  unfold literal at found
  split at found
  · cases found
  · cases found
  · rename_i first rest lexed
    split at found <;> cases found
    unfold selectorTokens at lexed
    split at lexed <;> cases lexed
    rename_i tokenized
    exact isKnown_of_tokenize tokenized token List.mem_cons_self

namespace Query

/-- A selector never has an unknown pseudo-class or an invalid number, and no operator but a star is
unrecognized, wherever a run starts in it. The reader of kinds takes each of its tokens or passes,
and every literal, also as the argument of a function, is a number. -/
theorem select_error_occurs (query : Query) (selector : String) :
    (∀ error, (query.select selector).outcome = .error error → error.Occurs) ∧
      (∀ tokens, Reached query.scope selector tokens →
        (∀ nodes depth error, (query.matchesAmong tokens nodes depth).outcome = .error error →
          error.Occurs) ∧
        ∀ token ∈ tokens,
          (∀ rest, ∃ found, Level.native query.scope (token :: rest) = .ok found) ∧
          (token.kind = .literal → ∃ number, Number.ofText? token.value = some number)) ∧
      ∀ name inner token, Level.literal name inner = .ok token → token.kind = .literal →
        ∃ number, Number.ofText? token.value = some number := by
  have reachedFail (tokens : List Token) (reached : Reached query.scope selector tokens) :
      Plan.FailsWell query.document (Plan.ofTokens query.scope tokens) :=
    Plan.failsWell_ofTokens query.document query.scope reached.areKnown
  refine ⟨fun error failed => ?_, fun tokens reached => ⟨reachedFail tokens reached, ?_⟩, ?_⟩
  · rw [select] at failed
    split at failed
    · cases failed
      trivial
    · rename_i tokens lexed
      exact reachedFail tokens (.selector lexed) _ _ error failed
  · intro token isToken
    have isKnown := reached.areKnown token isToken
    exact ⟨Level.exists_native query.scope isKnown, isKnown.literal⟩
  · intro name inner token found
    exact (Level.isKnown_of_literal found).literal

/-- A star behind a star, two selectors deep, and a literal that is out of range. -/
theorem select_error_occurs_stars :
    let query : Query := ⟨.ofTree (.array none [.array none [.scalar none .null]]), ⟨"", []⟩⟩
    let selector := ":has(:has(**))"
    (query.select selector).outcome = .error (.unrecognizedOperator "*") ∧
      QueryError.Occurs (.unrecognizedOperator "*") ∧
        Level.literal "val" "-1e999" = .ok ⟨.literal, "-1e999", 0⟩ ∧
          ∃ number, Number.ofText? "-1e999" = some number := by
  intro query selector
  obtain ⟨occurs, _, isNumber⟩ := select_error_occurs query selector
  have failed : (query.select selector).outcome = .error (.unrecognizedOperator "*") := by
    decide +kernel
  have isLiteral : Level.literal "val" "-1e999" = .ok ⟨.literal, "-1e999", 0⟩ := by
    decide +kernel
  exact ⟨failed, occurs _ failed, isLiteral, isNumber "val" "-1e999" _ isLiteral rfl⟩

end Query

end TreeQuery
