import Mathlib.Data.List.Chain
import TreeQuery.Proofs.Selector.Units
import TreeQuery.Proofs.Selector.Validity
import TreeQuery.Proofs.Token.Tiling

/-!
The selectors that are accepted.

A selector without `:has(…)` is a row of units with combinators between some of them, in which no
star follows a star. Where one level ends and the next one begins plays no part: two neighbours of
descending categories belong to two levels, and only a star behind a star belongs to no level.
-/

namespace TreeQuery

/-- The tokens that stand between two combinators or next to each other. -/
inductive SelectorUnit (scope : PackageScope) : List Token → Prop where
  | native {token : Token} (isNative : token.kind = .nativeKind) : SelectorUnit scope [token]
  | declared {token : Token} {reference : TypeName} (isDeclared : token.kind = .declaredType)
      (resolves : scope.resolve token.value = .ok reference) : SelectorUnit scope [token]
  | key {token : Token} (isName : token.kind = .identifier) : SelectorUnit scope [token]
  | pseudoClass {token : Token} (isPseudoClass : token.kind = .pseudoClass) :
      SelectorUnit scope [token]
  | nth {token blob : Token} {test : Level.Test} (isNth : token.kind = .nthFunction)
      (isBlob : blob.kind = .arguments)
      (accepts : Level.nthTest token.value blob.value = .ok test) :
      SelectorUnit scope [token, blob]
  | function {token blob : Token} {test : Level.Test}
      (isFunction : token.kind = .pseudoClassFunction) (isBlob : blob.kind = .arguments)
      (accepts : Level.functionTest token.value (Level.innerText blob.value) = .ok test) :
      SelectorUnit scope [token, blob]
  | universal {token : Token} (isStar : token.isOperator "*" = true) : SelectorUnit scope [token]

/-- Whether a token is one of the four combinators. -/
def Token.IsCombinator (token : Token) : Prop :=
  token.kind = .operator ∧ token.value ∈ [",", ">", "~", " "]

/-- Units, with at most one combinator between two of them. -/
inductive Sentence (scope : PackageScope) : List Token → Prop where
  | last {unit : List Token} (isUnit : SelectorUnit scope unit) : Sentence scope unit
  | next {unit rest : List Token} (isUnit : SelectorUnit scope unit)
      (others : Sentence scope rest) : Sentence scope (unit ++ rest)
  | join {unit rest : List Token} {sign : Token} (isUnit : SelectorUnit scope unit)
      (isCombinator : sign.IsCombinator) (others : Sentence scope rest) :
      Sentence scope (unit ++ sign :: rest)

/-- No star follows a star. -/
def StarsApart (tokens : List Token) : Prop :=
  tokens.IsChain fun first second =>
    first.isOperator "*" = true → second.isOperator "*" = false

theorem Token.isCombinator_iff {token : Token} :
    token.IsCombinator ↔
      token.kind = .operator ∧ ∃ combinator, Combinator.ofSign? token.value = some combinator := by
  refine and_congr_right' ⟨?_, ?_⟩
  · simp only [List.mem_cons, List.not_mem_nil, or_false]
    rintro (isSign | isSign | isSign | isSign) <;> rw [isSign] <;> exact ⟨_, rfl⟩
  · rintro ⟨combinator, isSign⟩
    rw [← Combinator.sign_of_ofSign? isSign]
    cases combinator <;> decide

/-! ## Words -/

/-- Whether a token of a kind or a pseudo-class has a word of its table. -/
structure Token.HasWord (token : Token) : Prop where
  native : token.kind = .nativeKind → ∃ kind, Kind.ofWord? token.value = some kind
  pseudoClass : token.kind = .pseudoClass → ∃ which, PseudoClass.ofWord? token.value = some which

namespace TokenRule

theorem ofWord?_of_kindWord {word : String} (isWord : word ∈ kindWords) :
    ∃ kind, Kind.ofWord? word = some kind := by
  obtain ⟨kind, _, rfl⟩ := List.mem_map.mp isWord
  exact ⟨kind, Kind.ofWord?_word kind⟩

theorem ofWord?_of_pseudoClassWord {word : String} (isWord : word ∈ pseudoClassWords) :
    ∃ which, PseudoClass.ofWord? word = some which := by
  obtain ⟨which, _, rfl⟩ := List.mem_map.mp isWord
  exact ⟨which, PseudoClass.ofWord?_word which⟩

end TokenRule

/-- Only the rule of the pseudo-class words makes pseudo-classes. -/
theorem Grammar.pseudoClass_rule {grammar : Grammar} {rule : TokenRule}
    (isRule : rule ∈ grammar.rules) (isKind : rule.kind = some .pseudoClass) :
    rule.pattern = TokenRule.colonWord TokenRule.pseudoClassWords := by
  have ofTable : ∀ rule ∈ grammar.rules, rule.kind = some .pseudoClass →
      rule.pattern = TokenRule.colonWord TokenRule.pseudoClassWords := by
    cases grammar <;> simp [Grammar.rules, TokenRule.selectorRules, TokenRule.expressionRules]
  exact ofTable rule isRule isKind

theorem Token.ReadFrom.hasWord {grammar : Grammar} {position : Nat} {span after : List Char}
    {token : Token} (read : token.ReadFrom grammar position span after) : token.HasWord := by
  cases read with
  | blob => exact ⟨nofun, nofun⟩
  | @rule rule kind value notBlob takes isRuleKind reads =>
      have spanMatches := takes.spanMatches
      constructor
      · rintro rfl
        rw [(Grammar.nativeKind_rule takes.isRule isRuleKind).2] at spanMatches
        obtain ⟨word, isWord, rfl⟩ := TokenRule.exists_of_matches_oneWord spanMatches
        cases reads
        rw [String.ofList_toList]
        exact TokenRule.ofWord?_of_kindWord isWord
      · rintro rfl
        rw [Grammar.pseudoClass_rule takes.isRule isRuleKind] at spanMatches
        obtain ⟨word, isWord, rfl⟩ := TokenRule.exists_of_matches_colonWord spanMatches
        cases reads
        rw [List.drop_succ_cons, List.drop_zero, String.ofList_toList]
        exact TokenRule.ofWord?_of_pseudoClassWord isWord

/-- Every token of a text that should have a word has one. -/
theorem hasWord_of_tokenize {grammar : Grammar} {text : String} {tokens : List Token}
    (lexed : tokenize grammar text = .ok tokens) : ∀ token ∈ tokens, token.HasWord := by
  obtain ⟨pieces, tail, rfl, tiling⟩ := Cursor.tokens_isTiling lexed
  rw [List.forall_mem_map]
  intro piece isPiece
  obtain ⟨before, behind, split⟩ := List.append_of_mem isPiece
  exact (tiling.reads before piece behind split).hasWord

/-! ## Sentences and chains -/

/-- What may stand behind a unit. -/
inductive Continues (scope : PackageScope) : List Token → Prop where
  | ended : Continues scope []
  | adjacent {rest : List Token} (others : Sentence scope rest) : Continues scope rest
  | combinator {sign : Token} {rest : List Token} (isCombinator : sign.IsCombinator)
      (others : Sentence scope rest) : Continues scope (sign :: rest)

section

open Level

variable {scope : PackageScope} {category : Category} {categories : List Category}
  {tokens rest unit others : List Token} {token sign : Token} {test : Test} {tests : List Test}
  {parts : List Part} {chain : Chain}

theorem isOperator_eq_false (notOperator : token.kind ≠ .operator) (text : String) :
    token.isOperator text = false := by
  simp [Token.isOperator, notOperator]

theorem Token.IsCombinator.not_star (isCombinator : sign.IsCombinator) :
    sign.isOperator "*" = false := by
  obtain ⟨isOperator, isSign⟩ := isCombinator
  cases isStar : sign.isOperator "*" with
  | false => rfl
  | true =>
      simp only [Token.isOperator, Bool.and_eq_true, beq_iff_eq] at isStar
      rw [isStar.2] at isSign
      exact absurd isSign (by decide)

theorem Token.IsCombinator.starts_eq_false (isCombinator : sign.IsCombinator)
    (category : Category) : category.starts sign = false := by
  cases category with
  | universal => exact isCombinator.not_star
  | _ => simp [Category.starts, isCombinator.1]

/-- An operator that starts a unit is a star. -/
theorem universal_of_starts (starts : category.starts token = true)
    (isOperator : token.kind = .operator) : category = .universal := by
  cases category with
  | universal => rfl
  | _ => simp [Category.starts, isOperator] at starts

theorem selectorUnit_of_isUnit (isUnit : IsUnit scope category unit test) :
    SelectorUnit scope unit := by
  cases isUnit with
  | native isNative => exact .native isNative
  | declared isDeclared resolves => exact .declared isDeclared resolves
  | key isName => exact .key isName
  | pseudoClass isPseudoClass => exact .pseudoClass isPseudoClass
  | nth isNth isBlob reads => exact .nth isNth isBlob reads
  | function isFunction isBlob reads => exact .function isFunction isBlob reads
  | universal isStar => exact .universal isStar

theorem exists_isUnit (isUnit : SelectorUnit scope unit)
    (haveWords : ∀ token ∈ unit, token.HasWord) :
    ∃ category test, IsUnit scope category unit test := by
  cases isUnit with
  | @native token isNative =>
      obtain ⟨kind, isWord⟩ := (haveWords token List.mem_cons_self).native isNative
      exact ⟨_, _, .native isNative isWord⟩
  | declared isDeclared resolves => exact ⟨_, _, .declared isDeclared resolves⟩
  | key isName => exact ⟨_, _, .key isName⟩
  | @pseudoClass token isPseudoClass =>
      obtain ⟨which, isWord⟩ := (haveWords token List.mem_cons_self).pseudoClass isPseudoClass
      exact ⟨_, _, .pseudoClass isPseudoClass isWord⟩
  | nth isNth isBlob accepts => exact ⟨_, _, .nth isNth isBlob accepts⟩
  | function isFunction isBlob accepts => exact ⟨_, _, .function isFunction isBlob accepts⟩
  | universal isStar => exact ⟨_, _, .universal isStar⟩

theorem Continues.sentence (behind : Continues scope rest) (isUnit : SelectorUnit scope unit) :
    Sentence scope (unit ++ rest) := by
  cases behind with
  | ended =>
      rw [List.append_nil]
      exact .last isUnit
  | adjacent others => exact .next isUnit others
  | combinator isCombinator others => exact .join isUnit isCombinator others

theorem Continues.sentence_parts (behind : Continues scope rest) (nonempty : parts ≠ [])
    (units : ∀ part ∈ parts, IsUnit scope part.category part.tokens part.test) :
    Sentence scope (parts.flatMap Part.tokens ++ rest) := by
  induction parts with
  | nil => exact absurd rfl nonempty
  | cons part parts induction =>
      obtain ⟨isUnit, laterUnits⟩ := List.forall_mem_cons.mp units
      rw [List.flatMap_cons, List.append_assoc]
      cases parts with
      | nil => exact behind.sentence (selectorUnit_of_isUnit isUnit)
      | cons other parts =>
          have others := induction (List.cons_ne_nil _ _) laterUnits
          exact .next (selectorUnit_of_isUnit isUnit) others

theorem Continues.sentence_level (behind : Continues scope rest)
    (level : read scope tokens = .ok (tests, rest)) : Sentence scope tokens := by
  obtain ⟨parts, nonempty, _, compound⟩ := read_ok_iff.mp level
  rw [compound.spelled]
  exact behind.sentence_parts nonempty compound.units

theorem StarsApart.cons (apart : StarsApart tokens) (notOperator : token.kind ≠ .operator) :
    StarsApart (token :: tokens) := by
  refine List.isChain_cons.mpr ⟨?_, apart⟩
  intro _ _ isStar
  cases (isOperator_eq_false notOperator "*").symm.trans isStar

/-- A unit goes before other tokens unless both have a star there. -/
theorem Level.IsUnit.starsApart (isUnit : IsUnit scope category unit test) (apart : StarsApart rest)
    (behindStar : category = .universal → ∀ token ∈ rest.head?, token.isOperator "*" = false) :
    StarsApart (unit ++ rest) := by
  cases isUnit with
  | native isNative => exact apart.cons (by simp [isNative])
  | declared isDeclared => exact apart.cons (by simp [isDeclared])
  | key isName => exact apart.cons (by simp [isName])
  | pseudoClass isPseudoClass => exact apart.cons (by simp [isPseudoClass])
  | @nth token blob _ isNth isBlob =>
      have behind : StarsApart (blob :: rest) := apart.cons (by simp [isBlob])
      exact behind.cons (by simp [isNth])
  | @function token blob _ isFunction isBlob =>
      have behind : StarsApart (blob :: rest) := apart.cons (by simp [isBlob])
      exact behind.cons (by simp [isFunction])
  | universal isStar =>
      exact List.isChain_cons.mpr ⟨fun token isHead _ => behindStar rfl token isHead, apart⟩

theorem starsApart_parts (apart : StarsApart rest)
    (notStar : ∀ token ∈ rest.head?, token.isOperator "*" = false)
    (units : ∀ part ∈ parts, IsUnit scope part.category part.tokens part.test)
    (ascending : parts.Pairwise fun first second => first.category.rank < second.category.rank) :
    StarsApart (parts.flatMap Part.tokens ++ rest) := by
  induction parts with
  | nil => exact apart
  | cons part parts induction =>
      obtain ⟨isUnit, laterUnits⟩ := List.forall_mem_cons.mp units
      obtain ⟨ascends, laterAscend⟩ := List.pairwise_cons.mp ascending
      rw [List.flatMap_cons, List.append_assoc]
      refine isUnit.starsApart (induction laterUnits laterAscend) ?_
      -- The star is the last category, so nothing of the level follows it.
      intro isStar
      cases parts with
      | nil => exact notStar
      | cons other parts =>
          have later := ascends other List.mem_cons_self
          rw [isStar] at later
          cases otherCategory : other.category <;> simp [otherCategory, Category.rank] at later

theorem starsApart_level (apart : StarsApart rest)
    (notStar : ∀ token ∈ rest.head?, token.isOperator "*" = false)
    (level : read scope tokens = .ok (tests, rest)) : StarsApart tokens := by
  obtain ⟨parts, _, _, compound⟩ := read_ok_iff.mp level
  rw [compound.spelled]
  exact starsApart_parts apart notStar compound.units compound.ascending

/-- The levels of a chain make a sentence without neighbouring stars. -/
theorem sentence_of_reads (reads : Chain.Reads scope tokens chain) :
    Sentence scope tokens ∧ StarsApart tokens := by
  induction reads with
  | final level =>
      exact ⟨Continues.ended.sentence_level level, starsApart_level .nil (by simp) level⟩
  | @operator _ rest sign _ _ _ level isOperator isSign _ induction =>
      obtain ⟨sentence, apart⟩ := induction
      have isCombinator := Token.isCombinator_iff.mpr ⟨isOperator, _, isSign⟩
      have notStar := isCombinator.not_star
      have signApart : StarsApart (sign :: rest) :=
        List.isChain_cons.mpr ⟨by simp [notStar], apart⟩
      exact ⟨(Continues.combinator isCombinator sentence).sentence_level level,
        starsApart_level signApart (by simpa using notStar) level⟩
  | adjacent level notOperator _ induction =>
      obtain ⟨sentence, apart⟩ := induction
      have notStar := isOperator_eq_false notOperator "*"
      exact ⟨(Continues.adjacent sentence).sentence_level level,
        starsApart_level apart (by simpa using notStar) level⟩

theorem read_cons (isUnit : IsUnit scope category unit test) {first : Part}
    (compound : IsCompound scope Category.all (first :: parts) tokens rest)
    (before : category.rank < first.category.rank) :
    read scope (unit ++ tokens) = .ok (test :: first.test :: parts.map Part.test, rest) := by
  refine read_ok_iff.mpr ⟨⟨category, unit, test⟩ :: first :: parts, by simp, rfl, ?_⟩
  refine ⟨List.forall_mem_cons.mpr ⟨isUnit, compound.units⟩,
    fun part _ => Category.mem_all part.category, ?_, by simp [compound.spelled], ?_⟩
  · refine List.pairwise_cons.mpr ⟨List.forall_mem_cons.mpr ⟨before, ?_⟩, compound.ascending⟩
    intro part isPart
    exact Nat.lt_trans before ((List.pairwise_cons.mp compound.ascending).1 part isPart)
  · intro later isCategory passed
    exact compound.maximal later isCategory fun part isPart =>
      passed part (List.mem_cons_of_mem _ isPart)

/-- A chain goes on in the same way behind another first level. -/
theorem reads_of_level {otherTests : List Test} (reads : Chain.Reads scope tokens chain)
    (level : read scope tokens = .ok (tests, rest))
    (other : read scope others = .ok (otherTests, rest)) :
    ∃ chain, Chain.Reads scope others chain := by
  cases reads with
  | final found =>
      cases level.symm.trans found
      exact ⟨_, .final other⟩
  | operator found isOperator isSign later =>
      cases level.symm.trans found
      exact ⟨_, .operator other isOperator isSign later⟩
  | adjacent found notOperator later =>
      cases level.symm.trans found
      exact ⟨_, .adjacent other notOperator later⟩

theorem exists_read_of_reads (reads : Chain.Reads scope tokens chain) :
    ∃ tests rest, read scope tokens = .ok (tests, rest) := by
  cases reads with
  | final level => exact ⟨_, _, level⟩
  | operator level => exact ⟨_, _, level⟩
  | adjacent level => exact ⟨_, _, level⟩

/-- A unit before a chain belongs to its first level or makes a level of its own. -/
theorem reads_unit_append (isUnit : IsUnit scope category unit test)
    (reads : Chain.Reads scope tokens chain) (apart : StarsApart (unit ++ tokens)) :
    ∃ chain, Chain.Reads scope (unit ++ tokens) chain := by
  obtain ⟨tests, rest, level⟩ := exists_read_of_reads reads
  obtain ⟨parts, nonempty, _, compound⟩ := read_ok_iff.mp level
  cases parts with
  | nil => exact absurd rfl nonempty
  | cons first parts =>
      obtain ⟨token, behind, firstIs, starts⟩ :=
        (compound.units first List.mem_cons_self).starts
      have spelled : tokens = token :: (behind ++ parts.flatMap Part.tokens ++ rest) := by
        simp [compound.spelled, firstIs]
      by_cases before : category.rank < first.category.rank
      · exact reads_of_level reads level (read_cons isUnit compound before)
      · have absent : ∀ head ∈ tokens.head?, ∀ later : Category, category.rank < later.rank →
            later.starts head = false := by
          intro head isHead later isLater
          rw [spelled, List.head?_cons, Option.mem_def, Option.some.injEq] at isHead
          cases startsLater : later.starts head with
          | false => rfl
          | true =>
              have same := Category.starts_unique startsLater (isHead ▸ starts)
              rw [same] at isLater
              exact absurd isLater before
        have own := read_unit isUnit tokens absent
        rw [spelled] at own reads apart ⊢
        refine ⟨_, .adjacent own ?_ reads⟩
        intro isOperator
        have isStar := universal_of_starts starts isOperator
        have bothStars : category = .universal := by
          rw [isStar] at before
          cases category <;> simp [Category.rank] at before ⊢
        rw [isStar] at starts
        cases isUnit <;> cases bothStars
        rename_i isFirst
        have notStar := (List.isChain_cons.mp apart).1 token rfl isFirst
        cases notStar.symm.trans starts

/-- A sentence without neighbouring stars is read as levels. -/
theorem reads_of_sentence (sentence : Sentence scope tokens)
    (haveWords : ∀ token ∈ tokens, token.HasWord) (apart : StarsApart tokens) :
    ∃ chain, Chain.Reads scope tokens chain := by
  induction sentence with
  | @last unit isUnit =>
      obtain ⟨category, test, isUnit⟩ := exists_isUnit isUnit haveWords
      have level := read_unit isUnit [] (by simp)
      rw [List.append_nil] at level
      exact ⟨_, .final level⟩
  | next isUnit _ induction =>
      obtain ⟨unitWords, laterWords⟩ := List.forall_mem_append.mp haveWords
      obtain ⟨category, test, isUnit⟩ := exists_isUnit isUnit unitWords
      obtain ⟨chain, reads⟩ := induction laterWords (List.isChain_append.mp apart).2.1
      exact reads_unit_append isUnit reads apart
  | @join unit rest sign isUnit isCombinator _ induction =>
      obtain ⟨unitWords, laterWords⟩ := List.forall_mem_append.mp haveWords
      obtain ⟨category, test, isUnit⟩ := exists_isUnit isUnit unitWords
      have behind : StarsApart (sign :: rest) := (List.isChain_append.mp apart).2.1
      obtain ⟨chain, reads⟩ :=
        induction (List.forall_mem_cons.mp laterWords).2 (List.isChain_cons.mp behind).2
      have level := read_unit isUnit (sign :: rest) fun token isHead later _ => by
        cases isHead
        exact isCombinator.starts_eq_false later
      obtain ⟨isOperator, combinator, isSign⟩ := Token.isCombinator_iff.mp isCombinator
      exact ⟨_, .operator level isOperator isSign reads⟩

/-! ## Selectors without inner selectors -/

theorem exists_isUnit_of_read (level : read scope tokens = .ok (tests, rest))
    (isTest : test ∈ tests) :
    ∃ category unit, IsUnit scope category unit test ∧ unit <:+: tokens := by
  obtain ⟨parts, _, rfl, compound⟩ := read_ok_iff.mp level
  obtain ⟨part, isPart, rfl⟩ := List.mem_map.mp isTest
  obtain ⟨before, behind, rfl⟩ := List.append_of_mem isPart
  refine ⟨part.category, part.tokens, compound.units part isPart,
    before.flatMap Part.tokens, behind.flatMap Part.tokens ++ rest, ?_⟩
  rw [compound.spelled]
  simp

theorem suffix_of_splitCombinator {remainder : List Token} {combinator : Combinator}
    (split : Plan.splitCombinator token rest = .ok (combinator, remainder)) :
    remainder <:+ token :: rest := by
  unfold Plan.splitCombinator at split
  split at split
  · split at split
    · cases split
    · split at split <;> cases split
      exact List.suffix_cons _ _
  · cases split
    exact List.suffix_rfl

/-- Every test of a plan stands for a unit among the tokens. -/
theorem exists_isUnit_of_plan {planTest : Predicate Plan}
    (isTest : planTest ∈ (Plan.ofTokens scope tokens).tests) :
    ∃ category unit test, planTest = Plan.ofTest scope test ∧
      IsUnit scope category unit test ∧ unit ⊆ tokens := by
  have ofLevel : ∀ {tokens rest : List Token} {tests : List Test},
      read scope tokens = .ok (tests, rest) → planTest ∈ tests.map (Plan.ofTest scope) →
        ∃ category unit test, planTest = Plan.ofTest scope test ∧
          IsUnit scope category unit test ∧ unit ⊆ tokens := by
    intro tokens rest tests level isTest
    obtain ⟨test, isMember, rfl⟩ := List.mem_map.mp isTest
    obtain ⟨category, unit, isUnit, inside⟩ := exists_isUnit_of_read level isMember
    exact ⟨category, unit, test, rfl, isUnit, inside.subset⟩
  induction tokens using Plan.ofTokens.induct scope with
  | case1 tokens error level =>
      rw [Plan.ofTokens_unreadable level] at isTest
      cases isTest
  | case2 tokens tests level =>
      rw [Plan.ofTokens_final level] at isTest
      exact ofLevel level isTest
  | case3 tokens tests next rest level error split =>
      rw [Plan.ofTokens_next level, split] at isTest
      exact ofLevel level isTest
  | case4 tokens tests next rest level combinator remainder split _ _ induction =>
      rw [Plan.ofTokens_next level, split] at isTest
      rcases List.mem_append.mp isTest with isOwn | isLater
      · exact ofLevel level isOwn
      · obtain ⟨category, unit, test, testIs, isUnit, inside⟩ := induction isLater
        have behindLevel := List.Subset.trans inside (suffix_of_splitCombinator split).subset
        exact ⟨category, unit, test, testIs, isUnit,
          List.Subset.trans behindLevel (suffix_of_read level).subset⟩

theorem has_of_isUnit {inner : List Token} (isUnit : IsUnit scope category unit (.has inner)) :
    ∃ token ∈ unit, token.kind = .pseudoClassFunction ∧ token.value = "has" := by
  cases isUnit with
  | nth isNth isBlob reads =>
      obtain ⟨nth, isNthTest⟩ := exists_of_nthTest reads
      cases isNthTest
  | @function token blob _ isFunction isBlob reads =>
      exact ⟨token, List.mem_cons_self, isFunction, (lexed_of_functionTest reads).1⟩

/-- Without a `:has(…)` no test of a selector can fail. -/
theorem answers_of_noHas (document : Document) {planTest : Predicate Plan}
    (noHas : ∀ token ∈ tokens, token.kind = .pseudoClassFunction → token.value ≠ "has")
    (isTest : planTest ∈ (Plan.ofTokens scope tokens).tests) (id : NodeId) :
    Plan.Answers document planTest id := by
  obtain ⟨category, unit, test, rfl, isUnit, inside⟩ := exists_isUnit_of_plan isTest
  cases test with
  | has inner =>
      obtain ⟨token, isToken, isFunction, isHas⟩ := has_of_isUnit isUnit
      exact absurd isHas (noHas token (inside isToken) isFunction)
  | _ => exact Plan.answers_of_ne_has (by simp [Plan.ofTest, Predicate.mapInner])

end

namespace Query

/-- A selector without `:has(…)` is accepted when its tokens are a sentence without neighbouring
stars, and a rejected one has the same error on every document. -/
theorem select_accepts_iff (query : Query) {selector : String} {tokens : List Token}
    (lexed : tokenize .selector selector = .ok tokens)
    (noHas : ∀ token ∈ tokens, token.kind = .pseudoClassFunction → token.value ≠ "has") :
    ((∃ selected, (query.select selector).outcome = .ok selected) ↔
        Sentence query.scope tokens ∧ StarsApart tokens) ∧
      ∀ (document : Document) (error : QueryError),
        (query.select selector).outcome = .error error ↔
          ((Query.mk document query.scope).select selector).outcome = .error error := by
  have decided (document : Document) := Plan.run_of_answers
    (fun test (isTest : test ∈ (Plan.ofTokens query.scope tokens).tests) id
      (_ : id ∈ document.all) => answers_of_noHas document noHas isTest id) 0
  have runs (document : Document) : (Query.mk document query.scope).select selector =
      (Plan.ofTokens query.scope tokens).run document document.all 0 := by
    simp only [select, lexed, matchesAmong]
  have isSentence : (Plan.ofTokens query.scope tokens).error? = none ↔
      Sentence query.scope tokens ∧ StarsApart tokens := by
    refine Plan.error?_eq_none_iff.trans ⟨?_, ?_⟩
    · rintro ⟨chain, reads⟩
      exact sentence_of_reads reads
    · rintro ⟨sentence, apart⟩
      exact reads_of_sentence sentence (hasWord_of_tokenize lexed) apart
  rw [← isSentence]
  cases broken : (Plan.ofTokens query.scope tokens).error? with
  | none =>
      rw [broken] at decided
      have succeeds (document : Document) : ∃ selected,
          ((Query.mk document query.scope).select selector).outcome = .ok selected := by
        rw [runs]
        exact decided document
      refine ⟨iff_of_true (succeeds query.document) rfl, ?_⟩
      intro document error
      obtain ⟨selected, succeeded⟩ := succeeds query.document
      obtain ⟨others, otherSucceeded⟩ := succeeds document
      simp [succeeded, otherSucceeded]
  | some error =>
      rw [broken] at decided
      have fails (document : Document) :
          ((Query.mk document query.scope).select selector).outcome = .error error := by
        rw [runs]
        exact decided document
      refine ⟨iff_of_false ?_ (Option.some_ne_none error), ?_⟩
      · simp [fails query.document]
      · intro document other
        rw [fails query.document, fails document]

/-- Behind the first star of `*.a:nth-child(2)* > null` a level ends without a combinator. -/
theorem select_accepts_iff_adjacent :
    let query : Query := ⟨.ofTree (.scalar none (.bool true)), ⟨"", []⟩⟩
    let tokens : List Token :=
      [⟨.operator, "*", 0⟩, ⟨.identifier, "a", 1⟩, ⟨.nthFunction, "nth-child", 3⟩,
        ⟨.arguments, "(2)", 13⟩, ⟨.operator, "*", 16⟩, ⟨.operator, ">", 17⟩,
        ⟨.nativeKind, "null", 20⟩]
    tokenize .selector "*.a:nth-child(2)* > null" = .ok tokens ∧
      (∀ token ∈ tokens, token.kind = .pseudoClassFunction → token.value ≠ "has") ∧
        ((∃ selected, (query.select "*.a:nth-child(2)* > null").outcome = .ok selected) ↔
            Sentence query.scope tokens ∧ StarsApart tokens) ∧
          ∀ (document : Document) (error : QueryError),
            (query.select "*.a:nth-child(2)* > null").outcome = .error error ↔
              ((Query.mk document query.scope).select "*.a:nth-child(2)* > null").outcome =
                .error error := by
  intro query tokens
  have lexed : tokenize .selector "*.a:nth-child(2)* > null" = .ok tokens := by decide +kernel
  have noHas : ∀ token ∈ tokens, token.kind = .pseudoClassFunction → token.value ≠ "has" := by
    decide
  exact ⟨lexed, noHas, query.select_accepts_iff lexed noHas⟩

end Query

end TreeQuery
