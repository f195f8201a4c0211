import TreeQuery.Proofs.Selector.ClosedForm
import TreeQuery.Proofs.Selector.Units
import TreeQuery.Proofs.Token.Joining

/-!
Unions of selectors.

The text `a, b` has the levels of `a`, the comma, and the levels of `b`. A run folds them from the
right with one precedence for all combinators, so the steps of `a` filter the matches of `b` as
well. The answer of `a, b` is that of `a` and what these steps keep of the answer of `b`; it is the
sum of both answers if `a` has no other combinators than commas.
-/

namespace TreeQuery

namespace Level

variable {scope : PackageScope} {category : Category} {unit tokens rest : List Token}
  {tests : List Test} {test : Test}

theorem IsUnit.last (isUnit : IsUnit scope category unit test) :
    ∃ init last, unit = init ++ [last] ∧
      (last.kind = .operator → Combinator.ofSign? last.value = none) := by
  cases isUnit with
  | native isNative => exact ⟨[], _, rfl, by simp [isNative]⟩
  | declared isDeclared => exact ⟨[], _, rfl, by simp [isDeclared]⟩
  | key isName => exact ⟨[], _, rfl, by simp [isName]⟩
  | pseudoClass isPseudoClass => exact ⟨[], _, rfl, by simp [isPseudoClass]⟩
  | @nth token blob _ _ isBlob => exact ⟨[token], blob, rfl, by simp [isBlob]⟩
  | @function token blob _ _ isBlob => exact ⟨[token], blob, rfl, by simp [isBlob]⟩
  | universal isStar =>
      simp only [Token.isOperator, Bool.and_eq_true, beq_iff_eq] at isStar
      exact ⟨[], _, rfl, fun _ => by rw [isStar.2]; rfl⟩

/-- A level ends with a unit. -/
theorem last_of_read (level : read scope tokens = .ok (tests, [])) :
    ∃ init last, tokens = init ++ [last] ∧
      (last.kind = .operator → Combinator.ofSign? last.value = none) := by
  obtain ⟨parts, nonempty, _, compound⟩ := read_ok_iff.mp level
  rcases List.eq_nil_or_concat parts with rfl | ⟨before, part, rfl⟩
  · exact absurd rfl nonempty
  · obtain ⟨init, last, isUnit, notCombinator⟩ := (compound.units part (by simp)).last
    refine ⟨before.flatMap Part.tokens ++ init, last, ?_, notCombinator⟩
    rw [compound.spelled]
    simp [isUnit]

end Level

namespace Chain

variable {scope : PackageScope} {tokens others : List Token} {chain other second next : Chain}
  {step : Step} {tests : List Level.Test} {sign : Token}

/-- The levels of a chain, a comma, and the levels of another chain. -/
def union (first second : Chain) : Chain :=
  ⟨first.steps ++ ⟨first.final, .union⟩ :: second.steps, second.final⟩

theorem union_final : union ⟨[], tests⟩ second = join ⟨tests, .union⟩ second := rfl

theorem union_join : (join step next).union second = join step (next.union second) := rfl

/-- No chain ends with a combinator. -/
theorem Reads.last (reads : Reads scope tokens chain) :
    ∃ init last, tokens = init ++ [last] ∧
      (last.kind = .operator → Combinator.ofSign? last.value = none) := by
  induction reads with
  | final level => exact Level.last_of_read level
  | @operator _ rest sign _ _ _ level _ _ _ induction =>
      obtain ⟨init, last, rfl, notCombinator⟩ := induction
      obtain ⟨parts, _, _, compound⟩ := Level.read_ok_iff.mp level
      refine ⟨parts.flatMap Level.Part.tokens ++ sign :: init, last, ?_, notCombinator⟩
      simp [compound.spelled]
  | @adjacent _ rest first _ _ level _ _ induction =>
      obtain ⟨init, last, spelled, notCombinator⟩ := induction
      obtain ⟨parts, _, _, compound⟩ := Level.read_ok_iff.mp level
      refine ⟨parts.flatMap Level.Part.tokens ++ init, last, ?_, notCombinator⟩
      rw [compound.spelled, spelled, List.append_assoc]

/-- Tokens that say the same are read as the same chain. -/
theorem Reads.congr (reads : Reads scope tokens chain)
    (same : tokens.map Token.content = others.map Token.content) : Reads scope others chain := by
  induction reads generalizing others with
  | final level =>
      obtain ⟨rest, sameRest, otherLevel⟩ := Level.read_congr level same
      cases List.map_eq_nil_iff.mp sameRest.symm
      exact .final otherLevel
  | operator level isOperator isSign _ induction =>
      obtain ⟨rest, sameRest, otherLevel⟩ := Level.read_congr level same
      obtain ⟨otherSign, behind, rfl, sameSign, sameBehind⟩ := List.map_eq_cons_iff.mp sameRest.symm
      have ⟨sameKind, sameValue⟩ := Token.content_eq_iff.mp sameSign
      exact .operator otherLevel (sameKind.trans isOperator) (sameValue ▸ isSign)
        (induction sameBehind.symm)
  | adjacent level notOperator _ induction =>
      obtain ⟨rest, sameRest, otherLevel⟩ := Level.read_congr level same
      obtain ⟨first, behind, rfl, sameFirst, _⟩ := List.map_eq_cons_iff.mp sameRest.symm
      have ⟨sameKind, _⟩ := Token.content_eq_iff.mp sameFirst
      exact .adjacent otherLevel (sameKind ▸ notOperator) (induction sameRest)

/-- Two chains with a comma between them. -/
theorem Reads.union (reads : Reads scope tokens chain) (otherReads : Reads scope others other)
    (isComma : sign.content = (.operator, ",")) :
    Reads scope (tokens ++ sign :: others) (chain.union other) := by
  obtain ⟨isOperator, isSign⟩ : sign.kind = .operator ∧ sign.value = "," := Prod.mk.inj isComma
  have apart : ∀ {rest : List Token}, ∀ token ∈ (sign :: rest).head?,
      ∀ category : Level.Category, category.starts token = false := by
    rintro rest token ⟨⟩ category
    cases category <;> simp [Level.Category.starts, Token.isOperator, isOperator, isSign]
  induction reads with
  | final level =>
      have before := Level.read_append level (sign :: others) apart
      exact .operator before isOperator (isSign ▸ rfl) otherReads
  | operator level found_isOperator found_isSign _ induction =>
      have before := Level.read_append level (sign :: others) apart
      exact .operator before found_isOperator found_isSign induction
  | adjacent level notOperator _ induction =>
      have before := Level.read_append level (sign :: others) apart
      exact .adjacent before notOperator induction

end Chain

namespace Query

variable {query : Query} {chain second : Chain} {tokens : List Token} {nodes : List NodeId}
  {tests : List Level.Test} {step : Step} {next : Chain} {depth : Nat}

/-- Whether every step of a chain keeps a node, those before a comma apart. -/
def Admits (query : Query) (chain : Chain) (nodes : List NodeId) (id : NodeId) : Prop :=
  ∀ step ∈ chain.steps, step.combinator ≠ .union → query.Keeps step nodes id

instance (query : Query) (chain : Chain) (nodes : List NodeId) (id : NodeId) :
    Decidable (query.Admits chain nodes id) :=
  inferInstanceAs (Decidable (∀ step ∈ _, _))

theorem admits_final {id : NodeId} : query.Admits ⟨[], tests⟩ nodes id := by
  simp [Admits]

theorem admits_join {id : NodeId} :
    query.Admits (.join step next) nodes id ↔
      (step.combinator ≠ .union → query.Keeps step nodes id) ∧ query.Admits next nodes id := by
  simp [Admits]

/-- The steps of the first chain filter the answers of the second one. -/
theorem answers_union (query : Query) (chain second : Chain) (nodes : List NodeId) :
    query.answers (chain.union second) nodes =
      query.answers chain nodes ++
        (query.answers second nodes).filter fun id => query.Admits chain nodes id := by
  obtain ⟨steps, final⟩ := chain
  induction steps with
  | nil =>
      have all : (query.answers second nodes).filter
          (fun id => query.Admits ⟨[], final⟩ nodes id) = query.answers second nodes :=
        List.filter_eq_self.mpr fun id _ => by simp [admits_final]
      rw [all, Chain.union_final, answers_join, answers_final]
      rfl
  | cons step steps induction =>
      have isJoin : (⟨step :: steps, final⟩ : Chain) = .join step ⟨steps, final⟩ := rfl
      rw [isJoin, Chain.union_join, answers_join, answers_join, induction]
      simp only [admits_join]
      by_cases isUnion : step.combinator = .union
      · simp [isUnion, Document.combine]
      · rw [Document.combine_eq_filter isUnion, Document.combine_eq_filter isUnion,
          List.filter_append, List.filter_filter]
        congr 1
        refine List.filter_congr fun id _ => ?_
        rw [Bool.eq_iff_iff, Bool.and_eq_true]
        simp only [decide_eq_true_iff, ← keeps_iff]
        exact and_congr_left' (imp_iff_right isUnion).symm

/-! ## Success -/

/-- Whether a level can be tested on all nodes of a scope. -/
def Testable (query : Query) (tests : List Level.Test) (nodes : List NodeId) : Prop :=
  ∀ id ∈ nodes, ∃ passes,
    (Plan.holdsAll query.document (tests.map (Plan.ofTest query.scope)) id 0).outcome = .ok passes

theorem exists_filter_iff (depth : Nat) :
    (∃ selected, (Traced.filter (fun id => Plan.holdsAll query.document
        (tests.map (Plan.ofTest query.scope)) id depth) nodes).outcome = .ok selected) ↔
      query.Testable tests nodes := by
  simp only [Traced.filter_ok_iff, exists_and_left, exists_eq, and_true]
  refine forall₂_congr fun id _ => ?_
  rw [Plan.outcome_holdsAll_depth _ _ _ depth 0]

theorem exists_run_join_iff {combinator : Combinator} {plan : Plan} :
    (∃ selected, (Plan.run query.document (.join tokens (tests.map (Plan.ofTest query.scope))
        combinator plan) nodes depth).outcome = .ok selected) ↔
      query.Testable tests nodes ∧
        ∃ selected, (plan.run query.document nodes (depth + 1)).outcome = .ok selected := by
  rw [← exists_filter_iff depth]
  simp only [Plan.run_join_ok_iff]
  constructor
  · intro ⟨_, left, right, filtered, ran, _⟩
    exact ⟨⟨left, filtered⟩, right, ran⟩
  · intro ⟨⟨left, filtered⟩, right, ran⟩
    exact ⟨_, left, right, filtered, ran, rfl⟩

/-- A chain has an answer when all its levels can be tested. -/
theorem matchesAmong_ok_iff (reads : Chain.Reads query.scope tokens chain) (depth : Nat) :
    (∃ selected, (query.matchesAmong tokens nodes depth).outcome = .ok selected) ↔
      (∀ step ∈ chain.steps, query.Testable step.tests nodes) ∧
        query.Testable chain.final nodes := by
  simp only [matchesAmong]
  induction reads generalizing depth with
  | final level =>
      rw [Plan.ofTokens_final level, Plan.outcome_run_final, exists_filter_iff]
      simp
  | operator level isOperator isSign others induction =>
      rw [Plan.ofTokens_operator level isOperator isSign (Plan.ne_nil_of_reads others),
        exists_run_join_iff, induction, Chain.steps_join, List.forall_mem_cons, and_assoc]
      rfl
  | adjacent level notOperator _ induction =>
      rw [Plan.ofTokens_adjacent level notOperator, exists_run_join_iff, induction,
        Chain.steps_join, List.forall_mem_cons, and_assoc]
      rfl

/-- The levels and the answer of a selector that succeeds. -/
theorem reads_of_select_ok {selector : String} {found : List NodeId}
    (ran : (query.select selector).outcome = .ok found) :
    ∃ tokens chain, tokenize .selector selector = .ok tokens ∧
      Chain.Reads query.scope tokens chain ∧ found = query.answers chain query.document.all ∧
        (∀ step ∈ chain.steps, query.Testable step.tests query.document.all) ∧
          query.Testable chain.final query.document.all := by
  cases lexed : tokenize .selector selector with
  | error error =>
      rw [select, lexed] at ran
      cases ran
  | ok tokens =>
      rw [select, lexed] at ran
      obtain ⟨chain, reads, isAnswer⟩ := reads_of_run_ok ran
      exact ⟨tokens, chain, rfl, reads, isAnswer, (matchesAmong_ok_iff reads 0).mp ⟨found, ran⟩⟩

/-- The answer of two selectors with a comma between them: the answer of the first one, and what
its steps keep of the answer of the second one. -/
theorem outcome_select_comma (query : Query) {first second : String}
    {firstFound secondFound : List NodeId}
    (firstRan : (query.select first).outcome = .ok firstFound)
    (secondRan : (query.select second).outcome = .ok secondFound)
    (apart : ∀ c ∈ (blankEnd first.toList).head?, TokenRule.continuesName c = false) :
    ∃ tokens chain, tokenize .selector first = .ok tokens ∧
      Chain.Reads query.scope tokens chain ∧
        (query.select (first ++ ", " ++ second)).outcome = .ok (firstFound ++
          secondFound.filter fun id => query.Admits chain query.document.all id) := by
  obtain ⟨tokens, chain, firstLexed, firstReads, rfl, stepsTestable, finalTestable⟩ :=
    reads_of_select_ok firstRan
  obtain ⟨others, other, secondLexed, secondReads, rfl, otherSteps, otherFinal⟩ :=
    reads_of_select_ok secondRan
  refine ⟨tokens, chain, firstLexed, firstReads, ?_⟩
  have noSign : ∀ token ∈ tokens.getLast?, token.kind = .operator →
      Combinator.ofSign? token.value = none := by
    obtain ⟨init, last, rfl, notCombinator⟩ := firstReads.last
    simpa using notCombinator
  obtain ⟨sign, behind, lexed, isComma, sameContent⟩ := tokenize_comma firstLexed secondLexed
    (Plan.ne_nil_of_reads firstReads) (Plan.ne_nil_of_reads secondReads) noSign apart
  have reads := firstReads.union (secondReads.congr sameContent.symm) isComma
  have testable : (∀ step ∈ (chain.union other).steps,
      query.Testable step.tests query.document.all) ∧
        query.Testable (chain.union other).final query.document.all := by
    refine ⟨?_, otherFinal⟩
    exact List.forall_mem_append.mpr
      ⟨stepsTestable, List.forall_mem_cons.mpr ⟨finalTestable, otherSteps⟩⟩
  obtain ⟨found, ran⟩ := (matchesAmong_ok_iff reads 0).mpr testable
  obtain ⟨joined, joinedReads, rfl⟩ := reads_of_run_ok ran
  rw [select, lexed]
  dsimp only
  rw [ran, joinedReads.unique reads, answers_union]

/-- Whether the levels of a selector are joined by commas only. -/
def IsUnion (query : Query) (selector : String) : Prop :=
  ∀ tokens chain, tokenize .selector selector = .ok tokens →
    Chain.Reads query.scope tokens chain → ∀ step ∈ chain.steps, step.combinator = .union

/-- What is said of every reading of a selector is said of the one it has. -/
theorem forall_reads_iff {selector : String} {property : Chain → Prop}
    (lexed : tokenize .selector selector = .ok tokens)
    (reads : Chain.Reads query.scope tokens chain) :
    (∀ others other, tokenize .selector selector = .ok others →
      Chain.Reads query.scope others other → property other) ↔ property chain := by
  constructor
  · intro every
    exact every tokens chain lexed reads
  · intro held others other otherLexed otherReads
    cases lexed.symm.trans otherLexed
    cases reads.unique otherReads
    exact held

theorem isUnion_iff {selector : String} (lexed : tokenize .selector selector = .ok tokens)
    (reads : Chain.Reads query.scope tokens chain) :
    query.IsUnion selector ↔ ∀ step ∈ chain.steps, step.combinator = .union :=
  forall_reads_iff lexed reads

/-- Two selectors with a comma between them answer with the answer of the first one and what its
steps keep of the answer of the second one. If the first one is a union itself, that is all of it,
and every node is matched as often as by both selectors together. White space at the end of the
first selector that would go on a name is left out. -/
theorem select_comma (query : Query) {first second : String} {firstFound secondFound : List NodeId}
    (firstRan : (query.select first).outcome = .ok firstFound)
    (secondRan : (query.select second).outcome = .ok secondFound)
    (apart : ∀ c ∈ (blankEnd first.toList).head?, TokenRule.continuesName c = false) :
    ∃ tokens chain joined, tokenize .selector first = .ok tokens ∧
      Chain.Reads query.scope tokens chain ∧
        (query.select (first ++ ", " ++ second)).outcome = .ok joined ∧
          (joined = firstFound ++
            secondFound.filter fun id => query.Admits chain query.document.all id) ∧
            (query.IsUnion first → ∀ id, joined.count id = firstFound.count id +
              secondFound.count id) := by
  obtain ⟨tokens, chain, lexed, reads, ran⟩ := query.outcome_select_comma firstRan secondRan apart
  refine ⟨tokens, chain, _, lexed, reads, ran, rfl, ?_⟩
  intro union id
  have all : (secondFound.filter fun id => query.Admits chain query.document.all id) =
      secondFound := by
    refine List.filter_eq_self.mpr fun id _ => decide_eq_true ?_
    intro step isStep notUnion
    exact absurd ((isUnion_iff lexed reads).mp union step isStep) notUnion
  rw [all, List.count_append]

/-- In `.b, .a > *` the first selector is one level, which keeps all matches of the second one. -/
theorem select_comma_level :
    let query : Query :=
      ⟨.ofTree (.keyed none .object
        [("a", .array none [.scalar none (.bool true)]), ("b", .scalar none (.bool false))]),
        ⟨"", []⟩⟩
    (query.select ".b").outcome = .ok [3] ∧ (query.select ".a > *").outcome = .ok [2] ∧
      (∀ c ∈ (blankEnd ".b".toList).head?, TokenRule.continuesName c = false) ∧
        ∃ tokens chain joined, tokenize .selector ".b" = .ok tokens ∧
          Chain.Reads query.scope tokens chain ∧
            (query.select (".b" ++ ", " ++ ".a > *")).outcome = .ok joined ∧
              (joined = [3] ++ [2].filter fun id => query.Admits chain query.document.all id) ∧
                query.IsUnion ".b" ∧ ∀ id, joined.count id = [3].count id + [2].count id := by
  intro query
  have firstRan : (query.select ".b").outcome = .ok [3] := by decide +kernel
  have secondRan : (query.select ".a > *").outcome = .ok [2] := by decide +kernel
  have apart : ∀ c ∈ (blankEnd ".b".toList).head?, TokenRule.continuesName c = false := by
    have noBlanks : blankEnd ".b".toList = [] := by decide +kernel
    rw [noBlanks]
    simp
  have firstLexed : tokenize .selector ".b" = .ok [⟨.identifier, "b", 0⟩] := by decide +kernel
  have firstReads : Chain.Reads query.scope [⟨.identifier, "b", 0⟩] ⟨[], [.key "b"]⟩ := .final rfl
  have isUnion : query.IsUnion ".b" := (isUnion_iff firstLexed firstReads).mpr (by simp)
  obtain ⟨tokens, chain, joined, lexed, reads, ran, joinedAre, isSum⟩ :=
    query.select_comma firstRan secondRan apart
  exact ⟨firstRan, secondRan, apart, tokens, chain, joined, lexed, reads, ran, joinedAre, isUnion,
    isSum isUnion⟩

/-- In `.a > *, .b` the matches of `.b` have to be children of `a`, and in `.b, .a > *` not. -/
theorem select_comma_not_sum :
    let query : Query :=
      ⟨.ofTree (.keyed none .object
        [("a", .array none [.scalar none (.bool true)]), ("b", .scalar none (.bool false))]),
        ⟨"", []⟩⟩
    (query.select ".a > *").outcome = .ok [2] ∧ (query.select ".b").outcome = .ok [3] ∧
      (query.select (".a > *" ++ ", " ++ ".b")).outcome = .ok [2] ∧
        (query.select (".b" ++ ", " ++ ".a > *")).outcome = .ok [3, 2] ∧
          [2].count 3 ≠ [2].count 3 + [3].count 3 ∧ [2].count 3 ≠ [3, 2].count 3 := by
  intro query
  refine ⟨?_, ?_, ?_, ?_, by decide, by decide⟩ <;> decide +kernel

end Query

end TreeQuery
