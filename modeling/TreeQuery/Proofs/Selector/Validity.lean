import TreeQuery.Proofs.Selector.Chain
import TreeQuery.Proofs.Selector.Outcome

/-!
Where the errors of a query come from.

A plan that has an unreadable part fails on every document. Apart from that only the test of a
`:has(…)` can fail, and whether it is made depends on the nodes and on the tests before it. So the
validity of a selector is a matter of its tokens alone if its inner selectors are well formed, and
otherwise it may depend on the document.
-/

namespace TreeQuery

namespace Chain

/-- The tests of all levels. -/
def tests (chain : Chain) : List Level.Test :=
  chain.steps.flatMap Step.tests ++ chain.final

@[simp] theorem tests_join {step : Step} {next : Chain} :
    (join step next).tests = step.tests ++ next.tests := by
  simp [tests, join]

end Chain

namespace Plan

/-- The error of the first part that cannot be read. -/
def error? : Plan → Option QueryError
  | .unreadable _ error => some error
  | .final .. => none
  | .cut _ _ error => some error
  | .join _ _ _ next => next.error?

/-- The tests of all levels that are read. -/
def tests : Plan → List (Predicate Plan)
  | .unreadable .. => []
  | .final _ tests => tests
  | .cut _ tests _ => tests
  | .join _ tests _ next => tests ++ next.tests

variable {document : Document} {scope : PackageScope} {tokens : List Token}
  {level : List (Predicate Plan)} {test : Predicate Plan} {plan : Plan} {nodes : List NodeId}
  {id : NodeId} {depth : Nat} {error : QueryError} {chain : Chain}

/-- Whether a test can be made on a node, whatever its answer. -/
def Answers (document : Document) (test : Predicate Plan) (id : NodeId) : Prop :=
  ∃ passes, (holds document test id 0).outcome = .ok passes

theorem answers_of_ne_has (notHas : ∀ inner, test ≠ .has inner) : Answers document test id := by
  cases test with
  | has inner => exact absurd rfl (notHas inner)
  | _ => exact ⟨_, rfl⟩

theorem answers_has {inner : Plan} {below : List NodeId}
    (succeeded : (run document inner (document.subtree id) 0).outcome = .ok below) :
    Answers document (.has inner) id := by
  refine ⟨(document.parents below).contains id, ?_⟩
  rw [outcome_holds_has, outcome_run_depth document inner _ _ 0, succeeded]
  rfl

theorem holdsAll_of_answers (answers : ∀ test ∈ level, Answers document test id) (depth : Nat) :
    ∃ passes, (holdsAll document level id depth).outcome = .ok passes := by
  induction level with
  | nil => exact ⟨true, rfl⟩
  | cons test tests induction =>
      have ⟨first, later⟩ := List.forall_mem_cons.mp answers
      obtain ⟨passes, held⟩ := first
      rw [outcome_holdsAll_cons, outcome_holds_depth _ _ _ depth 0, held]
      cases passes with
      | false => exact ⟨false, rfl⟩
      | true => exact induction later

theorem filter_of_answers (answers : ∀ test ∈ level, ∀ id ∈ nodes, Answers document test id)
    (depth : Nat) :
    ∃ selected, (Traced.filter (fun id => holdsAll document level id depth) nodes).outcome =
      .ok selected :=
  ⟨_, Traced.filter_ok fun id isNode =>
    holdsAll_of_answers (fun test isTest => answers test isTest id isNode) depth⟩

/-- A plan with an unreadable part has no answer on any document. -/
theorem run_fails_of_error? (broken : plan.error? = some error) :
    ∃ found, (run document plan nodes depth).outcome = .error found := by
  induction plan using error?.induct generalizing depth with
  | case1 tokens error => exact ⟨_, outcome_run_unreadable⟩
  | case2 => cases broken
  | case3 tokens tests error =>
      rw [outcome_run_cut]
      cases (Traced.filter _ nodes).outcome with
      | error found => exact ⟨found, rfl⟩
      | ok selected => exact ⟨error, rfl⟩
  | case4 tokens tests combinator next induction =>
      obtain ⟨found, failed⟩ := induction broken
      rw [outcome_run_join, failed]
      cases (Traced.filter _ nodes).outcome with
      | error found => exact ⟨found, rfl⟩
      | ok selected => exact ⟨found, rfl⟩

/-- If no test fails, the plan alone decides whether a run has an answer, and with which error it
has none. -/
theorem run_of_answers (answers : ∀ test ∈ plan.tests, ∀ id ∈ nodes, Answers document test id)
    (depth : Nat) :
    match plan.error? with
    | none => ∃ selected, (run document plan nodes depth).outcome = .ok selected
    | some error => (run document plan nodes depth).outcome = .error error := by
  induction plan using error?.induct generalizing depth with
  | case1 tokens error => exact outcome_run_unreadable
  | case2 tokens tests =>
      rw [error?, outcome_run_final]
      exact filter_of_answers answers depth
  | case3 tokens tests error =>
      have own : ∀ test ∈ tests, ∀ id ∈ nodes, Answers document test id := answers
      obtain ⟨selected, filtered⟩ := filter_of_answers own depth
      rw [error?, outcome_run_cut, filtered]
      rfl
  | case4 tokens tests combinator next induction =>
      have ⟨own, later⟩ := List.forall_mem_append.mp answers
      obtain ⟨selected, filtered⟩ := filter_of_answers own depth
      have others := induction later (depth + 1)
      rw [error?, outcome_run_join, filtered]
      cases broken : next.error? with
      | none =>
          rw [broken] at others
          obtain ⟨right, ran⟩ := others
          rw [ran]
          exact ⟨_, rfl⟩
      | some error =>
          rw [broken] at others
          rw [others]
          rfl

/-- A plan is readable throughout if its tokens are a chain of levels. -/
theorem error?_eq_none_iff :
    (ofTokens scope tokens).error? = none ↔ ∃ chain, Chain.Reads scope tokens chain := by
  induction tokens using ofTokens.induct scope with
  | case1 tokens error level =>
      rw [ofTokens_unreadable level]
      refine iff_of_false (Option.some_ne_none error) ?_
      intro ⟨chain, reads⟩
      cases reads with
      | final found => cases level.symm.trans found
      | operator found => cases level.symm.trans found
      | adjacent found => cases level.symm.trans found
  | case2 tokens tests level =>
      rw [ofTokens_final level]
      exact iff_of_true rfl ⟨_, .final level⟩
  | case3 tokens tests next rest level error split =>
      rw [ofTokens_next level, split]
      refine iff_of_false (Option.some_ne_none error) ?_
      intro ⟨chain, reads⟩
      obtain ⟨_, _, _, found, _⟩ := splitCombinator_of_reads level reads
      cases split.symm.trans found
  | case4 tokens tests next rest level combinator remainder split _ _ induction =>
      rw [ofTokens_next level, split]
      refine induction.trans ⟨?_, ?_⟩
      · intro ⟨chain, reads⟩
        exact ⟨_, reads_of_splitCombinator level split reads⟩
      · intro ⟨chain, reads⟩
        obtain ⟨_, _, later, found, others, _⟩ := splitCombinator_of_reads level reads
        cases split.symm.trans found
        exact ⟨later, others⟩

theorem tests_of_reads (reads : Chain.Reads scope tokens chain) :
    (ofTokens scope tokens).tests = chain.tests.map (ofTest scope) := by
  induction reads with
  | final level => rw [ofTokens_final level]; rfl
  | operator level isOperator isSign others induction =>
      rw [ofTokens_operator level isOperator isSign (ne_nil_of_reads others), Chain.tests_join,
        List.map_append, ← induction]
      rfl
  | adjacent level notOperator others induction =>
      rw [ofTokens_adjacent level notOperator, Chain.tests_join, List.map_append, ← induction]
      rfl

end Plan

/-! ## Well-formed selectors -/

/-- A selector whose levels can be read, also those of the inner selectors at every depth. -/
inductive WellFormed (scope : PackageScope) : List Token → Prop where
  | levels {tokens : List Token} {chain : Chain} (reads : Chain.Reads scope tokens chain)
      (inner : ∀ inner, Predicate.has inner ∈ chain.tests → WellFormed scope inner) :
      WellFormed scope tokens

theorem Plan.answers_of_forall_has {document : Document} {scope : PackageScope}
    {tokens : List Token} {chain : Chain} (reads : Chain.Reads scope tokens chain)
    (inner : ∀ inner, Predicate.has inner ∈ chain.tests → ∀ nodes depth,
      ∃ selected, (run document (ofTokens scope inner) nodes depth).outcome = .ok selected) :
    ∀ test ∈ (ofTokens scope tokens).tests, ∀ id, Answers document test id := by
  rw [tests_of_reads reads, List.forall_mem_map]
  intro test isTest id
  cases test with
  | has tokens =>
      obtain ⟨below, succeeded⟩ := inner tokens isTest (document.subtree id) 0
      exact answers_has succeeded
  | _ => exact answers_of_ne_has (by simp [ofTest, Predicate.mapInner])

/-- A well-formed selector has an answer on every document. -/
theorem WellFormed.run_succeeds {scope : PackageScope} {tokens : List Token}
    (wellFormed : WellFormed scope tokens) (document : Document) (nodes : List NodeId)
    (depth : Nat) :
    ∃ selected, ((Plan.ofTokens scope tokens).run document nodes depth).outcome = .ok selected := by
  induction wellFormed generalizing nodes depth with
  | levels reads inner induction =>
      have answers := Plan.answers_of_forall_has reads induction
      have decided := Plan.run_of_answers
        (fun test isTest id (_ : id ∈ nodes) => answers test isTest id) depth
      rw [Plan.error?_eq_none_iff.mpr ⟨_, reads⟩] at decided
      exact decided

namespace Query

/-- A selector that fails on one document fails on every document, if the inner selectors that its
levels test are well formed. -/
theorem select_fails_everywhere {selector : String} {scope : PackageScope}
    {document other : Document} {error : QueryError}
    (innerWellFormed : ∀ tokens chain, tokenize .selector selector = .ok tokens →
      Chain.Reads scope tokens chain →
        ∀ inner, Predicate.has inner ∈ chain.tests → WellFormed scope inner)
    (failed : ((Query.mk document scope).select selector).outcome = .error error) :
    ∃ found, ((Query.mk other scope).select selector).outcome = .error found := by
  unfold select at failed ⊢
  cases lexed : tokenize .selector selector with
  | error lexError => exact ⟨_, rfl⟩
  | ok tokens =>
      simp only [lexed, matchesAmong] at failed ⊢
      cases broken : (Plan.ofTokens scope tokens).error? with
      | some error => exact Plan.run_fails_of_error? broken
      | none =>
          obtain ⟨chain, reads⟩ := Plan.error?_eq_none_iff.mp broken
          have wellFormed := WellFormed.levels reads (innerWellFormed tokens chain lexed reads)
          obtain ⟨selected, succeeded⟩ := wellFormed.run_succeeds document document.all 0
          cases failed.symm.trans succeeded

/-- The comma at the end fails on a Boolean as on a string, although only the string is tested with
the inner selector. -/
theorem select_fails_everywhere_comma :
    let scope : PackageScope := ⟨"example.com/zoo", [("pets", "example.com/pets")]⟩
    let selector := "string:has([pets:dog]),"
    (∀ tokens chain, tokenize .selector selector = .ok tokens → Chain.Reads scope tokens chain →
        ∀ inner, Predicate.has inner ∈ chain.tests → WellFormed scope inner) ∧
      ((Query.mk (.ofTree (.scalar none (.string "x"))) scope).select selector).outcome =
          .error (.noSelector 22) ∧
        ∃ found, ((Query.mk (.ofTree (.scalar none (.bool true))) scope).select selector).outcome =
          .error found := by
  intro scope selector
  have innerWellFormed : ∀ tokens chain, tokenize .selector selector = .ok tokens →
      Chain.Reads scope tokens chain →
        ∀ inner, Predicate.has inner ∈ chain.tests → WellFormed scope inner := by
    intro tokens chain lexed reads
    have isTokens : tokenize .selector selector = .ok [⟨.nativeKind, "string", 0⟩,
        ⟨.pseudoClassFunction, "has", 6⟩, ⟨.arguments, "([pets:dog])", 10⟩,
        ⟨.operator, ",", 22⟩] := by
      decide +kernel
    cases isTokens.symm.trans lexed
    have readable := Plan.error?_eq_none_iff.mpr ⟨chain, reads⟩
    exact absurd readable (by decide +kernel)
  have failed : ((Query.mk (.ofTree (.scalar none (.string "x"))) scope).select selector).outcome =
      .error (.noSelector 22) := by
    decide +kernel
  exact ⟨innerWellFormed, failed, select_fails_everywhere innerWellFormed failed⟩

/-- An inner selector with an unknown package fails on a string, and on a Boolean nothing reads
it. -/
theorem select_validity_depends_on_document :
    let scope : PackageScope := ⟨"", []⟩
    let selector := "string:has([farm:cow])"
    ((Query.mk (.ofTree (.scalar none (.string "x"))) scope).select selector).outcome =
        .error (.resolve (.unknownPackage "farm")) ∧
      ((Query.mk (.ofTree (.scalar none (.bool true))) scope).select selector).outcome = .ok [] := by
  decide +kernel

end Query

end TreeQuery
