import TreeQuery.Selector.Plan

/-!
Selectors as chains of levels.

A `Chain` has the levels of a selector with the combinators between them. A row of tokens `Reads`
as a chain in one way at most, and the plan of the tokens follows the same chain.
-/

namespace TreeQuery

/-- A level and the combinator after it. -/
structure Step where
  tests : List Level.Test
  combinator : Combinator

/-- A selector, level by level. -/
structure Chain where
  steps : List Step
  final : List Level.Test

namespace Chain

/-- The chain with one more step at its start. -/
def join (step : Step) (next : Chain) : Chain :=
  ⟨step :: next.steps, next.final⟩

/-- The levels of a row of tokens. A level that follows another one without an operator is a
descendant level. -/
inductive Reads (scope : PackageScope) : List Token → Chain → Prop where
  | final {tokens : List Token} {tests : List Level.Test}
      (level : Level.read scope tokens = .ok (tests, [])) : Reads scope tokens ⟨[], tests⟩
  | operator {tokens rest : List Token} {sign : Token} {tests : List Level.Test}
      {combinator : Combinator} {next : Chain}
      (level : Level.read scope tokens = .ok (tests, sign :: rest))
      (isOperator : sign.kind = .operator)
      (isSign : Combinator.ofSign? sign.value = some combinator)
      (others : Reads scope rest next) : Reads scope tokens (join ⟨tests, combinator⟩ next)
  | adjacent {tokens rest : List Token} {first : Token} {tests : List Level.Test} {next : Chain}
      (level : Level.read scope tokens = .ok (tests, first :: rest))
      (notOperator : first.kind ≠ .operator)
      (others : Reads scope (first :: rest) next) :
      Reads scope tokens (join ⟨tests, .descendant⟩ next)

/-- The tests of the level at an index; the level after all steps is the final one. -/
def level (chain : Chain) (index : Nat) : List Level.Test :=
  (chain.steps[index]?.map Step.tests).getD chain.final

/-- Whether the matches of the level at an index are part of the answer. -/
def IsTarget (chain : Chain) (index : Nat) : Prop :=
  index = chain.steps.length ∨ chain.steps[index]?.map Step.combinator = some .union

instance (chain : Chain) (index : Nat) : Decidable (chain.IsTarget index) :=
  inferInstanceAs (Decidable (_ ∨ _))

def targets (chain : Chain) : List Nat :=
  (List.range (chain.steps.length + 1)).filter fun index => chain.IsTarget index

section

variable {step : Step} {next : Chain} {index : Nat}

@[simp] theorem steps_join : (join step next).steps = step :: next.steps := rfl

@[simp] theorem level_join_zero : (join step next).level 0 = step.tests := rfl

@[simp] theorem level_join_succ : (join step next).level (index + 1) = next.level index := rfl

theorem isTarget_join_zero : (join step next).IsTarget 0 ↔ step.combinator = .union := by
  simp [IsTarget, join]

theorem isTarget_join_succ : (join step next).IsTarget (index + 1) ↔ next.IsTarget index := by
  simp [IsTarget, join]

theorem targets_join :
    (join step next).targets =
      (if step.combinator = .union then [0] else []) ++ next.targets.map Nat.succ := by
  have later : (List.map Nat.succ (List.range (next.steps.length + 1))).filter
      (fun index => (join step next).IsTarget index) = next.targets.map Nat.succ := by
    rw [List.filter_map, targets]
    refine congrArg (List.map Nat.succ) (List.filter_congr fun index _ => ?_)
    simp [isTarget_join_succ]
  have indices : List.range ((join step next).steps.length + 1) =
      0 :: List.map Nat.succ (List.range (next.steps.length + 1)) :=
    List.range_succ_eq_map
  rw [targets, indices, List.filter_cons, later]
  by_cases isUnion : step.combinator = .union
  · simp [isTarget_join_zero, isUnion]
  · simp [isTarget_join_zero, isUnion]

end

/-- A row of tokens is read as levels in one way only. -/
theorem Reads.unique {scope : PackageScope} {tokens : List Token} {chain other : Chain}
    (first : Reads scope tokens chain) (second : Reads scope tokens other) : chain = other := by
  induction first generalizing other with
  | final level =>
      cases second with
      | final found =>
          rw [level] at found
          cases found
          rfl
      | operator found =>
          rw [level] at found
          cases found
      | adjacent found =>
          rw [level] at found
          cases found
  | operator level isOperator isSign _ induction =>
      cases second with
      | final found =>
          rw [level] at found
          cases found
      | operator found _ found_isSign others =>
          rw [level] at found
          cases found
          rw [isSign] at found_isSign
          cases found_isSign
          rw [induction others]
      | adjacent found notOperator =>
          rw [level] at found
          cases found
          exact absurd isOperator notOperator
  | adjacent level notOperator _ induction =>
      cases second with
      | final found =>
          rw [level] at found
          cases found
      | operator found isOperator =>
          rw [level] at found
          cases found
          exact absurd isOperator notOperator
      | adjacent found _ others =>
          rw [level] at found
          cases found
          rw [induction others]

end Chain

namespace Plan

/-- A test with the plan of its inner selector. -/
def ofTest (scope : PackageScope) (test : Level.Test) : Predicate Plan :=
  test.mapInner fun inner _ => ofTokens scope inner

theorem map_attach_ofTest (scope : PackageScope) (tests : List Level.Test) :
    (tests.attach.map fun ⟨test, _⟩ => test.mapInner fun inner _ => ofTokens scope inner) =
      tests.map (ofTest scope) :=
  List.attach_map_val (f := ofTest scope)

section

variable {scope : PackageScope} {tokens : List Token} {tests : List Level.Test} {next : Token}
  {rest : List Token} {error : QueryError}

theorem ofTokens_unreadable (level : Level.read scope tokens = .error error) :
    ofTokens scope tokens = .unreadable tokens error := by
  rw [ofTokens]
  split
  · rename_i found
    rw [level] at found
    cases found
    rfl
  · rename_i found
    rw [level] at found
    cases found

theorem ofTokens_final (level : Level.read scope tokens = .ok (tests, [])) :
    ofTokens scope tokens = .final tokens (tests.map (ofTest scope)) := by
  rw [ofTokens]
  split
  · rename_i found
    rw [level] at found
    cases found
  · rename_i found
    rw [map_attach_ofTest]
    rw [level] at found
    cases found
    rfl

theorem ofTokens_next (level : Level.read scope tokens = .ok (tests, next :: rest)) :
    ofTokens scope tokens =
      match splitCombinator next rest with
      | .error error => .cut tokens (tests.map (ofTest scope)) error
      | .ok (combinator, remainder) =>
          .join tokens (tests.map (ofTest scope)) combinator (ofTokens scope remainder) := by
  rw [ofTokens]
  split
  · rename_i found
    rw [level] at found
    cases found
  · rename_i found
    rw [map_attach_ofTest]
    rw [level] at found
    cases found
    dsimp only
    split
    · rename_i split
      rw [split]
    · rename_i split
      rw [split]

end

/-- What follows the combinator is read on its own. -/
theorem reads_of_splitCombinator {scope : PackageScope} {tokens rest remainder : List Token}
    {next : Token} {tests : List Level.Test} {combinator : Combinator} {chain : Chain}
    (level : Level.read scope tokens = .ok (tests, next :: rest))
    (split : splitCombinator next rest = .ok (combinator, remainder))
    (reads : Chain.Reads scope remainder chain) :
    Chain.Reads scope tokens (.join ⟨tests, combinator⟩ chain) := by
  unfold splitCombinator at split
  by_cases isOperator : next.kind = .operator
  · rw [if_pos isOperator] at split
    cases isSign : Combinator.ofSign? next.value with
    | none =>
        rw [isSign] at split
        cases split
    | some found =>
        rw [isSign] at split
        dsimp only at split
        by_cases ended : rest.isEmpty
        · rw [if_pos ended] at split
          cases split
        · rw [if_neg ended] at split
          cases split
          exact .operator level isOperator isSign reads
  · rw [if_neg isOperator] at split
    cases split
    exact .adjacent level isOperator reads

theorem read_nil (scope : PackageScope) : Level.read scope [] = .error (.noSelector 0) := rfl

theorem ne_nil_of_reads {scope : PackageScope} {tokens : List Token} {chain : Chain}
    (reads : Chain.Reads scope tokens chain) : tokens ≠ [] := by
  rintro rfl
  cases reads with
  | final level => cases (read_nil scope).symm.trans level
  | operator level => cases (read_nil scope).symm.trans level
  | adjacent level => cases (read_nil scope).symm.trans level

/-- A chain goes on behind the combinator after its first level. -/
theorem splitCombinator_of_reads {scope : PackageScope} {tokens rest : List Token} {next : Token}
    {tests : List Level.Test} {chain : Chain}
    (level : Level.read scope tokens = .ok (tests, next :: rest))
    (reads : Chain.Reads scope tokens chain) :
    ∃ combinator remainder later, splitCombinator next rest = .ok (combinator, remainder) ∧
      Chain.Reads scope remainder later ∧ chain = .join ⟨tests, combinator⟩ later := by
  cases reads with
  | final found => cases level.symm.trans found
  | operator found isOperator isSign others =>
      cases level.symm.trans found
      have notEmpty : rest.isEmpty = false := by
        simpa using ne_nil_of_reads others
      refine ⟨_, _, _, ?_, others, rfl⟩
      simp [splitCombinator, isOperator, isSign, notEmpty]
  | adjacent found notOperator others =>
      cases level.symm.trans found
      refine ⟨_, _, _, ?_, others, rfl⟩
      simp [splitCombinator, notOperator]

section

variable {scope : PackageScope} {tokens rest : List Token} {next : Token}
  {tests : List Level.Test} {combinator : Combinator}

theorem ofTokens_operator (level : Level.read scope tokens = .ok (tests, next :: rest))
    (isOperator : next.kind = .operator) (isSign : Combinator.ofSign? next.value = some combinator)
    (nonempty : rest ≠ []) :
    ofTokens scope tokens =
      .join tokens (tests.map (ofTest scope)) combinator (ofTokens scope rest) := by
  rw [ofTokens_next level]
  simp [splitCombinator, isOperator, isSign, nonempty]

theorem ofTokens_adjacent (level : Level.read scope tokens = .ok (tests, next :: rest))
    (notOperator : next.kind ≠ .operator) :
    ofTokens scope tokens =
      .join tokens (tests.map (ofTest scope)) .descendant (ofTokens scope (next :: rest)) := by
  rw [ofTokens_next level]
  simp [splitCombinator, notOperator]

end

end Plan

end TreeQuery
