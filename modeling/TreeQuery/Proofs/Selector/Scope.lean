import Mathlib.Data.List.Basic
import TreeQuery.Proofs.Selector.Union

/-!
Selectors on parts of a scope.

Levels on the left of a combinator are looked for in the scope too, so a smaller scope loses matches
and what kept them. What is left comes in the order of the larger scope: every combinator takes
parts of its two sides to a part of its result.
-/

namespace TreeQuery

namespace Document

variable {document : Document} {combinator : Combinator}
  {left right leftOthers rightOthers : List NodeId}

/-- A combinator makes a part of its results of a part of each side, in the same order. -/
theorem combine_sublist (leftPart : left.Sublist leftOthers)
    (rightPart : right.Sublist rightOthers) :
    (document.combine combinator left right).Sublist
      (document.combine combinator leftOthers rightOthers) := by
  by_cases isUnion : combinator = .union
  · subst isUnion
    exact leftPart.append rightPart
  · rw [combine_eq_filter isUnion, combine_eq_filter isUnion]
    refine (List.monotone_filter_right right fun id kept => ?_).trans (rightPart.filter _)
    obtain ⟨node, isLeft, related⟩ := of_decide_eq_true kept
    exact decide_eq_true ⟨node, leftPart.subset isLeft, related⟩

end Document

namespace Query

variable {query : Query} {tokens : List Token} {chain : Chain} {tests : List Level.Test}
  {nodes others : List NodeId}

/-- Fewer nodes have fewer matches, in the same order and not more often. -/
theorem answers_sublist (part : nodes.Sublist others) :
    (query.answers chain nodes).Sublist (query.answers chain others) := by
  obtain ⟨steps, final⟩ := chain
  induction steps with
  | nil =>
      rw [answers_final, answers_final]
      exact part.filter _
  | cons step steps induction =>
      have isJoin : (⟨step :: steps, final⟩ : Chain) = .join step ⟨steps, final⟩ := rfl
      rw [isJoin, answers_join, answers_join]
      exact Document.combine_sublist (part.filter _) induction

/-- A level that can be tested on all nodes of a scope can be tested on some of them. -/
theorem Testable.subset (testable : query.Testable tests others) (inside : nodes ⊆ others) :
    query.Testable tests nodes :=
  fun id isNode => testable id (inside isNode)

/-- What makes a selector fail on some nodes makes it fail on more nodes. -/
theorem exists_matchesAmong_of_subset {found : List NodeId} {depth : Nat}
    (ran : (query.matchesAmong tokens others depth).outcome = .ok found)
    (inside : nodes ⊆ others) :
    ∃ fewer, (query.matchesAmong tokens nodes depth).outcome = .ok fewer := by
  obtain ⟨chain, reads, _⟩ := reads_of_run_ok ran
  obtain ⟨stepsTestable, finalTestable⟩ := (matchesAmong_ok_iff reads depth).mp ⟨found, ran⟩
  refine (matchesAmong_ok_iff reads depth).mpr ⟨?_, finalTestable.subset inside⟩
  intro step isStep
  exact (stepsTestable step isStep).subset inside

/-- Monotonicity in the scope. A selector that succeeds on some nodes succeeds on any part of them,
and its answer there is a part of the answer on all of them: it has no match that the other one has
not, none more often, and none in another place. -/
theorem matchesAmong_sublist {found : List NodeId} {depth : Nat} (part : nodes.Sublist others)
    (ran : (query.matchesAmong tokens others depth).outcome = .ok found) :
    ∃ fewer, (query.matchesAmong tokens nodes depth).outcome = .ok fewer ∧
      fewer.Sublist found := by
  obtain ⟨selected, ranOnPart⟩ := exists_matchesAmong_of_subset ran part.subset
  obtain ⟨chain, reads, rfl⟩ := reads_of_run_ok ran
  obtain ⟨other, otherReads, rfl⟩ := reads_of_run_ok ranOnPart
  cases reads.unique otherReads
  exact ⟨_, ranOnPart, answers_sublist part⟩

/-- On `{"a": [true], "b": true}`, scopes with a repeated node and with a gap: without `a` the
answer of `.a > bool, *` is empty, with it the node behind the comma has to be a child of `a`. -/
theorem matchesAmong_sublist_gap :
    let query : Query :=
      ⟨.ofTree (.keyed none .object
        [("a", .array none [.scalar none (.bool true)]), ("b", .scalar none (.bool true))]),
        ⟨"", []⟩⟩
    let tokens : List Token :=
      [⟨.identifier, "a", 0⟩, ⟨.operator, ">", 2⟩, ⟨.nativeKind, "bool", 5⟩, ⟨.operator, ",", 9⟩,
        ⟨.operator, "*", 11⟩]
    [2, 3, 2].Sublist [0, 2, 1, 3, 2] ∧
      (query.matchesAmong tokens [0, 2, 1, 3, 2] 0).outcome = .ok [2, 2, 2, 2] ∧
        ∃ fewer, (query.matchesAmong tokens [2, 3, 2] 0).outcome = .ok fewer ∧
          fewer.Sublist [2, 2, 2, 2] := by
  intro query tokens
  have part : [2, 3, 2].Sublist [0, 2, 1, 3, 2] := by decide
  have ran : (query.matchesAmong tokens [0, 2, 1, 3, 2] 0).outcome = .ok [2, 2, 2, 2] := by
    decide +kernel
  exact ⟨part, ran, matchesAmong_sublist part ran⟩

end Query

end TreeQuery
