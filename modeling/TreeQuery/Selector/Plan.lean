import TreeQuery.Expr.Basic
import TreeQuery.Query.Trace
import TreeQuery.Selector.Level

/-!
Plans: selectors with their levels read, and the runs of plans on a document.

Levels are read from left to right, and what cannot be read becomes a plan that fails where a run
arrives at it. So an error behind a level shows only after that level was tested, and an error in
an inner selector of `:has(…)` only when a node is tested with it.
-/

namespace TreeQuery

/-- A selector that is ready to run. Every part keeps the tokens that were left at its start. -/
inductive Plan where
  | unreadable (tokens : List Token) (error : QueryError)
  | final (tokens : List Token) (tests : List (Predicate Plan))
  /-- A level that nothing readable follows. -/
  | cut (tokens : List Token) (tests : List (Predicate Plan)) (error : QueryError)
  | join (tokens : List Token) (tests : List (Predicate Plan)) (combinator : Combinator)
      (next : Plan)

namespace Plan

/-- The combinator at the front of the tokens after a level, and the tokens of the next level. A
level that follows without an operator is a descendant level. -/
def splitCombinator (next : Token) (rest : List Token) :
    Except QueryError (Combinator × List Token) :=
  if next.kind = .operator then
    match Combinator.ofSign? next.value with
    | none => .error (.unrecognizedOperator next.value)
    | some combinator =>
        if rest.isEmpty then .error (.noSelector next.position) else .ok (combinator, rest)
  else
    .ok (.descendant, next :: rest)

theorem weight_splitCombinator {next : Token} {rest remainder : List Token}
    {combinator : Combinator} (found : splitCombinator next rest = .ok (combinator, remainder)) :
    tokensWeight remainder ≤ tokensWeight (next :: rest) := by
  unfold splitCombinator at found
  split at found
  · split at found
    · cases found
    · split at found <;> cases found
      simp
  · cases found
    exact Nat.le_refl _

def ofTokens (scope : PackageScope) (tokens : List Token) : Plan :=
  match _read : Level.read scope tokens with
  | .error error => .unreadable tokens error
  | .ok (tests, rest) =>
      let tests := tests.attach.map fun ⟨test, _member⟩ =>
        test.mapInner fun inner _isHas => ofTokens scope inner
      match rest with
      | [] => .final tokens tests
      | next :: rest =>
          match _found : splitCombinator next rest with
          | .error error => .cut tokens tests error
          | .ok (combinator, remainder) =>
              .join tokens tests combinator (ofTokens scope remainder)
  termination_by tokensWeight tokens
  decreasing_by
    · exact (Level.weight_read _read).2 _ (_isHas ▸ _member)
    · exact Nat.lt_of_le_of_lt (weight_splitCombinator _found) (Level.weight_read _read).1

/-! ## Runs -/

/-- Whether a structural pseudo-class holds of a node. Emptiness asks for an array without a text of
its own, which is every array, whatever its items. -/
def holdsPseudoClass (pseudoClass : PseudoClass) (node : Node) : Bool :=
  match pseudoClass with
  | .firstChild => node.index == 1
  | .lastChild => node.siblings != 0 && node.index == node.siblings
  | .onlyChild => node.siblings == 1
  | .root => node.isRoot
  | .empty => node.element.kind = .array && node.element.ownText.isEmpty

/-- The nodes of a scope that pass the test of a level, with the events of its start. -/
def runLevel (tokens : List Token) (predicates : Nat) (test : NodeId → Traced Bool)
    (scope : List NodeId) (depth : Nat) : Traced (List NodeId) := do
  Traced.emit (.enter depth tokens)
  let selected ← Traced.filter test scope
  Traced.emit (.matched depth predicates scope.length selected.length)
  return selected

mutual

def run (document : Document) : Plan → List NodeId → Nat → Traced (List NodeId)
  | .unreadable tokens error, _, depth => do
      Traced.emit (.enter depth tokens)
      Traced.fail error
  | .final tokens tests, scope, depth => do
      let selected ←
        runLevel tokens tests.length (fun id => holdsAll document tests id depth) scope depth
      Traced.emit (.leave depth selected.length)
      return selected
  | .cut tokens tests error, scope, depth => do
      let _ ← runLevel tokens tests.length (fun id => holdsAll document tests id depth) scope depth
      Traced.fail error
  | .join tokens tests combinator next, scope, depth => do
      let selected ←
        runLevel tokens tests.length (fun id => holdsAll document tests id depth) scope depth
      let others ← run document next scope (depth + 1)
      let results := document.combine combinator selected others
      Traced.emit (.combined depth combinator selected.length results.length)
      Traced.emit (.leave depth results.length)
      return results

/-- Whether all tests of a level hold of a node; the first one that fails ends them. -/
def holdsAll (document : Document) : List (Predicate Plan) → NodeId → Nat → Traced Bool
  | [], _, _ => return true
  | test :: tests, id, depth => do
      if ← holds document test id depth then holdsAll document tests id depth else return false

def holds (document : Document) : Predicate Plan → NodeId → Nat → Traced Bool
  | .has inner, id, depth =>
      (run document inner (document.subtree id) (depth + 1)).map fun below =>
        (document.parents below).contains id
  | .native kind, id, _ => return (document.node? id).any fun node => node.element.kind = kind
  | .declared reference, id, _ =>
      return (document.node? id).any fun node =>
        node.element.declared.any fun declared => declared.isA reference
  | .key key, id, _ =>
      return (document.node? id).any fun node =>
        !node.key.isEmpty && node.element.isPresent && node.key == key
  | .universal, _, _ => return true
  | .pseudoClass pseudoClass, id, _ =>
      return (document.node? id).any (holdsPseudoClass pseudoClass)
  | .nth nth, id, _ => return (document.node? id).any fun node => nth.test node.index node.siblings
  | .contains part, id, _ =>
      return (document.node? id).any fun node =>
        node.element.kind = .string && occursIn part.toList node.element.ownText.toList
  | .val text, id, _ =>
      return (document.node? id).any fun node => node.element.canonicalText == text
  | .expr expr, id, _ => return (document.node? id).any fun node => expr.test node.element

end

end Plan

end TreeQuery
