import TreeQuery.Query

/-!
Outcomes of runs: the answer or the error, without the events.

The depth of a run shows only in its events. So whether a test holds of a node is a question about
the query and the node alone, and a level selects the nodes of its scope that pass all its tests.
-/

namespace TreeQuery

namespace Plan

variable {document : Document} {tokens : List Token} {tests : List (Predicate Plan)}
  {scope selected : List NodeId} {combinator : Combinator} {next : Plan} {error : QueryError}
  {depth : Nat}

theorem outcome_runLevel (tokens : List Token) (predicates : Nat) (test : NodeId → Traced Bool)
    (scope : List NodeId) (depth : Nat) :
    (runLevel tokens predicates test scope depth).outcome = (Traced.filter test scope).outcome := by
  rw [runLevel, Traced.outcome_emit_bind, Traced.outcome_bind]
  cases (Traced.filter test scope).outcome with
  | error error => rfl
  | ok selected => rfl

theorem outcome_run_unreadable :
    (run document (.unreadable tokens error) scope depth).outcome = .error error := by
  rw [run, Traced.outcome_emit_bind, Traced.outcome_fail]

theorem outcome_run_final :
    (run document (.final tokens tests) scope depth).outcome =
      (Traced.filter (fun id => holdsAll document tests id depth) scope).outcome := by
  rw [run, Traced.outcome_bind, outcome_runLevel]
  cases (Traced.filter _ scope).outcome with
  | error error => rfl
  | ok selected => rfl

theorem outcome_run_cut :
    (run document (.cut tokens tests error) scope depth).outcome =
      (Traced.filter (fun id => holdsAll document tests id depth) scope).outcome.bind
        fun _ => .error error := by
  rw [run, Traced.outcome_bind, outcome_runLevel]
  rfl

theorem outcome_run_join :
    (run document (.join tokens tests combinator next) scope depth).outcome =
      (Traced.filter (fun id => holdsAll document tests id depth) scope).outcome.bind fun left =>
        (run document next scope (depth + 1)).outcome.map fun right =>
          document.combine combinator left right := by
  rw [run, Traced.outcome_bind, outcome_runLevel]
  cases (Traced.filter _ scope).outcome with
  | error error => rfl
  | ok left =>
      change (run document next scope (depth + 1) >>= _).outcome = _
      rw [Traced.outcome_bind]
      cases (run document next scope (depth + 1)).outcome with
      | error error => rfl
      | ok right => rfl

theorem run_cut_ne_ok :
    (run document (.cut tokens tests error) scope depth).outcome ≠ .ok selected := by
  rw [outcome_run_cut]
  cases (Traced.filter _ scope).outcome with
  | error error => simp [Except.bind]
  | ok left => simp [Except.bind]

theorem run_join_ok_iff :
    (run document (.join tokens tests combinator next) scope depth).outcome = .ok selected ↔
      ∃ left right,
        (Traced.filter (fun id => holdsAll document tests id depth) scope).outcome = .ok left ∧
          (run document next scope (depth + 1)).outcome = .ok right ∧
            document.combine combinator left right = selected := by
  rw [outcome_run_join]
  cases (Traced.filter _ scope).outcome with
  | error error => simp [Except.bind]
  | ok left =>
      cases (run document next scope (depth + 1)).outcome with
      | error error => simp [Except.bind, Except.map]
      | ok right => simp [Except.bind, Except.map]

theorem outcome_holdsAll_cons (test : Predicate Plan) (id : NodeId) :
    (holdsAll document (test :: tests) id depth).outcome =
      (holds document test id depth).outcome.bind fun passes =>
        if passes then (holdsAll document tests id depth).outcome else .ok false := by
  rw [holdsAll, Traced.outcome_bind]
  congr 1
  funext passes
  cases passes <;> rfl

theorem outcome_holds_has (inner : Plan) (id : NodeId) :
    (holds document (.has inner) id depth).outcome =
      (run document inner (document.subtree id) (depth + 1)).outcome.map fun below =>
        (document.parents below).contains id := by
  rw [holds, Traced.outcome_map]

mutual

theorem outcome_run_depth (document : Document) :
    (plan : Plan) → (scope : List NodeId) → (depth other : Nat) →
      (run document plan scope depth).outcome = (run document plan scope other).outcome
  | .unreadable tokens error, scope, depth, other => by
      rw [outcome_run_unreadable, outcome_run_unreadable]
  | .final tokens tests, scope, depth, other => by
      rw [outcome_run_final, outcome_run_final]
      exact Traced.outcome_filter_congr fun id _ => outcome_holdsAll_depth document tests id _ _
  | .cut tokens tests error, scope, depth, other => by
      rw [outcome_run_cut, outcome_run_cut]
      rw [Traced.outcome_filter_congr fun id _ =>
        outcome_holdsAll_depth document tests id depth other]
  | .join tokens tests combinator next, scope, depth, other => by
      rw [outcome_run_join, outcome_run_join]
      rw [Traced.outcome_filter_congr fun id _ =>
        outcome_holdsAll_depth document tests id depth other]
      rw [outcome_run_depth document next scope (depth + 1) (other + 1)]

theorem outcome_holdsAll_depth (document : Document) :
    (tests : List (Predicate Plan)) → (id : NodeId) → (depth other : Nat) →
      (holdsAll document tests id depth).outcome = (holdsAll document tests id other).outcome
  | [], id, depth, other => rfl
  | test :: tests, id, depth, other => by
      rw [outcome_holdsAll_cons, outcome_holdsAll_cons]
      rw [outcome_holds_depth document test id depth other,
        outcome_holdsAll_depth document tests id depth other]

theorem outcome_holds_depth (document : Document) :
    (test : Predicate Plan) → (id : NodeId) → (depth other : Nat) →
      (holds document test id depth).outcome = (holds document test id other).outcome
  | .has inner, id, depth, other => by
      rw [outcome_holds_has, outcome_holds_has]
      rw [outcome_run_depth document inner _ (depth + 1) (other + 1)]
  | .native _, _, _, _ | .declared _, _, _, _ | .key _, _, _, _ | .universal, _, _, _
  | .pseudoClass _, _, _, _ | .nth _, _, _, _ | .contains _, _, _, _ | .val _, _, _, _
  | .expr _, _, _, _ => rfl

end

/-- All tests of a level hold when each of them does, although those behind a failure are never
made. -/
theorem holdsAll_iff {id : NodeId} :
    (holdsAll document tests id depth).outcome = .ok true ↔
      ∀ test ∈ tests, (holds document test id depth).outcome = .ok true := by
  induction tests with
  | nil => simp [holdsAll]
  | cons test tests induction =>
      rw [outcome_holdsAll_cons, List.forall_mem_cons, ← induction]
      cases (holds document test id depth).outcome with
      | error error => simp [Except.bind]
      | ok passes => cases passes <;> simp [Except.bind]

end Plan

end TreeQuery
