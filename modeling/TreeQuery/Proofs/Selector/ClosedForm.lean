import TreeQuery.Proofs.Document.Ancestry
import TreeQuery.Proofs.Selector.Chain
import TreeQuery.Proofs.Selector.Outcome

/-!
The closed form of a selector's answer.

A run folds a selector from the right: it answers the rest first and then filters that answer by
the level on the left. Flat, a selector is a `Chain` of levels, and its answer lists the matches of
every target level, the last one and those before a union. Every step before a target that is not
a target itself filters the matches of that target, also across the unions between them.
-/

namespace TreeQuery

namespace Query

/-- Whether a test holds of a node, without an error in an inner selector. -/
def Holds (query : Query) (test : Level.Test) (id : NodeId) : Prop :=
  (Plan.holds query.document (Plan.ofTest query.scope test) id 0).outcome = .ok true

def Passes (query : Query) (tests : List Level.Test) (id : NodeId) : Prop :=
  ∀ test ∈ tests, query.Holds test id

instance (query : Query) (test : Level.Test) (id : NodeId) : Decidable (query.Holds test id) :=
  inferInstanceAs (Decidable (_ = _))

instance (query : Query) (tests : List Level.Test) (id : NodeId) :
    Decidable (query.Passes tests id) :=
  inferInstanceAs (Decidable (∀ test ∈ tests, _))

/-- Whether a step keeps a node: it stands in the relation of the combinator to a node of the scope
that passes the tests of the step. -/
def Keeps (query : Query) (step : Step) (nodes : List NodeId) (id : NodeId) : Prop :=
  ∃ left ∈ nodes, query.Passes step.tests left ∧ query.document.Related step.combinator left id

instance (query : Query) (step : Step) (nodes : List NodeId) (id : NodeId) :
    Decidable (query.Keeps step nodes id) :=
  inferInstanceAs (Decidable (∃ left ∈ nodes, _))

/-- Whether a node is a match of the target level at an index. -/
def Reaches (query : Query) (chain : Chain) (nodes : List NodeId) (target : Nat) (id : NodeId) :
    Prop :=
  query.Passes (chain.level target) id ∧
    ∀ step ∈ chain.steps.take target, step.combinator ≠ .union → query.Keeps step nodes id

instance (query : Query) (chain : Chain) (nodes : List NodeId) (target : Nat) (id : NodeId) :
    Decidable (query.Reaches chain nodes target id) :=
  inferInstanceAs (Decidable (_ ∧ ∀ step ∈ _, _))

/-- The matches of all targets, target by target, each in the order of the scope. -/
def answers (query : Query) (chain : Chain) (nodes : List NodeId) : List NodeId :=
  chain.targets.flatMap fun target => nodes.filter fun id => query.Reaches chain nodes target id

section

variable {query : Query} {scope : PackageScope} {step : Step} {next : Chain}
  {tests : List Level.Test} {nodes selected : List NodeId} {target depth : Nat} {id : NodeId}

/-- A test that looks at nothing but the node holds where it accepts the node. -/
theorem holds_iff_of_looks {test : Level.Test} {accepts : Node → Bool} {node : Node}
    (looks : Plan.holds query.document (Plan.ofTest query.scope test) id 0 =
      Pure.pure ((query.document.node? id).any accepts))
    (present : query.document.node? id = some node) :
    query.Holds test id ↔ accepts node = true := by
  rw [Holds, looks, present, Traced.outcome_pure, Except.ok.injEq, Option.any_some]

theorem passes_iff (query : Query) (tests : List Level.Test) (id : NodeId) (depth : Nat) :
    query.Passes tests id ↔
      (Plan.holdsAll query.document (tests.map (Plan.ofTest query.scope)) id depth).outcome =
        .ok true := by
  rw [Plan.holdsAll_iff, List.forall_mem_map]
  refine forall₂_congr fun test _ => ?_
  rw [Plan.outcome_holds_depth _ _ _ depth 0]
  rfl

/-- The test of a level selects the nodes that pass its tests, if no node makes it fail. -/
theorem filter_passes
    (filtered : (Traced.filter (fun id => Plan.holdsAll query.document
      (tests.map (Plan.ofTest query.scope)) id depth) nodes).outcome = .ok selected) :
    selected = nodes.filter fun id => query.Passes tests id := by
  obtain ⟨_, selectedAre⟩ := Traced.filter_ok_iff.mp filtered
  rw [selectedAre]
  refine List.filter_congr fun id _ => ?_
  simp only [passes_iff query tests id depth]

theorem keeps_iff :
    query.Keeps step nodes id ↔
      ∃ left ∈ nodes.filter fun id => query.Passes step.tests id,
        query.document.Related step.combinator left id := by
  simp [Keeps, List.mem_filter, and_assoc]

theorem reaches_join_zero :
    query.Reaches (.join step next) nodes 0 id ↔ query.Passes step.tests id := by
  simp [Reaches]

theorem reaches_join_succ :
    query.Reaches (.join step next) nodes (target + 1) id ↔
      query.Reaches next nodes target id ∧
        (step.combinator ≠ .union → query.Keeps step nodes id) := by
  simp only [Reaches, Chain.level_join_succ, Chain.steps_join, List.take_succ_cons,
    List.forall_mem_cons]
  rw [and_assoc]
  exact and_congr_right' and_comm

theorem answers_final :
    query.answers ⟨[], tests⟩ nodes = nodes.filter fun id => query.Passes tests id := by
  simp [answers, Chain.targets, Chain.IsTarget, Reaches, Chain.level]

/-- One more step folds the answers of the rest with its own matches. -/
theorem answers_join :
    query.answers (.join step next) nodes =
      query.document.combine step.combinator
        (nodes.filter fun id => query.Passes step.tests id) (query.answers next nodes) := by
  rw [answers, Chain.targets_join, List.flatMap_append, List.flatMap_map]
  simp only [reaches_join_succ]
  by_cases isUnion : step.combinator = .union
  · simp [isUnion, reaches_join_zero, Document.combine, answers]
  · rw [Document.combine_eq_filter isUnion, answers, List.filter_flatMap]
    simp only [isUnion, if_false, List.flatMap_nil, List.nil_append]
    refine congrArg (List.flatMap · next.targets) (funext fun target => ?_)
    rw [List.filter_filter]
    refine List.filter_congr fun id _ => ?_
    rw [Bool.eq_iff_iff, Bool.and_eq_true]
    simp only [decide_eq_true_iff, ← keeps_iff]
    rw [and_comm]
    exact and_congr_left' (imp_iff_right isUnion)

end

/-- A run that succeeds reads its tokens as levels and answers their closed form. -/
theorem reads_of_run_ok {query : Query} {tokens : List Token} {nodes selected : List NodeId}
    {depth : Nat} (succeeded : (query.matchesAmong tokens nodes depth).outcome = .ok selected) :
    ∃ chain, Chain.Reads query.scope tokens chain ∧ selected = query.answers chain nodes := by
  rw [matchesAmong] at succeeded
  induction tokens using Plan.ofTokens.induct query.scope generalizing depth selected with
  | case1 tokens error level =>
      rw [Plan.ofTokens_unreadable level, Plan.outcome_run_unreadable] at succeeded
      cases succeeded
  | case2 tokens tests level =>
      rw [Plan.ofTokens_final level, Plan.outcome_run_final] at succeeded
      exact ⟨_, .final level, (filter_passes succeeded).trans answers_final.symm⟩
  | case3 tokens tests next rest level error split =>
      rw [Plan.ofTokens_next level, split] at succeeded
      exact absurd succeeded Plan.run_cut_ne_ok
  | case4 tokens tests next rest level combinator remainder split _ _ induction =>
      rw [Plan.ofTokens_next level, split] at succeeded
      obtain ⟨left, right, filtered, others, combined⟩ := Plan.run_join_ok_iff.mp succeeded
      obtain ⟨chain, reads, rightAre⟩ := induction others
      have leftAre := filter_passes filtered
      have folded : selected = query.answers (.join ⟨tests, combinator⟩ chain) nodes := by
        rw [answers_join, ← leftAre, ← rightAre, combined]
      exact ⟨_, Plan.reads_of_splitCombinator level split reads, folded⟩

/-- The closed form of a selector: a row of tokens on which a run succeeds has its levels, in one
way only, and the answer lists, target by target, the nodes of the scope that pass the tests of
the target and are kept by every other step before it. -/
theorem matchesAmong_closedForm (query : Query) (tokens : List Token)
    (nodes selected : List NodeId) (depth : Nat)
    (succeeded : (query.matchesAmong tokens nodes depth).outcome = .ok selected) :
    (∃ chain, Chain.Reads query.scope tokens chain) ∧
      ∀ chain, Chain.Reads query.scope tokens chain → selected = query.answers chain nodes := by
  obtain ⟨chain, reads, selectedAre⟩ := reads_of_run_ok succeeded
  refine ⟨⟨chain, reads⟩, fun other otherReads => ?_⟩
  rw [reads.unique otherReads] at selectedAre
  exact selectedAre

/-- In `.a > *, array string` the strings behind the comma have to be children of `a` too. -/
theorem matchesAmong_closedForm_union :
    let query : Query :=
      ⟨.ofTree (.keyed none .object
        [("a", .array none [.scalar none (.string "p"), .array none [.scalar none (.string "q")]]),
          ("b", .scalar none (.string "r"))]), ⟨"", []⟩⟩
    let tokens : List Token :=
      [⟨.identifier, "a", 0⟩, ⟨.operator, ">", 2⟩, ⟨.operator, "*", 5⟩, ⟨.operator, ",", 6⟩,
        ⟨.nativeKind, "array", 8⟩, ⟨.operator, " ", 13⟩, ⟨.nativeKind, "string", 14⟩]
    (query.matchesAmong tokens query.document.all 0).outcome = .ok [2, 3, 2] ∧
      (∃ chain, Chain.Reads query.scope tokens chain) ∧
        ∀ chain, Chain.Reads query.scope tokens chain →
          [2, 3, 2] = query.answers chain query.document.all :=
  ⟨by decide +kernel, matchesAmong_closedForm _ _ _ _ 0 (by decide +kernel)⟩

end Query

end TreeQuery
