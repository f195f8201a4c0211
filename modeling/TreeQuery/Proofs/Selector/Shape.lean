import TreeQuery.Proofs.Selector.Has
import TreeQuery.Proofs.Selector.Lookups

/-!
The shape of answers.

An answer is a row of runs in document order, one for each target level. The targets are the last
level and those before a comma, so a selector with `k` commas between its levels has at most `k + 1`
of them, and no node is answered more often. A query looks up no node outside its document.
-/

namespace TreeQuery

/-- Whether a token is a comma between levels. -/
def Token.isComma (token : Token) : Bool :=
  token.kind = .operator && token.value == ","

namespace Chain

variable {scope : PackageScope} {tokens : List Token} {chain : Chain}

/-- A target level is the last one or stands before a comma. -/
theorem Reads.length_targets_le (reads : Reads scope tokens chain) :
    chain.targets.length ≤ tokens.countP Token.isComma + 1 := by
  induction reads with
  | final level => simp [targets, IsTarget]
  | @operator tokens rest sign tests combinator next level isOperator isSign _ induction =>
      have counted : List.countP Token.isComma _ ≤ List.countP Token.isComma _ :=
        (Level.suffix_of_read level).sublist.countP_le
      rw [List.countP_cons] at counted
      rw [targets_join, List.length_append, List.length_map]
      by_cases isUnion : combinator = .union
      · have isComma : sign.isComma = true := by
          rw [isUnion] at isSign
          simp [Token.isComma, isOperator, ← Combinator.sign_of_ofSign? isSign, Combinator.sign]
        rw [isComma] at counted
        simp only [isUnion, if_true, List.length_singleton] at counted ⊢
        omega
      · simp only [isUnion, if_false, List.length_nil]
        omega
  | adjacent level _ _ induction =>
      have counted : List.countP Token.isComma _ ≤ List.countP Token.isComma _ :=
        (Level.suffix_of_read level).sublist.countP_le
      rw [targets_join, List.length_append, List.length_map]
      simp only [reduceCtorEq, if_false, List.length_nil]
      omega

end Chain

/-- Ascending runs have a node once each. -/
theorem count_flatten_le {runs : List (List NodeId)}
    (ascend : ∀ run ∈ runs, run.Pairwise (· < ·)) (id : NodeId) :
    runs.flatten.count id ≤ runs.length := by
  induction runs with
  | nil => exact Nat.le_refl _
  | cons run runs induction =>
      obtain ⟨runAscends, othersAscend⟩ := List.forall_mem_cons.mp ascend
      have once : run.count id ≤ 1 :=
        List.nodup_iff_count.mp (runAscends.imp Nat.ne_of_lt) id
      have others := induction othersAscend
      rw [List.flatten_cons, List.count_append, List.length_cons]
      omega

theorem pairwise_flatten_of_length_le_one {runs : List (List NodeId)} (few : runs.length ≤ 1)
    (ascend : ∀ run ∈ runs, run.Pairwise (· < ·)) : runs.flatten.Pairwise (· < ·) := by
  rcases runs with _ | ⟨run, _ | ⟨other, others⟩⟩
  · exact .nil
  · rw [List.flatten_singleton]
    exact ascend run List.mem_cons_self
  · simp at few

namespace Query

variable {query : Query} {selector : String} {found : List NodeId}

/-- The answer of a selector is a row of ascending runs, one for each of its targets. -/
theorem exists_runs_of_select (ran : (query.select selector).outcome = .ok found) :
    ∃ tokens, ∃ runs : List (List NodeId), tokenize .selector selector = .ok tokens ∧
      found = runs.flatten ∧ runs.length ≤ tokens.countP Token.isComma + 1 ∧
        ∀ run ∈ runs, run.Pairwise (· < ·) := by
  obtain ⟨tokens, chain, lexed, reads, isAnswer, _⟩ := reads_of_select_ok ran
  refine ⟨tokens, chain.targets.map fun target =>
    query.document.all.filter fun id => query.Reaches chain query.document.all target id,
    lexed, ?_, ?_, ?_⟩
  · rw [isAnswer, answers, List.flatMap_def]
  · rw [List.length_map]
    exact reads.length_targets_le
  · intro run isRun
    obtain ⟨target, _, rfl⟩ := List.mem_map.mp isRun
    exact List.pairwise_lt_range.filter _

/-- The shape of an answer to a selector with some tokens, and of the lookups on the way to it. -/
structure IsShaped (query : Query) (selector : String) (tokens : List Token)
    (found : List NodeId) : Prop where
  inside : ∀ id ∈ found, id < query.document.size
  /-- The answer is made of one run in document order more than the selector has commas between its
  levels, or of fewer. -/
  runs : ∃ runs : List (List NodeId), found = runs.flatten ∧
    runs.length ≤ tokens.countP Token.isComma + 1 ∧ ∀ run ∈ runs, run.Pairwise (· < ·)
  often : ∀ id, found.count id ≤ tokens.countP Token.isComma + 1
  /-- Without commas the nodes are distinct and in document order. -/
  distinct : tokens.countP Token.isComma = 0 → found.Pairwise (· < ·)
  watched : (query.selectWatched selector).traced = query.select selector
  lookedInside : ∀ id ∈ (query.selectWatched selector).looked, id < query.document.size
  /-- No lookup is left out: a map that differs in other nodes only gives the same run. -/
  decided : ∀ other : Document, other.size = query.document.size →
    query.document.AgreesOn other (query.selectWatched selector).looked →
      (⟨other, query.scope⟩ : Query).select selector = query.select selector

/-- Every answer has the shape that the commas of its selector allow, and a query on a mapped
document looks up no node outside it. -/
theorem select_isShaped {limit : Nat} {scope : PackageScope} {root : Element}
    (mapped : ofElement limit scope root = .ok query)
    (ran : (query.select selector).outcome = .ok found) :
    ∃ tokens, tokenize .selector selector = .ok tokens ∧
      query.IsShaped selector tokens found := by
  obtain ⟨tokens, runs, lexed, isFlat, few, ascend⟩ := exists_runs_of_select ran
  have subtrees := subtree_subset_all mapped
  have isWatched : (query.selectWatched selector).traced = query.select selector :=
    traced_selectWatched rfl (Document.agreesOn_self _ _)
  refine ⟨tokens, lexed, ?inside, ⟨runs, isFlat, few, ascend⟩, ?often, ?distinct, isWatched,
    ?lookedInside, ?decided⟩
  case inside =>
    intro id isMatch
    rw [select_eq] at ran
    exact List.mem_range.mp (mem_nodes_of_selectAmong ran isMatch)
  case often =>
    intro id
    rw [isFlat]
    exact Nat.le_trans (count_flatten_le ascend id) few
  case distinct =>
    intro noComma
    rw [noComma, Nat.zero_add] at few
    rw [isFlat]
    exact pairwise_flatten_of_length_le_one few ascend
  case lookedInside =>
    intro id isLooked
    exact List.mem_range.mp (looked_selectWatched_subset subtrees selector isLooked)
  case decided =>
    intro other sameSize agree
    rw [← traced_selectWatched sameSize agree, isWatched]

/-- On `{"a": [true, true], "b": true}` the two commas of `:has(bool), bool, .b` make three runs,
and `b` is in two of them. -/
theorem select_isShaped_runs :
    let root : Element := .keyed none .object
      [("a", .array none [.scalar none (.bool true), .scalar none (.bool true)]),
        ("b", .scalar none (.bool true))]
    let query : Query := ⟨.ofTree root, ⟨"", []⟩⟩
    ofElement 512 ⟨"", []⟩ root = .ok query ∧
      (query.select ":has(bool), bool, .b").outcome = .ok [0, 1, 2, 3, 4, 4] ∧
        ∃ tokens, tokenize .selector ":has(bool), bool, .b" = .ok tokens ∧
          query.IsShaped ":has(bool), bool, .b" tokens [0, 1, 2, 3, 4, 4] := by
  intro root query
  have mapped : ofElement 512 ⟨"", []⟩ root = .ok query := by
    rw [ofElement, Document.ofElement_of_visit rfl]
  have ran : (query.select ":has(bool), bool, .b").outcome = .ok [0, 1, 2, 3, 4, 4] := by
    decide +kernel
  exact ⟨mapped, ran, select_isShaped mapped ran⟩

end Query

end TreeQuery
