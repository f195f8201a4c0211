import TreeQuery.Proofs.Selector.Has
import TreeQuery.Proofs.Selector.Scope

/-!
The nodes that `:has(…)` selects are parents of matches.

A selector that has an answer on a document has one on every part of it, so a `:has(…)` around it
has an answer too. It selects only parents of matches on the whole document, and all of them if the
selector is a union: the parent of a match has the match in its subtree.
-/

namespace TreeQuery

namespace Query

variable {query : Query} {selector : String} {nodes found : List NodeId}

theorem exists_selectAmong_of_subset (ran : (query.select selector).outcome = .ok found)
    (inside : nodes ⊆ query.document.all) :
    ∃ part, (query.selectAmong selector nodes).outcome = .ok part := by
  obtain ⟨tokens, _, lexed, _⟩ := reads_of_select_ok ran
  rw [select_eq, selectAmong_eq lexed] at ran
  rw [selectAmong_eq lexed]
  exact exists_matchesAmong_of_subset ran inside

/-- A `:has(…)` around a selector that has an answer has one, each node once and in document
order. -/
theorem exists_select_hasSelector (ran : (query.select selector).outcome = .ok found)
    (inside : ∀ id, query.document.subtree id ⊆ query.document.all) :
    ∃ parents, (query.select (hasSelector selector)).outcome = .ok parents ∧
      parents.Pairwise (· < ·) := by
  obtain ⟨tokens, chain, lexed, reads, _⟩ := reads_of_select_ok ran
  have tested : ∀ id ∈ query.document.all, ∃ passes, (Plan.holdsAll query.document
      [.has (Plan.ofTokens query.scope tokens)] id 0).outcome = .ok passes := by
    intro id _
    obtain ⟨below, ranBelow⟩ := exists_selectAmong_of_subset ran (inside id)
    rw [outcome_has lexed, ranBelow]
    exact ⟨_, rfl⟩
  rw [outcome_select_hasSelector lexed (Plan.ne_nil_of_reads reads), Traced.filter_ok tested]
  exact ⟨_, rfl, List.pairwise_lt_range.filter _⟩

/-- Whenever a selector has an answer, the `:has(…)` around it selects parents of its matches, each
once and in document order. If the levels of the selector are joined by commas only, it selects all
of them. -/
theorem select_hasSelector_parents {limit : Nat} {scope : PackageScope} {root : Element}
    (mapped : ofElement limit scope root = .ok query)
    (ran : (query.select selector).outcome = .ok found) :
    ∃ parents, (query.select (hasSelector selector)).outcome = .ok parents ∧
      parents.Pairwise (· < ·) ∧
        (∀ id ∈ parents, ∃ child ∈ found, query.document.parent? child = some id) ∧
          (query.IsUnion selector → ∀ id,
            id ∈ parents ↔ ∃ child ∈ found, query.document.parent? child = some id) := by
  have isMap := document_eq_of_ofElement mapped
  have inside := subtree_subset_all mapped
  obtain ⟨parents, ranHas, ascending⟩ := exists_select_hasSelector ran inside
  obtain ⟨tokens, chain, lexed, reads, _⟩ := reads_of_select_ok ran
  obtain ⟨ranBelow, memParents⟩ := mem_select_hasSelector lexed (Plan.ne_nil_of_reads reads) ranHas
  rw [select_eq] at ran
  have areParents : ∀ id ∈ parents, ∃ child ∈ found, query.document.parent? child = some id := by
    intro id isParent
    obtain ⟨_, below, ranOn, isAbove⟩ := (memParents id).mp isParent
    obtain ⟨child, isBelow, childParent⟩ := List.mem_filterMap.mp isAbove
    exact ⟨child, selectAmong_mono (inside id) ranOn ran isBelow, childParent⟩
  refine ⟨parents, ranHas, ascending, areParents, ?_⟩
  intro union id
  refine ⟨areParents id, ?_⟩
  intro isParent
  obtain ⟨child, isMatch, childParent⟩ := isParent
  have inSubtree := mem_subtree_of_child isMap childParent
  have isNode : id ∈ query.document.all := by
    have before : id < child := Document.parent?_lt childParent
    have isChild := List.mem_range.mp (inside id inSubtree)
    exact List.mem_range.mpr (Nat.lt_trans before isChild)
  obtain ⟨below, ranOn⟩ := ranBelow id isNode
  have isBelow := mem_selectAmong_subtree isMap union.isShallow ranOn ran isMatch childParent
  exact (memParents id).mpr
    ⟨isNode, below, ranOn, List.mem_filterMap.mpr ⟨child, isBelow, childParent⟩⟩

/-- On `{"a": [true, {"b": true}], "c": true}` the matches of `.b, bool` have three parents. -/
theorem select_hasSelector_parents_union :
    let root : Element := .keyed none .object
      [("a", .array none [.scalar none (.bool true),
        .keyed none .object [("b", .scalar none (.bool true))]]),
        ("c", .scalar none (.bool true))]
    let query : Query := ⟨.ofTree root, ⟨"", []⟩⟩
    ofElement 512 ⟨"", []⟩ root = .ok query ∧
      (query.select ".b, bool").outcome = .ok [4, 2, 4, 5] ∧
        ∃ parents, (query.select (hasSelector ".b, bool")).outcome = .ok parents ∧
          parents.Pairwise (· < ·) ∧
            (∀ id ∈ parents, ∃ child ∈ [4, 2, 4, 5], query.document.parent? child = some id) ∧
              query.IsUnion ".b, bool" ∧ ∀ id,
                id ∈ parents ↔ ∃ child ∈ [4, 2, 4, 5], query.document.parent? child = some id := by
  intro root query
  have mapped : ofElement 512 ⟨"", []⟩ root = .ok query := by
    rw [ofElement, Document.ofElement_of_visit rfl]
  have ran : (query.select ".b, bool").outcome = .ok [4, 2, 4, 5] := by decide +kernel
  have lexed : tokenize .selector ".b, bool" = .ok
      [⟨.identifier, "b", 0⟩, ⟨.operator, ",", 2⟩, ⟨.nativeKind, "bool", 4⟩] := by decide +kernel
  have isUnion : query.IsUnion ".b, bool" := by
    apply (isUnion_iff lexed (.operator rfl rfl rfl (.final rfl))).mpr
    simp
  obtain ⟨parents, ranHas, ascending, areParents, areAll⟩ := select_hasSelector_parents mapped ran
  exact ⟨mapped, ran, parents, ranHas, ascending, areParents, isUnion, areAll isUnion⟩

end Query

end TreeQuery
