import TreeQuery.Proofs.Document.Nesting
import TreeQuery.Proofs.Selector.Arguments
import TreeQuery.Proofs.Selector.Union

/-!
The answers of `:has(…)`.

A `:has(…)` selects the nodes with a child among the matches of the inner selector on their own
subtrees. A smaller scope has fewer matches, because a step of a chain finds fewer nodes on its
left. For the children of a node it is enough to look at the subtree of the node, unless the chain
has a descendant step, which may look for any of their ancestors.
-/

namespace TreeQuery

namespace Query

/-- The matches of a selector among some nodes, the rest of the document left out. -/
def selectAmong (query : Query) (selector : String) (nodes : List NodeId) :
    Traced (List NodeId) :=
  match tokenize .selector selector with
  | .error error => .fail (.lex error)
  | .ok tokens => query.matchesAmong tokens nodes 0

variable {query : Query} {selector inner : String} {tokens : List Token} {chain : Chain}
  {nodes others found : List NodeId} {id : NodeId} {step : Step}

theorem select_eq (query : Query) (selector : String) :
    query.select selector = query.selectAmong selector query.document.all := rfl

theorem selectAmong_eq (lexed : tokenize .selector selector = .ok tokens) (nodes : List NodeId) :
    query.selectAmong selector nodes = query.matchesAmong tokens nodes 0 := by
  simp only [selectAmong, lexed]

theorem reads_of_selectAmong
    (succeeded : (query.selectAmong selector nodes).outcome = .ok found) :
    ∃ tokens chain, tokenize .selector selector = .ok tokens ∧
      Chain.Reads query.scope tokens chain ∧ found = query.answers chain nodes := by
  cases lexed : tokenize .selector selector with
  | error error =>
      rw [selectAmong, lexed] at succeeded
      cases succeeded
  | ok tokens =>
      rw [selectAmong_eq lexed] at succeeded
      obtain ⟨chain, reads, foundAre⟩ := reads_of_run_ok succeeded
      exact ⟨tokens, chain, rfl, reads, foundAre⟩

/-- A selector has the same levels in every scope. -/
theorem reads_of_selectAmong_both {more : List NodeId}
    (first : (query.selectAmong selector nodes).outcome = .ok found)
    (second : (query.selectAmong selector others).outcome = .ok more) :
    ∃ tokens chain, tokenize .selector selector = .ok tokens ∧
      Chain.Reads query.scope tokens chain ∧ found = query.answers chain nodes ∧
        more = query.answers chain others := by
  obtain ⟨tokens, chain, lexed, reads, foundAre⟩ := reads_of_selectAmong first
  obtain ⟨sameTokens, sameChain, sameLexed, sameReads, moreAre⟩ := reads_of_selectAmong second
  cases lexed.symm.trans sameLexed
  cases reads.unique sameReads
  exact ⟨tokens, chain, lexed, reads, foundAre, moreAre⟩

/-! ## Inner selectors -/

theorem outcome_select_hasSelector (lexed : tokenize .selector inner = .ok tokens)
    (nonempty : tokens ≠ []) :
    (query.select (hasSelector inner)).outcome =
      (Traced.filter (fun id => Plan.holdsAll query.document
        [.has (Plan.ofTokens query.scope tokens)] id 0) query.document.all).outcome := by
  obtain ⟨outer, outerLexed, level⟩ := Level.reads_hasSelector query.scope lexed nonempty
  rw [select, outerLexed]
  change ((Plan.ofTokens query.scope outer).run _ _ 0).outcome = _
  rw [Plan.ofTokens_final level, Plan.outcome_run_final]
  rfl

theorem outcome_has (lexed : tokenize .selector inner = .ok tokens) (id : NodeId) :
    (Plan.holdsAll query.document [.has (Plan.ofTokens query.scope tokens)] id 0).outcome =
      (query.selectAmong inner (query.document.subtree id)).outcome.map fun below =>
        (query.document.parents below).contains id := by
  rw [Plan.outcome_holdsAll_cons, Plan.outcome_holds_has, selectAmong_eq lexed, matchesAmong,
    Plan.outcome_run_depth _ _ _ _ 0]
  cases (Plan.run query.document _ _ 0).outcome with
  | error error => rfl
  | ok below =>
      simp only [Except.map, Except.bind]
      cases (query.document.parents below).contains id <;> rfl

/-- A `:has(…)` runs the inner selector on the subtree of every node, and selects the nodes with a
child among the matches there. -/
theorem mem_select_hasSelector (lexed : tokenize .selector inner = .ok tokens)
    (nonempty : tokens ≠ [])
    (succeeded : (query.select (hasSelector inner)).outcome = .ok found) :
    (∀ id ∈ query.document.all, ∃ below,
      (query.selectAmong inner (query.document.subtree id)).outcome = .ok below) ∧
        ∀ id, id ∈ found ↔ id ∈ query.document.all ∧ ∃ below,
          (query.selectAmong inner (query.document.subtree id)).outcome = .ok below ∧
            id ∈ query.document.parents below := by
  rw [outcome_select_hasSelector lexed nonempty, Traced.filter_ok_iff] at succeeded
  obtain ⟨tested, rfl⟩ := succeeded
  simp only [outcome_has lexed] at tested ⊢
  refine ⟨?_, ?_⟩
  · intro id isNode
    obtain ⟨passes, held⟩ := tested id isNode
    cases ran : (query.selectAmong inner (query.document.subtree id)).outcome with
    | error error =>
        rw [ran] at held
        cases held
    | ok below => exact ⟨below, rfl⟩
  · intro id
    rw [List.mem_filter]
    refine and_congr_right' ?_
    cases (query.selectAmong inner (query.document.subtree id)).outcome with
    | error error => simp [Except.map]
    | ok below => simp [Except.map]

/-! ## Scopes -/

theorem mem_answers :
    id ∈ query.answers chain nodes ↔
      id ∈ nodes ∧ ∃ target ∈ chain.targets, query.Reaches chain nodes target id := by
  simp only [answers, List.mem_flatMap, List.mem_filter, decide_eq_true_iff]
  constructor
  · intro found
    obtain ⟨target, isTarget, isNode, reaches⟩ := found
    exact ⟨isNode, target, isTarget, reaches⟩
  · intro isMatch
    obtain ⟨isNode, target, isTarget, reaches⟩ := isMatch
    exact ⟨target, isTarget, isNode, reaches⟩

/-- A larger scope has all matches of a smaller one. -/
theorem answers_mono (inside : nodes ⊆ others) :
    query.answers chain nodes ⊆ query.answers chain others := by
  intro id isAnswer
  obtain ⟨isNode, target, isTarget, passes, kept⟩ := mem_answers.mp isAnswer
  refine mem_answers.mpr ⟨inside isNode, target, isTarget, passes, ?_⟩
  intro step isStep notUnion
  obtain ⟨left, isLeft, leftPasses, related⟩ := kept step isStep notUnion
  exact ⟨left, inside isLeft, leftPasses, related⟩

theorem mem_subtree_of_child {root : Element} {parent : NodeId}
    (isMap : query.document = .ofTree root) (isParent : query.document.parent? id = some parent) :
    id ∈ query.document.subtree parent := by
  rw [isMap] at isParent ⊢
  exact Document.mem_subtree_of_parent? isParent

/-- A step that is no descendant step keeps a child of a node on the subtree of the node if it does
on any scope. -/
theorem keeps_subtree {root : Element} {parent : NodeId} (isMap : query.document = .ofTree root)
    (isParent : query.document.parent? id = some parent) (notUnion : step.combinator ≠ .union)
    (notDescendant : step.combinator ≠ .descendant) (kept : query.Keeps step nodes id) :
    query.Keeps step (query.document.subtree parent) id := by
  obtain ⟨left, _, leftPasses, related⟩ := kept
  refine ⟨left, ?_, leftPasses, related⟩
  rw [isMap] at isParent related ⊢
  exact Document.mem_subtree_of_related isParent related notUnion notDescendant

theorem mem_answers_subtree {root : Element} {parent : NodeId}
    (isMap : query.document = .ofTree root)
    (shallow : ∀ step ∈ chain.steps, step.combinator ≠ .descendant)
    (isParent : query.document.parent? id = some parent)
    (isAnswer : id ∈ query.answers chain nodes) :
    id ∈ query.answers chain (query.document.subtree parent) := by
  obtain ⟨_, target, isTarget, passes, kept⟩ := mem_answers.mp isAnswer
  have inSubtree := mem_subtree_of_child isMap isParent
  refine mem_answers.mpr ⟨inSubtree, target, isTarget, passes, ?_⟩
  intro step isStep notUnion
  have notDescendant := shallow step (List.mem_of_mem_take isStep)
  exact keeps_subtree isMap isParent notUnion notDescendant (kept step isStep notUnion)

/-- Whether the levels of a selector are joined by `,`, `>` and `~` only. Two levels without any of
these between them are joined by a descendant step. -/
def IsShallow (query : Query) (selector : String) : Prop :=
  ∀ tokens chain, tokenize .selector selector = .ok tokens →
    Chain.Reads query.scope tokens chain → ∀ step ∈ chain.steps, step.combinator ≠ .descendant

theorem isShallow_iff (lexed : tokenize .selector selector = .ok tokens)
    (reads : Chain.Reads query.scope tokens chain) :
    query.IsShallow selector ↔ ∀ step ∈ chain.steps, step.combinator ≠ .descendant :=
  forall_reads_iff lexed reads

theorem IsUnion.isShallow (union : query.IsUnion selector) : query.IsShallow selector := by
  intro tokens chain lexed reads step isStep
  rw [union tokens chain lexed reads step isStep]
  simp

/-- The matches on a part of a scope are matches on the whole scope. -/
theorem selectAmong_mono {more : List NodeId} (inside : nodes ⊆ others)
    (onPart : (query.selectAmong selector nodes).outcome = .ok found)
    (onWhole : (query.selectAmong selector others).outcome = .ok more) : found ⊆ more := by
  obtain ⟨_, chain, _, _, rfl, rfl⟩ := reads_of_selectAmong_both onPart onWhole
  exact answers_mono inside

/-- The children of a node that a shallow selector matches are matches on the subtree of the node
too. -/
theorem mem_selectAmong_subtree {root : Element} {more : List NodeId} {parent : NodeId}
    (isMap : query.document = .ofTree root) (shallow : query.IsShallow selector)
    (onSubtree : (query.selectAmong selector (query.document.subtree parent)).outcome = .ok found)
    (onWhole : (query.selectAmong selector others).outcome = .ok more) (isMatch : id ∈ more)
    (isParent : query.document.parent? id = some parent) : id ∈ found := by
  obtain ⟨_, _, lexed, reads, rfl, rfl⟩ := reads_of_selectAmong_both onSubtree onWhole
  exact mem_answers_subtree isMap ((isShallow_iff lexed reads).mp shallow) isParent isMatch

theorem mem_nodes_of_selectAmong
    (succeeded : (query.selectAmong selector nodes).outcome = .ok found) (isMatch : id ∈ found) :
    id ∈ nodes := by
  obtain ⟨_, chain, _, _, rfl⟩ := reads_of_selectAmong succeeded
  exact (mem_answers.mp isMatch).1

theorem document_eq_of_ofElement {limit : Nat} {scope : PackageScope} {root : Element}
    (mapped : ofElement limit scope root = .ok query) : query.document = .ofTree root := by
  unfold ofElement at mapped
  cases visited : Document.ofElement limit root with
  | error error =>
      rw [visited] at mapped
      cases mapped
  | ok document =>
      rw [visited] at mapped
      cases mapped
      exact Document.eq_ofTree_of_ofElement visited

theorem subtree_subset_all {limit : Nat} {scope : PackageScope} {root : Element}
    (mapped : ofElement limit scope root = .ok query) (id : NodeId) :
    query.document.subtree id ⊆ query.document.all := by
  rw [document_eq_of_ofElement mapped]
  exact Document.subtree_subset_all root id

/-- If every child of a node that one selector matches on the subtree of the node is matched there
by another one too, `:has(…)` selects no node with the first that it does not select with the
second. -/
theorem hasSelector_subset_of_children {first second : String}
    {firstAlone secondAlone firstHas secondHas : List NodeId}
    (firstRan : (query.select first).outcome = .ok firstAlone)
    (secondRan : (query.select second).outcome = .ok secondAlone)
    (firstInside : (query.select (hasSelector first)).outcome = .ok firstHas)
    (secondInside : (query.select (hasSelector second)).outcome = .ok secondHas)
    (below : ∀ id ∈ query.document.all, ∀ firstBelow secondBelow,
      (query.selectAmong first (query.document.subtree id)).outcome = .ok firstBelow →
        (query.selectAmong second (query.document.subtree id)).outcome = .ok secondBelow →
          ∀ child ∈ firstBelow, query.document.parent? child = some id → child ∈ secondBelow) :
    firstHas ⊆ secondHas := by
  rw [select_eq] at firstRan secondRan
  obtain ⟨_, _, firstLexed, firstReads, _⟩ := reads_of_selectAmong firstRan
  obtain ⟨_, _, secondLexed, secondReads, _⟩ := reads_of_selectAmong secondRan
  obtain ⟨_, memFirst⟩ :=
    mem_select_hasSelector firstLexed (Plan.ne_nil_of_reads firstReads) firstInside
  obtain ⟨secondRuns, memSecond⟩ :=
    mem_select_hasSelector secondLexed (Plan.ne_nil_of_reads secondReads) secondInside
  intro id isMatch
  obtain ⟨isNode, firstBelow, firstRanBelow, isParent⟩ := (memFirst id).mp isMatch
  obtain ⟨secondBelow, secondRanBelow⟩ := secondRuns id isNode
  obtain ⟨child, isChild, childParent⟩ := List.mem_filterMap.mp isParent
  have isBelow := below id isNode firstBelow secondBelow firstRanBelow secondRanBelow child isChild
    childParent
  have isParentAgain := List.mem_filterMap.mpr ⟨child, isBelow, childParent⟩
  exact (memSecond id).mpr ⟨isNode, secondBelow, secondRanBelow, isParentAgain⟩

/-- Monotonicity of `:has(…)`. If every match of one selector is a match of another one, then
`:has(…)` selects no node with the first that it does not select with the second. The premise is
about the children of every node, matched on its subtree as `:has(…)` sees it; for the matches on
the whole document it is enough if the second selector has no descendant step. -/
theorem select_hasSelector_mono {limit : Nat} {scope : PackageScope} {root : Element}
    {first second : String} {firstAlone secondAlone firstHas secondHas : List NodeId}
    (mapped : ofElement limit scope root = .ok query)
    (firstRan : (query.select first).outcome = .ok firstAlone)
    (secondRan : (query.select second).outcome = .ok secondAlone)
    (firstInside : (query.select (hasSelector first)).outcome = .ok firstHas)
    (secondInside : (query.select (hasSelector second)).outcome = .ok secondHas) :
    ((∀ id ∈ query.document.all, ∀ firstBelow secondBelow,
        (query.selectAmong first (query.document.subtree id)).outcome = .ok firstBelow →
          (query.selectAmong second (query.document.subtree id)).outcome = .ok secondBelow →
            ∀ child ∈ firstBelow, query.document.parent? child = some id → child ∈ secondBelow) →
      firstHas ⊆ secondHas) ∧
      (query.IsShallow second → firstAlone ⊆ secondAlone → firstHas ⊆ secondHas) := by
  refine ⟨hasSelector_subset_of_children firstRan secondRan firstInside secondInside, ?_⟩
  intro shallow inside
  apply hasSelector_subset_of_children firstRan secondRan firstInside secondInside
  -- A match in a subtree is a match on the whole document, and a shallow selector finds it below.
  intro id isNode firstBelow secondBelow firstRanBelow secondRanBelow child isChild isParent
  rw [select_eq] at firstRan secondRan
  have inSubtree := subtree_subset_all mapped id
  have isMatch := inside (selectAmong_mono inSubtree firstRanBelow firstRan isChild)
  exact mem_selectAmong_subtree (document_eq_of_ofElement mapped) shallow secondRanBelow secondRan
    isMatch isParent

/-- On `{"a": {"c": true}}` every match of `.c` is a match of `* > *`, on the subtree of its parent
and on the whole document. -/
theorem select_hasSelector_mono_child :
    let root : Element := .keyed none .object
      [("a", .keyed none .object [("c", .scalar none (.bool true))])]
    let query : Query := ⟨.ofTree root, ⟨"", []⟩⟩
    ofElement 512 ⟨"", []⟩ root = .ok query ∧
      (query.select ".c").outcome = .ok [2] ∧ (query.select "* > *").outcome = .ok [1, 2] ∧
        (query.select (hasSelector ".c")).outcome = .ok [1] ∧
          (query.select (hasSelector "* > *")).outcome = .ok [0, 1] ∧
      ((∀ id ∈ query.document.all, ∀ firstBelow secondBelow,
          (query.selectAmong ".c" (query.document.subtree id)).outcome = .ok firstBelow →
            (query.selectAmong "* > *" (query.document.subtree id)).outcome = .ok secondBelow →
              ∀ child ∈ firstBelow, query.document.parent? child = some id →
                child ∈ secondBelow) ∧ [1] ⊆ [0, 1]) ∧
        query.IsShallow "* > *" ∧ [2] ⊆ [1, 2] ∧ [1] ⊆ [0, 1] := by
  intro root query
  have mapped : ofElement 512 ⟨"", []⟩ root = .ok query := by
    rw [ofElement, Document.ofElement_of_visit rfl]
  have firstLexed : tokenize .selector ".c" = .ok [⟨.identifier, "c", 0⟩] := by decide +kernel
  have secondLexed : tokenize .selector "* > *" = .ok
      [⟨.operator, "*", 0⟩, ⟨.operator, ">", 1⟩, ⟨.operator, "*", 4⟩] := by decide +kernel
  have firstRan : (query.select ".c").outcome = .ok [2] := by
    rw [select, firstLexed]
    decide +kernel
  have secondRan : (query.select "* > *").outcome = .ok [1, 2] := by
    rw [select, secondLexed]
    decide +kernel
  have firstInside : (query.select (hasSelector ".c")).outcome = .ok [1] := by
    rw [outcome_select_hasSelector firstLexed (by simp)]
    decide +kernel
  have secondInside : (query.select (hasSelector "* > *")).outcome = .ok [0, 1] := by
    rw [outcome_select_hasSelector secondLexed (by simp)]
    decide +kernel
  obtain ⟨ofChildren, ofWhole⟩ :=
    select_hasSelector_mono mapped firstRan secondRan firstInside secondInside
  have onSubtrees : ∀ id ∈ query.document.all,
      ∀ child ∈ (query.selectAmong ".c" (query.document.subtree id)).outcome.toOption.getD [],
        query.document.parent? child = some id → child ∈
          (query.selectAmong "* > *" (query.document.subtree id)).outcome.toOption.getD [] := by
    simp only [selectAmong_eq firstLexed, selectAmong_eq secondLexed]
    decide +kernel
  have children : ∀ id ∈ query.document.all, ∀ firstBelow secondBelow,
      (query.selectAmong ".c" (query.document.subtree id)).outcome = .ok firstBelow →
        (query.selectAmong "* > *" (query.document.subtree id)).outcome = .ok secondBelow →
          ∀ child ∈ firstBelow, query.document.parent? child = some id →
            child ∈ secondBelow := by
    intro id isNode firstBelow secondBelow firstRanBelow secondRanBelow
    have onSubtree := onSubtrees id isNode
    rw [firstRanBelow, secondRanBelow] at onSubtree
    exact onSubtree
  have shallow : query.IsShallow "* > *" := by
    apply (isShallow_iff secondLexed (.operator rfl rfl rfl (.final rfl))).mpr
    simp
  have isInside : [2] ⊆ [1, 2] := by simp
  exact ⟨mapped, firstRan, secondRan, firstInside, secondInside,
    ⟨children, ofChildren children⟩, shallow, isInside, ofWhole shallow isInside⟩

/-- A match of `.c` on `{"a": {"b": {"c": true}}}` is one of `.a .c` too, but on the subtree of `b`
alone nothing lies below an `a`. -/
theorem select_hasSelector_not_mono :
    let root : Element := .keyed none .object
      [("a", .keyed none .object [("b", .keyed none .object [("c", .scalar none (.bool true))])])]
    let query : Query := ⟨.ofTree root, ⟨"", []⟩⟩
    ofElement 512 ⟨"", []⟩ root = .ok query ∧
      (query.select ".c").outcome = .ok [3] ∧ (query.select ".a .c").outcome = .ok [3] ∧
        (query.select (hasSelector ".c")).outcome = .ok [2] ∧
          (query.select (hasSelector ".a .c")).outcome = .ok [] ∧
            [3] ⊆ [3] ∧ ¬ [2] ⊆ ([] : List NodeId) := by
  intro root query
  have mapped : ofElement 512 ⟨"", []⟩ root = .ok query := by
    rw [ofElement, Document.ofElement_of_visit rfl]
  have firstLexed : tokenize .selector ".c" = .ok [⟨.identifier, "c", 0⟩] := by decide +kernel
  have secondLexed : tokenize .selector ".a .c" = .ok
      [⟨.identifier, "a", 0⟩, ⟨.operator, " ", 2⟩, ⟨.identifier, "c", 3⟩] := by decide +kernel
  refine ⟨mapped, ?_, ?_, ?_, ?_, by simp, by simp⟩
  · rw [select, firstLexed]
    decide +kernel
  · rw [select, secondLexed]
    decide +kernel
  · rw [outcome_select_hasSelector firstLexed (by simp)]
    decide +kernel
  · rw [outcome_select_hasSelector secondLexed (by simp)]
    decide +kernel

end Query

end TreeQuery
