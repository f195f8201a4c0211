import Mathlib.Data.List.Sort
import Mathlib.Logic.Function.Iterate
import TreeQuery.Proofs.Document.Ancestry
import TreeQuery.Proofs.Document.Subtree

/-!
Ancestry by bounds, by listed ids and by parent links.

A node lies in the subtree of another one when its id is between the bounds of that subtree. In the
map of a tree these are the nodes from which parent links lead there, because the nodes of a
subtree stand together and each of them but the root has its parent among them.
-/

namespace TreeQuery

namespace Document

variable {root : Element} {document : Document} {limit id ancestor : Nat}

theorem within_iff : document.within id ancestor = true ↔
    ∃ node, document.node? ancestor = some node ∧ ancestor ≤ id ∧ id < node.stop := by
  unfold within
  cases document.node? ancestor with
  | none => simp
  | some node => simp

theorem mem_subtree_iff : id ∈ document.subtree ancestor ↔ document.within id ancestor = true := by
  rw [within_iff, subtree]
  cases document.node? ancestor with
  | none => simp
  | some node =>
      simp only [List.mem_range'_1, Option.some.injEq, exists_eq_left']
      omega

/-! ## Bounds and parent links -/

theorem stop_of_node?_ofTree {node : Node} (present : (ofTree root).node? id = some node) :
    id + (node.element.nodes node.toPlace id).length = node.stop := by
  have isId := id_of_node?_ofTree present
  rw [node?_ofTree] at present
  rw [(root.lists_nodes .root 0).stops node (List.mem_of_getElem? present),
    (node.element.lists_nodes node.toPlace id).length_eq, isId]

theorem node?_of_mem_nodes {node : Node} (member : node ∈ root.nodes .root 0) :
    (ofTree root).node? node.id = some node := by
  obtain ⟨index, found⟩ := List.mem_iff_getElem?.mp member
  rw [← node?_ofTree] at found
  rw [id_of_node?_ofTree found]
  exact found

/-- The nodes within a node are those of its element on its own. -/
theorem within_ofTree_iff : (ofTree root).within id ancestor = true ↔
    ∃ holder node, (ofTree root).node? ancestor = some holder ∧
      (ofTree root).node? id = some node ∧
        node ∈ holder.element.nodes holder.toPlace ancestor := by
  rw [within_iff]
  constructor
  · intro bounded
    obtain ⟨holder, present, above, before⟩ := bounded
    have bound := stop_of_node?_ofTree present
    have listed : id ∈ (holder.element.nodes holder.toPlace ancestor).map Node.id := by
      rw [(holder.element.lists_nodes _ _).ids, List.mem_range'_1]
      omega
    obtain ⟨node, member, rfl⟩ := List.mem_map.mp listed
    have together := Element.nodes_infix_of_mem
      (List.mem_of_getElem? ((node?_ofTree root ancestor).symm.trans present))
    rw [id_of_node?_ofTree present] at together
    exact ⟨holder, node, present, node?_of_mem_nodes (together.subset member), member⟩
  · intro found
    obtain ⟨holder, node, present, isNode, member⟩ := found
    have isId := List.mem_map_of_mem (f := Node.id) member
    rw [(holder.element.lists_nodes _ _).ids, List.mem_range'_1, id_of_node?_ofTree isNode] at isId
    have bound := stop_of_node?_ofTree present
    exact ⟨holder, present, by omega, by omega⟩

theorem within_self (isNode : id < (ofTree root).size) : (ofTree root).within id id = true := by
  have present : (ofTree root).node? id = some (ofTree root).nodes[id] :=
    Array.getElem?_eq_getElem isNode
  have bound := stop_of_node?_ofTree present
  rw [Element.nodes_eq, List.length_cons] at bound
  exact within_iff.mpr ⟨_, present, Nat.le_refl id, by omega⟩

theorem within_parent {parent : Nat} (isParent : (ofTree root).parent? id = some parent) :
    (ofTree root).within id parent = true :=
  mem_subtree_iff.mp (mem_subtree_of_parent? isParent)

/-- The parent of a node and the other children of that parent are in the subtree of the parent. All
combinators but the descendant one look no further. -/
theorem mem_subtree_of_related {combinator : Combinator} {left parent : Nat}
    (isParent : (ofTree root).parent? id = some parent)
    (related : (ofTree root).Related combinator left id) (notUnion : combinator ≠ .union)
    (notDescendant : combinator ≠ .descendant) : left ∈ (ofTree root).subtree parent := by
  cases combinator with
  | union => contradiction
  | descendant => contradiction
  | child =>
      cases related.symm.trans isParent
      obtain ⟨node, present, above, before⟩ := within_iff.mp (within_parent isParent)
      apply mem_subtree_iff.mpr
      exact within_iff.mpr ⟨node, present, Nat.le_refl left, Nat.lt_of_le_of_lt above before⟩
  | sibling => exact mem_subtree_of_parent? (related.2.trans isParent)

/-- A subtree ends inside every subtree that its root lies in. -/
theorem within_trans {middle : Nat} (inner : (ofTree root).within id middle = true)
    (outer : (ofTree root).within middle ancestor = true) :
    (ofTree root).within id ancestor = true := by
  obtain ⟨node, isMiddle, above, before⟩ := within_iff.mp inner
  obtain ⟨holder, _, present, same, member⟩ := within_ofTree_iff.mp outer
  cases isMiddle.symm.trans same
  have inside := Element.stop_le_of_mem_nodes member
  have bound := stop_of_node?_ofTree present
  obtain ⟨_, _, aboveMiddle, _⟩ := within_iff.mp outer
  exact within_iff.mpr ⟨holder, present, by omega, by omega⟩

/-- The parent of a node in a subtree is in the subtree too, unless the node is its root. -/
theorem exists_parent_within (inside : (ofTree root).within id ancestor = true)
    (notRoot : id ≠ ancestor) :
    ∃ parent, (ofTree root).parent? id = some parent ∧
      (ofTree root).within parent ancestor = true := by
  obtain ⟨holder, node, present, isNode, member⟩ := within_ofTree_iff.mp inside
  rcases Element.held_of_mem_nodes member with isTop | held
  · exact absurd ((id_of_node?_ofTree isNode).symm.trans isTop.1) notRoot
  · obtain ⟨parent, isHeld, placed, _⟩ := held
    have together := Element.nodes_infix_of_mem
      (List.mem_of_getElem? ((node?_ofTree root ancestor).symm.trans present))
    rw [id_of_node?_ofTree present] at together
    have isParent := node?_of_mem_nodes (together.subset isHeld)
    refine ⟨parent.id, ?_, within_ofTree_iff.mpr ⟨holder, parent, present, isParent, isHeld⟩⟩
    rw [parent?, isNode]
    exact placed

theorem leadsTo_of_within (inside : (ofTree root).within id ancestor = true) :
    (ofTree root).LeadsTo id ancestor := by
  induction id using Nat.strongRecOn with
  | ind id induction =>
      by_cases isRoot : id = ancestor
      · rw [isRoot]
        exact .refl
      · obtain ⟨parent, isParent, parentInside⟩ := exists_parent_within inside isRoot
        exact .head isParent (induction parent (parent?_lt isParent) parentInside)

theorem within_of_leadsTo (isNode : ancestor < (ofTree root).size)
    (leads : (ofTree root).LeadsTo id ancestor) : (ofTree root).within id ancestor = true := by
  induction leads using Relation.ReflTransGen.head_induction_on with
  | refl => exact within_self isNode
  | head isParent _ above => exact within_trans (within_parent isParent) above

theorem within_iff_leadsTo (isNode : ancestor < (ofTree root).size) :
    (ofTree root).within id ancestor = true ↔ (ofTree root).LeadsTo id ancestor :=
  ⟨leadsTo_of_within, within_of_leadsTo isNode⟩

/-! ## Subtrees -/

/-- A subtree lists the nodes within its root. -/
theorem subtree_eq_filter (root : Element) (ancestor : Nat) :
    (ofTree root).subtree ancestor =
      (ofTree root).all.filter fun id => (ofTree root).within id ancestor := by
  have ascends : ((ofTree root).subtree ancestor).Pairwise (· < ·) := by
    unfold subtree
    split
    · exact List.pairwise_lt_range'
    · exact .nil
  refine ascends.eq_of_mem_iff (List.pairwise_lt_range.filter _) fun id => ?_
  rw [List.mem_filter, mem_subtree_iff]
  refine ⟨fun inside => ⟨?_, inside⟩, And.right⟩
  exact subtree_subset_all root ancestor (mem_subtree_iff.mpr inside)

theorem subtree_subset_of_within {inner outer : Nat}
    (inside : (ofTree root).within inner outer = true) :
    (ofTree root).subtree inner ⊆ (ofTree root).subtree outer :=
  fun _ member => mem_subtree_iff.mpr (within_trans (mem_subtree_iff.mp member) inside)

/-- Two subtrees with a node in common lie one in the other: parent links lead from that node to
both roots, and to one of them past the other. -/
theorem subtree_nested_or_disjoint (first second : Nat) :
    (ofTree root).subtree first ⊆ (ofTree root).subtree second ∨
      (ofTree root).subtree second ⊆ (ofTree root).subtree first ∨
        ∀ id ∈ (ofTree root).subtree first, id ∉ (ofTree root).subtree second := by
  by_cases meet : ∃ id, id ∈ (ofTree root).subtree first ∧ id ∈ (ofTree root).subtree second
  · obtain ⟨id, inFirst, inSecond⟩ := meet
    have oneParent : Relator.RightUnique fun node parent =>
        (ofTree root).parent? node = some parent := by
      intro node parent other isParent isOther
      exact Option.some.inj (isParent.symm.trans isOther)
    have isNode : ∀ {ancestor : Nat}, id ∈ (ofTree root).subtree ancestor →
        ancestor < (ofTree root).size := by
      intro ancestor member
      obtain ⟨_, present, _⟩ := within_iff.mp (mem_subtree_iff.mp member)
      exact (Array.getElem?_eq_some_iff.mp present).1
    have toFirst := leadsTo_of_within (mem_subtree_iff.mp inFirst)
    have toSecond := leadsTo_of_within (mem_subtree_iff.mp inSecond)
    rcases Relation.ReflTransGen.total_of_right_unique oneParent toFirst toSecond with on | on
    · exact .inl (subtree_subset_of_within (within_of_leadsTo (isNode inSecond) on))
    · exact .inr (.inl (subtree_subset_of_within (within_of_leadsTo (isNode inFirst) on)))
  · refine .inr (.inr fun id inFirst inSecond => ?_)
    exact meet ⟨id, inFirst, inSecond⟩

/-! ## Walks along parent links -/

/-- A walk along parent links runs out: every step goes to a smaller id. -/
theorem iterate_parent?_eq_none {count : Nat} (below : id < count) :
    (fun link : Option NodeId => link.bind document.parent?)^[count] (some id) = none := by
  induction count generalizing id with
  | zero => exact absurd below (Nat.not_lt_zero id)
  | succ count induction =>
      rw [Function.iterate_succ_apply, Option.bind_some]
      cases isParent : document.parent? id with
      | none => exact Function.iterate_fixed rfl count
      | some parent =>
          have before : parent < id := parent?_lt isParent
          exact induction (Nat.lt_of_lt_of_le before (Nat.le_of_lt_succ below))

/-- The walk up from a node finds a listed one if the node lies within a listed one. -/
theorem any_lineage_eq_any_within {left : List NodeId} (areNodes : left ⊆ (ofTree root).all)
    (id : NodeId) :
    (((ofTree root).lineage id).any left.contains) =
      left.any fun ancestor => (ofTree root).within id ancestor := by
  rw [Bool.eq_iff_iff, any_lineage_iff_related_descendant, List.any_eq_true]
  refine exists_congr fun ancestor => and_congr_right fun member => ?_
  exact (within_iff_leadsTo (List.mem_range.mp (areNodes member))).symm

/-- On every mapped document three notions of ancestry agree. A node is within the bounds of another
one when parent links lead there, a subtree lists the nodes within its root, so that two subtrees
are nested or apart, and the walk of a descendant combinator up from a node, which runs out, keeps
the nodes that are within a node on its left. -/
theorem ancestry_agrees (mapped : ofElement limit root = .ok document) :
    (∀ id ∈ document.all, ∀ ancestor ∈ document.all,
      document.within id ancestor = true ↔ document.LeadsTo id ancestor) ∧
    (∀ ancestor ∈ document.all,
      document.subtree ancestor = document.all.filter fun id => document.within id ancestor) ∧
    (∀ first ∈ document.all, ∀ second ∈ document.all,
      document.subtree first ⊆ document.subtree second ∨
        document.subtree second ⊆ document.subtree first ∨
          ∀ id ∈ document.subtree first, id ∉ document.subtree second) ∧
    (∀ id ∈ document.all,
      (fun link : Option NodeId => link.bind document.parent?)^[id + 1] (some id) = none) ∧
    ∀ left right, left ⊆ document.all → right ⊆ document.all →
      document.descendants left right =
        right.filter fun id => left.any fun ancestor => document.within id ancestor := by
  rw [eq_ofTree_of_ofElement mapped]
  refine ⟨?_, ?_, ?_, ?_, ?_⟩
  · intro id _ ancestor isNode
    exact within_iff_leadsTo (List.mem_range.mp isNode)
  · intro ancestor _
    exact subtree_eq_filter root ancestor
  · intro first _ second _
    exact subtree_nested_or_disjoint first second
  · intro id _
    exact iterate_parent?_eq_none (Nat.lt_succ_self id)
  · intro left right areNodes _
    exact List.filter_congr fun id _ => any_lineage_eq_any_within areNodes id

/-- On `{"a": {"b": [true]}, "c": true}` the walk from `true` in `b` meets `b` and `a`, and what is
listed twice on the right of a descendant combinator is kept twice. -/
theorem ancestry_agrees_listed_twice :
    let root : Element := .keyed none .object
      [("a", .keyed none .object [("b", .array none [.scalar none (.bool true)])]),
        ("c", .scalar none (.bool true))]
    let document := ofTree root
    ofElement 512 root = .ok document ∧ document.LeadsTo 3 1 ∧ ¬ document.LeadsTo 4 1 ∧
      document.all.filter (fun id => document.within id 1) = [1, 2, 3] ∧
        (fun link : Option NodeId => link.bind document.parent?)^[4] (some 3) = none ∧
          document.descendants [1, 2] [4, 3, 3, 1] = [3, 3, 1] := by
  intro root document
  have mapped : ofElement 512 root = .ok document := ofElement_of_visit rfl
  obtain ⟨leads, subtrees, _, runsOut, keeps⟩ := ancestry_agrees mapped
  refine ⟨mapped, ?_, ?_, ?_, ?_, ?_⟩
  · exact (leads 3 (by decide) 1 (by decide)).mp (by decide)
  · exact fun above => absurd ((leads 4 (by decide) 1 (by decide)).mpr above) (by decide)
  · exact (subtrees 1 (by decide)).symm.trans (by decide)
  · exact runsOut 3 (by decide)
  · exact (keeps _ _ (by decide) (by decide)).trans (by decide)

end Document

end TreeQuery
