import Mathlib.Logic.Relation
import TreeQuery.Document

/-!
Ancestry, and the relations of combinators node by node.

`Document.LeadsTo` follows parent links any number of times. A combinator other than a union keeps
the nodes on its right that are `Related` to some node on its left.
-/

namespace TreeQuery

namespace Document

variable {document : Document} {combinator : Combinator} {left right : List NodeId}

/-- Parent links lead from a node to itself and to its ancestors. -/
def LeadsTo (document : Document) : NodeId → NodeId → Prop :=
  Relation.ReflTransGen fun node parent => document.parent? node = some parent

theorem lineage_eq (document : Document) (id : NodeId) :
    document.lineage id = id :: (document.parent? id).elim [] document.lineage := by
  rw [lineage]
  split
  · rename_i isRoot
    rw [isRoot]
    rfl
  · rename_i parent isParent
    rw [isParent]
    rfl

theorem leadsTo_of_mem_lineage {id ancestor : NodeId}
    (member : ancestor ∈ document.lineage id) : document.LeadsTo id ancestor := by
  induction id using Nat.strongRecOn with
  | ind id induction =>
      rw [lineage_eq] at member
      rcases List.mem_cons.mp member with same | above
      · subst same
        exact .refl
      · cases isParent : document.parent? id with
        | none => simp [isParent] at above
        | some parent =>
            rw [isParent] at above
            exact .head isParent (induction parent (parent?_lt isParent) above)

theorem mem_lineage_of_leadsTo {id ancestor : NodeId} (leads : document.LeadsTo id ancestor) :
    ancestor ∈ document.lineage id := by
  induction leads using Relation.ReflTransGen.head_induction_on with
  | refl =>
      rw [lineage_eq]
      exact List.mem_cons_self
  | head isParent _ above =>
      rw [lineage_eq, isParent]
      exact List.mem_cons_of_mem _ above

theorem mem_lineage_iff {id ancestor : NodeId} :
    ancestor ∈ document.lineage id ↔ document.LeadsTo id ancestor :=
  ⟨leadsTo_of_mem_lineage, mem_lineage_of_leadsTo⟩

instance (document : Document) (id ancestor : NodeId) :
    Decidable (document.LeadsTo id ancestor) :=
  decidable_of_iff _ mem_lineage_iff

/-- How a node on the left of a combinator keeps one on the right. A union keeps every node. -/
def Related (document : Document) (combinator : Combinator) (left right : NodeId) : Prop :=
  match combinator with
  | .union => True
  | .child => document.parent? right = some left
  | .sibling => document.parent? right ≠ none ∧ document.parent? left = document.parent? right
  | .descendant => document.LeadsTo right left

instance (document : Document) (combinator : Combinator) (left right : NodeId) :
    Decidable (document.Related combinator left right) := by
  unfold Related
  cases combinator <;> infer_instance

theorem any_parent_iff_related_child {id : NodeId} :
    (document.parent? id).any left.contains = true ↔
      ∃ node ∈ left, document.Related .child node id := by
  rw [Option.any_eq_true]
  constructor
  · intro found
    obtain ⟨parent, isParent, member⟩ := found
    exact ⟨parent, List.contains_iff_mem.mp member, isParent⟩
  · intro found
    obtain ⟨node, member, isParent⟩ := found
    exact ⟨node, isParent, List.contains_iff_mem.mpr member⟩

theorem any_parents_iff_related_sibling {id : NodeId} :
    (document.parent? id).any (document.parents left).contains = true ↔
      ∃ node ∈ left, document.Related .sibling node id := by
  rw [Option.any_eq_true]
  constructor
  · intro found
    obtain ⟨parent, isParent, member⟩ := found
    obtain ⟨node, nodeMember, nodeParent⟩ :=
      List.mem_filterMap.mp (List.contains_iff_mem.mp member)
    exact ⟨node, nodeMember, by simp [isParent], nodeParent.trans isParent.symm⟩
  · intro found
    obtain ⟨node, member, hasParent, sameParent⟩ := found
    obtain ⟨parent, isParent⟩ := Option.ne_none_iff_exists'.mp hasParent
    have listed : parent ∈ document.parents left :=
      List.mem_filterMap.mpr ⟨node, member, sameParent.trans isParent⟩
    exact ⟨parent, isParent, List.contains_iff_mem.mpr listed⟩

theorem any_lineage_iff_related_descendant {id : NodeId} :
    (document.lineage id).any left.contains = true ↔
      ∃ node ∈ left, document.Related .descendant node id := by
  rw [List.any_eq_true]
  constructor
  · intro found
    obtain ⟨ancestor, above, member⟩ := found
    exact ⟨ancestor, List.contains_iff_mem.mp member, mem_lineage_iff.mp above⟩
  · intro found
    obtain ⟨node, member, leads⟩ := found
    exact ⟨node, mem_lineage_iff.mpr leads, List.contains_iff_mem.mpr member⟩

/-- Every combinator but the union filters its right side by its left side. -/
theorem combine_eq_filter (notUnion : combinator ≠ .union) :
    document.combine combinator left right =
      right.filter fun id => ∃ node ∈ left, document.Related combinator node id := by
  cases combinator with
  | union => contradiction
  | child =>
      refine List.filter_congr fun id _ => Bool.eq_iff_iff.mpr ?_
      rw [decide_eq_true_iff]
      exact any_parent_iff_related_child
  | sibling =>
      refine List.filter_congr fun id _ => Bool.eq_iff_iff.mpr ?_
      rw [decide_eq_true_iff]
      exact any_parents_iff_related_sibling
  | descendant =>
      refine List.filter_congr fun id _ => Bool.eq_iff_iff.mpr ?_
      rw [decide_eq_true_iff]
      exact any_lineage_iff_related_descendant

end Document

end TreeQuery
