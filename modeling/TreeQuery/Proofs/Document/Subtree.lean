import TreeQuery.Proofs.Document.Mapping

/-!
Subtrees in a map.

The nodes below a node are the run of ids from the node up to its `stop`. In the map of a tree no
run goes past the end of the map.
-/

namespace TreeQuery

namespace Element

theorem stop_le_of_mem_placedNodes {children : List Element}
    (childrenStop : ∀ child ∈ children, ∀ (place : Place) (id : Nat),
      ∀ node ∈ child.nodes place id, id + (child.nodes place id).length ≥ node.stop)
    {places : List Place} {id : Nat} {node : Node}
    (member : node ∈ placedNodes id (places.zip children)) :
    id + (placedNodes id (places.zip children)).length ≥ node.stop := by
  induction children generalizing places id with
  | nil => simp [placedNodes] at member
  | cons child children induction =>
      obtain ⟨childStops, othersStop⟩ := List.forall_mem_cons.mp childrenStop
      cases places with
      | nil => simp [placedNodes] at member
      | cons place places =>
          simp only [List.zip_cons_cons, placedNodes, List.mem_append, List.length_append]
            at member ⊢
          rcases member with isFront | isBack
          · have inside := childStops place id node isFront
            omega
          · have inside := induction othersStop isBack
            omega

/-- No subtree ends behind the tree that it belongs to. -/
theorem stop_le_of_mem_nodes {element : Element} {place : Place} {id : Nat} {node : Node}
    (member : node ∈ element.nodes place id) :
    id + (element.nodes place id).length ≥ node.stop := by
  induction element using induct generalizing place id node with
  | step element induction =>
      rw [nodes_eq] at member ⊢
      rcases List.mem_cons.mp member with rfl | isBelow
      · simp only [List.length_cons]
        omega
      · have inside := stop_le_of_mem_placedNodes
          (fun child isChild place id node isNode => induction child isChild isNode) isBelow
        simp only [List.length_cons, nodesBelow] at inside ⊢
        omega

theorem exists_of_mem_placedNodes {pairs : List (Place × Element)} {id : Nat} {node : Node}
    (member : node ∈ placedNodes id pairs) :
    ∃ place child start, (place, child) ∈ pairs ∧ node ∈ child.nodes place start ∧
      child.nodes place start <:+: placedNodes id pairs := by
  induction pairs generalizing id with
  | nil => cases member
  | cons pair pairs induction =>
      obtain ⟨place, child⟩ := pair
      rw [placedNodes] at member ⊢
      rcases List.mem_append.mp member with isFront | isBack
      · exact ⟨place, child, id, List.mem_cons_self, isFront, (List.prefix_append _ _).isInfix⟩
      · obtain ⟨other, found, start, isPair, isNode, inside⟩ := induction isBack
        exact ⟨other, found, start, List.mem_cons_of_mem _ isPair, isNode,
          inside.trans (List.suffix_append _ _).isInfix⟩

/-- The nodes of a subtree stand together, and are those of its root on its own. -/
theorem nodes_infix_of_mem {element : Element} {place : Place} {id : Nat} {node : Node}
    (member : node ∈ element.nodes place id) :
    node.element.nodes node.toPlace node.id <:+: element.nodes place id := by
  induction element using induct generalizing place id node with
  | step element induction =>
      rw [nodes_eq] at member
      rcases List.mem_cons.mp member with isRoot | isBelow
      · subst isRoot
        exact List.infix_rfl
      · obtain ⟨childPlace, child, start, isPair, isNode, inside⟩ :=
          exists_of_mem_placedNodes isBelow
        have isChild := (List.of_mem_zip isPair).2
        rw [nodes_eq place id element]
        exact ((induction child isChild isNode).trans inside).trans (List.suffix_cons _ _).isInfix

theorem id_lt_of_mem_nodes {element : Element} {place : Place} {id : Nat} {node : Node}
    (member : node ∈ element.nodes place id) : node.id < id + (element.nodes place id).length := by
  have isId := List.mem_map_of_mem (f := Node.id) member
  rw [(element.lists_nodes place id).ids, List.mem_range'_1] at isId
  exact isId.2

/-- Every node but the root of a tree lies in the subtree of its parent. -/
theorem held_of_mem_nodes {element : Element} {place : Place} {id : Nat} {node : Node}
    (member : node ∈ element.nodes place id) :
    (node.id = id ∧ node.toPlace = place) ∨ ∃ parent ∈ element.nodes place id,
      node.parent = some parent.id ∧ node.id < parent.stop := by
  induction element using induct generalizing place id node with
  | step element induction =>
      have bound := id_lt_of_mem_nodes member
      rw [nodes_eq] at member bound ⊢
      rcases List.mem_cons.mp member with isRoot | isBelow
      · exact .inl ⟨congrArg Node.id isRoot, congrArg Node.toPlace isRoot⟩
      · refine .inr ?_
        obtain ⟨childPlace, child, start, isPair, isNode, inside⟩ :=
          exists_of_mem_placedNodes isBelow
        obtain ⟨isPlace, isChild⟩ := List.of_mem_zip isPair
        rcases induction child isChild isNode with top | held
        · refine ⟨_, List.mem_cons_self, ?_, ?_⟩
          · rw [top.2]
            exact parent_of_mem_places isPlace
          · rw [List.length_cons, Nat.add_comm _ 1, ← Nat.add_assoc] at bound
            exact bound
        · obtain ⟨parent, isParent, placed, before⟩ := held
          exact ⟨parent, List.mem_cons_of_mem _ (inside.subset isParent), placed, before⟩

end Element

namespace Document

variable {root : Element} {document : Document} {limit id : Nat}

theorem eq_ofTree_of_ofElement (mapped : ofElement limit root = .ok document) :
    document = ofTree root := by
  rcases root.visit_decides limit .root 0 #[] with ⟨_, found, visited⟩ | ⟨_, failed⟩
  · rw [ofElement_of_visit visited] at mapped
    exact (Except.ok.inj mapped).symm
  · rw [ofElement_of_visit_error failed] at mapped
    cases mapped

theorem mem_subtree_of_parent? {parent : Nat} (isParent : (ofTree root).parent? id = some parent) :
    id ∈ (ofTree root).subtree parent := by
  obtain ⟨node, present, placed⟩ := Option.bind_eq_some_iff.mp isParent
  have isId := id_of_node?_ofTree present
  have before := parent?_lt isParent
  rw [node?_ofTree] at present
  rcases Element.held_of_mem_nodes (List.mem_of_getElem? present) with top | held
  · rw [top.2] at placed
    cases placed
  · obtain ⟨holder, isHolder, isPlaced, inside⟩ := held
    have holderId : holder.id = parent := Option.some.inj (isPlaced.symm.trans placed)
    obtain ⟨index, found⟩ := List.mem_iff_getElem?.mp isHolder
    have isIndex : holder.id = index := id_of_node?_ofTree ((node?_ofTree root index).trans found)
    rw [← isIndex, holderId, ← node?_ofTree] at found
    rw [isId] at inside
    have reaches : parent ≤ holder.stop := Nat.le_of_lt (Nat.lt_trans before inside)
    simp only [subtree, found, List.mem_range'_1]
    rw [Nat.add_sub_cancel' reaches]
    exact ⟨Nat.le_of_lt before, inside⟩

theorem subtree_subset_all (root : Element) (id : Nat) :
    (ofTree root).subtree id ⊆ (ofTree root).all := by
  intro other member
  unfold subtree at member
  cases present : (ofTree root).node? id with
  | none => simp [present] at member
  | some node =>
      simp only [present, List.mem_range'_1] at member
      rw [node?_ofTree] at present
      have inside := Element.stop_le_of_mem_nodes (List.mem_of_getElem? present)
      have size : (ofTree root).size = (root.nodes .root 0).length := List.size_toArray
      rw [all, List.mem_range, size]
      omega

end Document

end TreeQuery
