import TreeQuery.Proofs.Document.Nesting

/-!
Subtrees mapped on their own.

A walk counts ids from the nodes that it has mapped so far, and the nodes below an element say
nothing about what stands before it. So the nodes of a subtree are those of its root as a document
of its own, with all ids moved up by the id of the root. Only the root itself has another place.
-/

namespace TreeQuery

/-- The place under a parent whose id is larger by an offset. -/
def Place.shift (offset : Nat) (place : Place) : Place :=
  { place with parent := place.parent.map (offset + ·) }

/-- The node with all its ids larger by an offset. -/
def Node.shift (offset : Nat) (node : Node) : Node :=
  ⟨node.toPlace.shift offset, offset + node.id, node.element, offset + node.stop⟩

namespace Element

theorem places_shift (offset id : Nat) (element : Element) :
    element.places (offset + id) = (element.places id).map (Place.shift offset) := by
  cases element with
  | scalar declared value => rfl
  | array declared items =>
      rw [places, places, List.map_map]
      rfl
  | keyed declared shape entries =>
      rw [places, places, List.map_map]
      rfl

theorem placedNodes_shift {offset : Nat} {children : List Element}
    (childrenShift : ∀ child ∈ children, ∀ (place : Place) (id : Nat),
      child.nodes (place.shift offset) (offset + id) =
        (child.nodes place id).map (Node.shift offset))
    (places : List Place) (id : Nat) :
    placedNodes (offset + id) ((places.map (Place.shift offset)).zip children) =
      (placedNodes id (places.zip children)).map (Node.shift offset) := by
  induction children generalizing places id with
  | nil =>
      rw [List.zip_nil_right, List.zip_nil_right]
      rfl
  | cons child children induction =>
      obtain ⟨childShifts, othersShift⟩ := List.forall_mem_cons.mp childrenShift
      cases places with
      | nil => rfl
      | cons place places =>
          rw [List.map_cons, List.zip_cons_cons, List.zip_cons_cons, placedNodes, placedNodes,
            List.map_append, childShifts, List.length_map, Nat.add_assoc,
            induction othersShift]

/-- Where the nodes of a tree start shows in their ids only. -/
theorem nodes_shift (offset : Nat) (element : Element) (place : Place) (id : Nat) :
    element.nodes (place.shift offset) (offset + id) =
      (element.nodes place id).map (Node.shift offset) := by
  induction element using induct generalizing place id with
  | step element induction =>
      have below : element.nodesBelow (offset + id) =
          (element.nodesBelow id).map (Node.shift offset) := by
        rw [nodesBelow, nodesBelow, places_shift, Nat.add_assoc]
        exact placedNodes_shift induction _ _
      rw [nodes_eq, nodes_eq, below, List.map_cons, List.length_map, Nat.add_assoc, Nat.add_assoc,
        Nat.add_assoc]
      rfl

/-- The nodes below an element do not depend on its place. -/
theorem nodesBelow_shift (id : Nat) (element : Element) :
    element.nodesBelow id = (element.nodesBelow 0).map (Node.shift id) := by
  have whole := nodes_shift id element .root 0
  rw [nodes_eq, nodes_eq] at whole
  exact (List.cons.inj whole).2

theorem at?_append (root : Element) (path below : Path) :
    root.at? (path ++ below) = (root.at? path).bind fun element => element.at? below := by
  induction path generalizing root with
  | nil => rfl
  | cons offset path induction =>
      rw [List.cons_append, at?, at?, Option.bind_assoc]
      exact congrArg _ (funext induction)

/-- What is in a tree is not deeper than the tree. -/
theorem fits_of_at? {limit : Nat} {root element : Element} {path : Path}
    (fits : Fits limit 0 root.listing) (found : root.at? path = some element) :
    Fits limit 0 element.listing := by
  intro entry listed
  have isBelow : root.at? (path ++ entry.1) = some entry.2 := by
    rw [at?_append, found]
    exact mem_listing_iff.mp listed
  have depth := fits _ (mem_listing_iff.mpr isBelow)
  rw [List.length_append] at depth
  omega

end Element

namespace Document

variable {root : Element} {document own : Document} {limit id offset : Nat} {node moved : Node}

/-- What maps a tree maps the tree of every node of it. -/
theorem ofElement_of_node? (mapped : ofElement limit root = .ok document)
    (present : document.node? id = some node) :
    ofElement limit node.element = .ok (ofTree node.element) := by
  rw [eq_ofTree_of_ofElement mapped] at present
  obtain ⟨path, listed⟩ := exists_entry_of_node? present
  have found := Element.mem_listing_iff.mp (List.mem_of_getElem? listed)
  rcases root.visit_decides limit .root 0 #[] with ⟨fits, _⟩ | ⟨_, failed⟩
  · rcases node.element.visit_decides limit .root 0 #[] with ⟨_, _, visited⟩ | ⟨deep, _⟩
    · exact ofElement_of_visit visited
    · exact absurd (Element.fits_of_at? fits found) deep
  · rw [ofElement_of_visit_error failed] at mapped
    cases mapped

/-- The nodes of a map from a node on, as far as its subtree goes, are those of its element. -/
theorem node?_add (present : (ofTree root).node? id = some node)
    (inside : offset < (node.element.nodes node.toPlace id).length) :
    (ofTree root).node? (id + offset) = (node.element.nodes node.toPlace id)[offset]? := by
  have isId := id_of_node?_ofTree present
  have together := Element.nodes_infix_of_mem
    (List.mem_of_getElem? ((node?_ofTree root id).symm.trans present))
  rw [isId] at together
  obtain ⟨front, back, spelled⟩ := together
  have isHead : (root.nodes .root 0)[front.length]? =
      (node.element.nodes node.toPlace id)[0]? := by
    rw [← spelled, List.append_assoc, List.getElem?_append_right (Nat.le_refl _), Nat.sub_self,
      List.getElem?_append_left (by omega)]
  have starts : front.length = id := by
    rw [Element.nodes_eq node.toPlace, List.getElem?_cons_zero, ← node?_ofTree] at isHead
    exact (id_of_node?_ofTree isHead).symm
  rw [node?_ofTree, ← spelled, List.append_assoc, ← starts,
    List.getElem?_append_right (Nat.le_add_right _ _), Nat.add_sub_cancel_left,
    List.getElem?_append_left (starts ▸ inside)]

/-- Below its root, a subtree has the nodes of its root as a document of its own. -/
theorem node?_shift (present : (ofTree root).node? id = some node) (notRoot : 0 < offset)
    (isMoved : (ofTree node.element).node? offset = some moved) :
    (ofTree root).node? (id + offset) = some (moved.shift id) := by
  rw [node?_ofTree] at isMoved
  have inside := (List.getElem?_eq_some_iff.mp isMoved).1
  obtain ⟨below, rfl⟩ := Nat.exists_eq_add_of_lt notRoot
  rw [Nat.zero_add] at isMoved inside ⊢
  rw [Element.nodes_eq, List.getElem?_cons_succ] at isMoved
  rw [Element.nodes_eq, List.length_cons] at inside
  rw [node?_add present, Element.nodes_eq, List.getElem?_cons_succ, Element.nodesBelow_shift,
    List.getElem?_map, isMoved]
  · rfl
  · rw [Element.nodes_eq, List.length_cons, Element.nodesBelow_shift, List.length_map]
    exact inside

/-- A map is that of a subtree on its own: it has the nodes of the subtree, in the same order, with
all ids smaller by the id of the root of the subtree. -/
structure IsMapBelow (own document : Document) (id : NodeId) : Prop where
  ids : document.subtree id = own.all.map (id + ·)
  nodes : ∀ offset moved, own.node? offset = some moved →
    ∃ node, document.node? (id + offset) = some node ∧ node.element = moved.element ∧
      document.subtree (id + offset) = (own.subtree offset).map (id + ·)
  /-- All nodes but the root have their keys and positions, and parents that moved with them. -/
  places : ∀ offset moved, 0 < offset → own.node? offset = some moved →
    ∃ node parent, document.node? (id + offset) = some node ∧ node.key = moved.key ∧
      node.index = moved.index ∧ node.siblings = moved.siblings ∧
        moved.parent = some parent ∧ node.parent = some (id + parent)

/-- The root of a subtree has the element and the size that it has on its own, as all below it. -/
theorem exists_node?_add (present : (ofTree root).node? id = some node)
    (isMoved : (ofTree node.element).node? offset = some moved) :
    ∃ found, (ofTree root).node? (id + offset) = some found ∧ found.element = moved.element ∧
      found.stop = id + moved.stop := by
  cases offset with
  | zero =>
      have bound := stop_of_node?_ofTree present
      rw [node?_ofTree, Element.nodes_eq] at isMoved
      cases isMoved
      rw [Element.nodes_eq, List.length_cons, Element.nodesBelow_shift, List.length_map] at bound
      refine ⟨node, present, rfl, ?_⟩
      rw [← bound, Nat.zero_add, Nat.add_comm 1]
  | succ offset => exact ⟨_, node?_shift present offset.succ_pos isMoved, rfl, rfl⟩

theorem subtree_eq_range' (present : document.node? id = some node) :
    document.subtree id = List.range' id (node.stop - id) := by
  rw [subtree, present]

theorem isMapBelow_ofTree (present : (ofTree root).node? id = some node) :
    (ofTree node.element).IsMapBelow (ofTree root) id where
  ids := by
    have bound := stop_of_node?_ofTree present
    have size : (ofTree node.element).size = (node.element.nodes node.toPlace id).length := by
      rw [(node.element.lists_nodes node.toPlace id).length_eq,
        ← (node.element.lists_nodes .root 0).length_eq]
      exact List.size_toArray
    rw [subtree_eq_range' present, ← bound, Nat.add_sub_cancel_left, all, size,
      List.range'_eq_map_range]
  nodes offset moved isMoved := by
    obtain ⟨found, isFound, sameElement, ends⟩ := exists_node?_add present isMoved
    refine ⟨found, isFound, sameElement, ?_⟩
    rw [subtree_eq_range' isFound, subtree_eq_range' isMoved, ends, Nat.add_sub_add_left,
      List.map_add_range']
  places offset moved notRoot isMoved := by
    have isFound := node?_shift present notRoot isMoved
    have hasParent := (isMapOf_ofTree node.element).orphan offset moved isMoved
    obtain ⟨parent, isParent⟩ := Option.ne_none_iff_exists'.mp
      fun isTop => Nat.ne_of_gt notRoot (hasParent.mp isTop)
    refine ⟨_, parent, isFound, rfl, rfl, rfl, isParent, ?_⟩
    exact congrArg (Option.map (id + ·)) isParent

/-- A subtree of a map is the map of its root's element, moved: that element is mapped within any
limit that the tree is mapped within, and whatever the limit, its map has the nodes of the subtree,
counted from zero. -/
theorem ofElement_isMapBelow (mapped : ofElement limit root = .ok document)
    (present : document.node? id = some node) :
    (∃ own, ofElement limit node.element = .ok own) ∧
      ∀ sufficient own, ofElement sufficient node.element = .ok own →
        own.size = (document.subtree id).length ∧ own.IsMapBelow document id := by
  refine ⟨⟨_, ofElement_of_node? mapped present⟩, fun sufficient own mappedOwn => ?_⟩
  rw [eq_ofTree_of_ofElement mapped] at present ⊢
  rw [eq_ofTree_of_ofElement mappedOwn]
  have isBelow := isMapBelow_ofTree present
  refine ⟨?_, isBelow⟩
  rw [isBelow.ids, List.length_map, all, List.length_range]

/-- The array in `{"a": null, "b": [[true], null]}`, whose nodes are those from 2 on. -/
theorem ofElement_isMapBelow_array :
    let array : Element := .array none [.array none [.scalar none (.bool true)], .scalar none .null]
    let root : Element := .keyed none .object [("a", .scalar none .null), ("b", array)]
    let document := ofTree root
    ofElement 3 root = .ok document ∧ document.node? 2 = some ⟨.entry 0 "b", 2, array, 6⟩ ∧
      ofElement 2 array = .ok (ofTree array) ∧ (ofTree array).size = 4 ∧
        (ofTree array).IsMapBelow document 2 := by
  intro array root document
  have mapped : ofElement 3 root = .ok document := ofElement_of_visit rfl
  have present : document.node? 2 = some ⟨.entry 0 "b", 2, array, 6⟩ := rfl
  have mappedOwn : ofElement 2 array = .ok (ofTree array) := ofElement_of_visit rfl
  obtain ⟨size, isBelow⟩ := (ofElement_isMapBelow mapped present).2 2 _ mappedOwn
  exact ⟨mapped, present, mappedOwn, size, isBelow⟩

end Document

end TreeQuery
