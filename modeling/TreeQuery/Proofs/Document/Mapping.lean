import TreeQuery.Proofs.Document.Listing

/-!
What a map says about its tree.

A map that is made at all `IsMapOf` its tree: its nodes are the listing of the tree, and each node
has the place that the collection above it gives to its contents. Only the depth of the tree
decides whether the map is made.
-/

namespace TreeQuery

namespace Element

/-- The nodes of subtrees with their places, one behind the other from an id on. -/
def placedNodes (id : NodeId) : List (Place × Element) → List Node
  | [] => []
  | (place, child) :: others =>
      let front := child.nodes place id
      front ++ placedNodes (id + front.length) others

theorem itemNodes_eq (parent index siblings id : Nat) (items : List Element) :
    itemNodes parent index siblings id items =
      placedNodes id
        (((List.range' index items.length).map fun index => .item parent index siblings).zip
          items) := by
  induction items generalizing index id with
  | nil => rfl
  | cons item items induction =>
      rw [itemNodes, List.length_cons, List.range'_succ, List.map_cons, List.zip_cons_cons,
        placedNodes]
      rw [induction]

theorem entryNodes_eq (parent id : Nat) (entries : List (String × Element)) :
    entryNodes parent id entries =
      placedNodes id
        ((entries.map fun entry => .entry parent entry.1).zip (entries.map Prod.snd)) := by
  induction entries generalizing id with
  | nil => rfl
  | cons entry entries induction =>
      rw [entryNodes, List.map_cons, List.map_cons, List.zip_cons_cons, placedNodes]
      rw [induction]

/-- The nodes below an element whose id is `id`. -/
def nodesBelow (id : NodeId) (element : Element) : List Node :=
  placedNodes (id + 1) ((element.places id).zip element.contents)

theorem nodes_eq (place : Place) (id : NodeId) (element : Element) :
    element.nodes place id =
      ⟨place, id, element, id + 1 + (element.nodesBelow id).length⟩ :: element.nodesBelow id := by
  cases element with
  | scalar declared value => rfl
  | array declared items => rw [nodes, itemNodes_eq]; rfl
  | keyed declared shape entries => rw [nodes, entryNodes_eq]; rfl

theorem length_places (id : NodeId) (element : Element) :
    (element.places id).length = element.contents.length := by
  cases element with
  | scalar declared value => rfl
  | array declared items => simp [places, contents]
  | keyed declared shape entries => simp [places, contents]

/-- A run of nodes from an id on, one for each entry of a listing. -/
structure Lists (id : NodeId) (entries : List (Path × Element)) (nodes : List Node) : Prop where
  ids : nodes.map Node.id = List.range' id nodes.length
  elements : nodes.map Node.element = entries.map Prod.snd
  stops : ∀ node ∈ nodes, node.stop = node.id + node.element.listing.length

theorem Lists.length_eq {id : NodeId} {entries : List (Path × Element)} {nodes : List Node}
    (lists : Lists id entries nodes) : nodes.length = entries.length := by
  have lengths := congrArg List.length lists.elements
  rw [List.length_map, List.length_map] at lengths
  exact lengths

theorem Lists.id_of_getElem? {id : NodeId} {entries : List (Path × Element)} {nodes : List Node}
    (lists : Lists id entries nodes) {index : Nat} {node : Node}
    (present : nodes[index]? = some node) : node.id = id + index := by
  have inside : index < nodes.length := (List.getElem?_eq_some_iff.mp present).1
  have ids := congrArg (fun ids => ids[index]?) lists.ids
  rw [List.getElem?_map, present, List.getElem?_range' inside, Nat.one_mul] at ids
  exact Option.some.inj ids

theorem Lists.exists_entry {id : NodeId} {entries : List (Path × Element)} {nodes : List Node}
    (lists : Lists id entries nodes) {index : Nat} {node : Node}
    (present : nodes[index]? = some node) :
    ∃ path, entries[index]? = some (path, node.element) := by
  have elements := congrArg (fun elements => elements[index]?) lists.elements
  rw [List.getElem?_map, present, List.getElem?_map] at elements
  obtain ⟨⟨path, element⟩, listed, same⟩ := Option.map_eq_some_iff.mp elements.symm
  exact ⟨path, by rw [listed, ← same]⟩

theorem Lists.append {id : NodeId} {front back : List (Path × Element)}
    {frontNodes backNodes : List Node} (first : Lists id front frontNodes)
    (second : Lists (id + frontNodes.length) back backNodes) :
    Lists id (front ++ back) (frontNodes ++ backNodes) where
  ids := by
    rw [List.map_append, first.ids, second.ids, List.length_append, List.range'_append_1]
  elements := by
    rw [List.map_append, first.elements, second.elements, List.map_append]
  stops := by
    intro node member
    rcases List.mem_append.mp member with member | member
    · exact first.stops node member
    · exact second.stops node member

theorem Lists.beneath {id : NodeId} {entries : List (Path × Element)} {nodes : List Node}
    (lists : Lists id entries nodes) (offset : Nat) :
    Lists id (entries.map (beneath offset)) nodes where
  ids := lists.ids
  elements := by
    rw [lists.elements, List.map_map]
    rfl
  stops := lists.stops

theorem lists_placedNodes {children : List Element}
    (childrenList : ∀ child ∈ children, ∀ place id, Lists id child.listing (child.nodes place id))
    (places : List Place) (sameLength : places.length = children.length) (id offset : Nat) :
    Lists id (itemListing offset children) (placedNodes id (places.zip children)) := by
  induction children generalizing places id offset with
  | nil =>
      rw [List.zip_nil_right]
      exact ⟨rfl, rfl, by simp [placedNodes]⟩
  | cons child children induction =>
      cases places with
      | nil => cases sameLength
      | cons place places =>
          have first := childrenList child List.mem_cons_self place id
          have others := induction
            (fun child member => childrenList child (List.mem_cons_of_mem _ member))
            places (Nat.succ.inj sameLength) (id + (child.nodes place id).length) (offset + 1)
          exact (first.beneath offset).append others

/-- The nodes of a tree are its listing. -/
theorem lists_nodes (element : Element) (place : Place) (id : NodeId) :
    Lists id element.listing (element.nodes place id) := by
  induction element using induct generalizing place id with
  | step element induction =>
      have below : Lists (id + 1) (itemListing 0 element.contents) (element.nodesBelow id) :=
        lists_placedNodes induction _ (length_places id element) (id + 1) 0
      have size : element.listing.length = (element.nodesBelow id).length + 1 := by
        rw [listing_eq, List.length_cons, below.length_eq]
      rw [nodes_eq]
      refine ⟨?_, ?_, ?_⟩
      · rw [List.map_cons, below.ids, List.length_cons, List.range'_succ]
      · rw [List.map_cons, below.elements, listing_eq, List.map_cons]
      · intro node member
        rcases List.mem_cons.mp member with same | member
        · rw [same]
          dsimp only
          rw [size, Nat.add_assoc, Nat.add_comm 1]
        · exact below.stops node member

/-- Each pair of entry and node below some contents comes from one of them, all of whose pairs are
there, with its offset before their paths. -/
theorem mem_zip_placedNodes {children : List Element} {places : List Place}
    (sameLength : places.length = children.length) {id offset : Nat} {entry : Path × Element}
    {node : Node}
    (member : (entry, node) ∈
      (itemListing offset children).zip (placedNodes id (places.zip children))) :
    ∃ index start child place inner,
      children[index]? = some child ∧ places[index]? = some place ∧
        entry = beneath (offset + index) inner ∧
          (inner, node) ∈ child.listing.zip (child.nodes place start) ∧
            ∀ pair ∈ child.listing.zip (child.nodes place start),
              (beneath (offset + index) pair.1, pair.2) ∈
                (itemListing offset children).zip (placedNodes id (places.zip children)) := by
  induction children generalizing places id offset with
  | nil => simp [itemListing] at member
  | cons child children induction =>
      cases places with
      | nil => cases sameLength
      | cons place places =>
          have sizes : (child.listing.map (beneath offset)).length =
              (child.nodes place id).length := by
            rw [List.length_map, (lists_nodes child place id).length_eq]
          have split : (itemListing offset (child :: children)).zip
                (placedNodes id ((place :: places).zip (child :: children))) =
              (child.listing.map (beneath offset)).zip (child.nodes place id) ++
                (itemListing (offset + 1) children).zip
                  (placedNodes (id + (child.nodes place id).length) (places.zip children)) :=
            List.zip_append sizes
          rw [split] at member
          rw [split]
          rcases List.mem_append.mp member with front | back
          · rw [List.zip_map_left] at front
            obtain ⟨⟨inner, found⟩, innerMember, spelled⟩ := List.mem_map.mp front
            cases spelled
            refine ⟨0, id, child, place, inner, rfl, rfl, rfl, innerMember, ?_⟩
            intro pair pairMember
            rw [List.zip_map_left]
            exact List.mem_append_left _ (List.mem_map.mpr ⟨pair, pairMember, rfl⟩)
          · obtain ⟨index, start, found, foundPlace, inner, there, placed, spelled, innerMember,
              all⟩ := induction (Nat.succ.inj sameLength) back
            refine ⟨index + 1, start, found, foundPlace, inner, there, placed, ?_, innerMember, ?_⟩
            · rw [spelled, Nat.add_assoc, Nat.add_comm 1]
            · intro pair pairMember
              rw [← Nat.add_assoc, Nat.add_right_comm]
              exact List.mem_append_right _ (all pair pairMember)

/-- The place of a node is that of the root, or the one that the collection at the end of its path
gives to its contents. -/
theorem placed_of_mem_zip (element : Element) (place : Place) (id : NodeId)
    {entry : Path × Element} {node : Node}
    (member : (entry, node) ∈ element.listing.zip (element.nodes place id)) :
    (entry.1 = [] ∧ node.toPlace = place) ∨
      ∃ above offset holder parent,
        entry.1 = above ++ [offset] ∧
          ((above, holder), parent) ∈ element.listing.zip (element.nodes place id) ∧
            holder.contents[offset]? = some entry.2 ∧
              (holder.places parent.id)[offset]? = some node.toPlace := by
  induction element using induct generalizing place id entry node with
  | step element induction =>
      rw [listing_eq, nodes_eq, List.zip_cons_cons] at member
      rw [listing_eq, nodes_eq, List.zip_cons_cons]
      rcases List.mem_cons.mp member with root | below
      · cases root
        exact .inl ⟨rfl, rfl⟩
      · obtain ⟨index, start, child, childPlace, inner, there, placed, spelled, innerMember, all⟩ :=
          mem_zip_placedNodes (length_places id element) below
        rw [Nat.zero_add] at spelled all
        have childMember := List.mem_of_getElem? there
        right
        rcases induction child childMember childPlace start innerMember with top | inside
        · obtain ⟨atRoot, samePlace⟩ := top
          have same : inner.2 = child := by
            have listed : ([], inner.2) ∈ child.listing := atRoot ▸ (List.of_mem_zip innerMember).1
            exact (Option.some.inj (mem_listing_iff.mp listed)).symm
          refine ⟨[], index, element, _, ?_, List.mem_cons_self, ?_, ?_⟩
          · rw [spelled, beneath, atRoot]
            rfl
          · rw [spelled, beneath, same, there]
          · rw [samePlace, placed]
        · obtain ⟨above, offset, holder, parent, path, parentMember, held, given⟩ := inside
          refine ⟨index :: above, offset, holder, parent, ?_,
            List.mem_cons_of_mem _ (all _ parentMember), ?_, given⟩
          · rw [spelled, beneath, path]
            rfl
          · rw [spelled, beneath, held]

/-! ## Depth -/

/-- Maps subtrees with their places, one behind the other. -/
def visitPlaced (limit depth : Nat) (mapped : Array Node) :
    List (Place × Element) → Except NestingError (Array Node)
  | [] => .ok mapped
  | (place, child) :: others =>
      match visit limit place depth mapped child with
      | .error error => .error error
      | .ok mapped => visitPlaced limit depth mapped others

theorem visitItems_eq (limit parent index siblings depth : Nat) (mapped : Array Node)
    (items : List Element) :
    visitItems limit parent index siblings depth mapped items =
      visitPlaced limit depth mapped
        (((List.range' index items.length).map fun index => .item parent index siblings).zip
          items) := by
  induction items generalizing index mapped with
  | nil => rfl
  | cons item items induction =>
      rw [visitItems, List.length_cons, List.range'_succ, List.map_cons, List.zip_cons_cons,
        visitPlaced]
      cases visit limit (.item parent index siblings) depth mapped item with
      | error error => rfl
      | ok mapped => exact induction (index + 1) mapped

theorem visitEntries_eq (limit parent depth : Nat) (mapped : Array Node)
    (entries : List (String × Element)) :
    visitEntries limit parent depth mapped entries =
      visitPlaced limit depth mapped
        ((entries.map fun entry => .entry parent entry.1).zip (entries.map Prod.snd)) := by
  induction entries generalizing mapped with
  | nil => rfl
  | cons entry entries induction =>
      rw [visitEntries, List.map_cons, List.map_cons, List.zip_cons_cons, visitPlaced]
      cases visit limit (.entry parent entry.1) depth mapped entry.2 with
      | error error => rfl
      | ok mapped => exact induction mapped

/-- The nodes mapped so far with one more, whose subtree is still open. -/
def opened (place : Place) (mapped : Array Node) (element : Element) : Array Node :=
  mapped.push ⟨place, mapped.size, element, mapped.size + 1⟩

theorem visit_eq (limit : Nat) (place : Place) (depth : Nat) (mapped : Array Node)
    (element : Element) :
    visit limit place depth mapped element =
      if limit < depth then
        .error (.tooDeep limit)
      else
        match visitPlaced limit (depth + 1) (element.opened place mapped)
            ((element.places mapped.size).zip element.contents) with
        | .error error => .error error
        | .ok below => .ok (close mapped.size below) := by
  cases element with
  | scalar declared value => rfl
  | array declared items =>
      rw [visit]
      dsimp only
      rw [visitItems_eq]
      rfl
  | keyed declared shape entries =>
      rw [visit]
      dsimp only
      rw [visitEntries_eq]
      rfl

/-- Whether nothing in a listing is more than `limit` edges below a root, when the listed tree
itself hangs `depth` edges below it. -/
def Fits (limit depth : Nat) (entries : List (Path × Element)) : Prop :=
  ∀ entry ∈ entries, depth + entry.1.length ≤ limit

theorem fits_beneath {limit depth offset : Nat} {entries : List (Path × Element)} :
    Fits limit depth (entries.map (beneath offset)) ↔ Fits limit (depth + 1) entries := by
  rw [Fits, List.forall_mem_map]
  refine forall₂_congr fun entry _ => ?_
  rw [beneath, List.length_cons, Nat.add_assoc, Nat.add_comm 1]

theorem fits_append {limit depth : Nat} {front back : List (Path × Element)} :
    Fits limit depth (front ++ back) ↔ Fits limit depth front ∧ Fits limit depth back :=
  List.forall_mem_append

theorem fits_listing {limit depth : Nat} {element : Element} :
    Fits limit depth element.listing ↔
      depth ≤ limit ∧ Fits limit depth (itemListing 0 element.contents) := by
  rw [listing_eq, Fits, List.forall_mem_cons]
  rfl

/-- A walk either goes through a tree that fits below its limit or ends at that limit. -/
def Decides {Result : Type} (fits : Prop) (limit : Nat) (walk : Except NestingError Result) :
    Prop :=
  (fits ∧ ∃ result, walk = .ok result) ∨ (¬ fits ∧ walk = .error (.tooDeep limit))

theorem visitPlaced_decides {limit depth : Nat} {children : List Element}
    (childrenDecide : ∀ child ∈ children, ∀ place depth mapped,
      Decides (Fits limit depth child.listing) limit (visit limit place depth mapped child))
    (places : List Place) (sameLength : places.length = children.length) (mapped : Array Node)
    (offset : Nat) :
    Decides (Fits limit depth (itemListing offset children)) limit
      (visitPlaced limit (depth + 1) mapped (places.zip children)) := by
  induction children generalizing places mapped offset with
  | nil =>
      rw [List.zip_nil_right]
      exact .inl ⟨by simp [Fits, itemListing], mapped, rfl⟩
  | cons child children induction =>
      cases places with
      | nil => cases sameLength
      | cons place places =>
          rw [List.zip_cons_cons, visitPlaced, itemListing, Decides, fits_append, fits_beneath]
          rcases childrenDecide child List.mem_cons_self place (depth + 1) mapped with
            ⟨fits, front, visited⟩ | ⟨deep, failed⟩
          · rw [visited]
            dsimp only
            rw [and_iff_right fits]
            have others := fun child member => childrenDecide child (List.mem_cons_of_mem _ member)
            exact induction others places (Nat.succ.inj sameLength) front (offset + 1)
          · rw [failed]
            exact .inr ⟨fun fits => deep fits.1, rfl⟩

/-- Only the depth of a tree decides whether it is mapped. -/
theorem visit_decides (limit : Nat) (element : Element) (place : Place) (depth : Nat)
    (mapped : Array Node) :
    Decides (Fits limit depth element.listing) limit (visit limit place depth mapped element) := by
  induction element using induct generalizing place depth mapped with
  | step element induction =>
      rw [visit_eq, Decides, fits_listing]
      by_cases tooDeep : limit < depth
      · rw [if_pos tooDeep]
        exact .inr ⟨fun fits => Nat.not_le_of_lt tooDeep fits.1, rfl⟩
      · rw [if_neg tooDeep, and_iff_right (Nat.not_lt.mp tooDeep)]
        rcases visitPlaced_decides induction _ (length_places mapped.size element)
            (element.opened place mapped) 0 with ⟨fits, below, visited⟩ | ⟨deep, failed⟩
        · rw [visited]
          exact .inl ⟨fits, _, rfl⟩
        · rw [failed]
          exact .inr ⟨deep, rfl⟩

theorem parent_of_mem_places {id : NodeId} {element : Element} {place : Place}
    (member : place ∈ element.places id) : place.parent = some id := by
  cases element with
  | scalar declared value => simp [places] at member
  | array declared items =>
      obtain ⟨index, _, rfl⟩ := List.mem_map.mp member
      rfl
  | keyed declared shape entries =>
      obtain ⟨entry, _, rfl⟩ := List.mem_map.mp member
      rfl

end Element

namespace Document

/-- The nodes of a map are the elements of a tree in document order, with their places. -/
structure IsMapOf (document : Document) (root : Element) : Prop where
  /-- The listing of the tree has each of its elements once, at its path. -/
  complete : ∀ path element, (path, element) ∈ root.listing ↔ root.at? path = some element
  /-- It is a pre-order: a path comes before those that go on from it or turn off later. -/
  ascending : root.listing.Pairwise fun first second => first.1 < second.1
  elements : document.nodes.toList.map Node.element = root.listing.map Prod.snd
  ids : ∀ id node, document.node? id = some node → node.id = id
  stops : ∀ id node, document.node? id = some node → node.stop = id + node.element.listing.length
  orphan : ∀ id node, document.node? id = some node → (node.parent = none ↔ id = 0)
  top : ∀ node, document.node? 0 = some node → node.toPlace = .root
  /-- Every other node has the place that the collection above it gives to its contents. -/
  below : ∀ id node, 0 < id → document.node? id = some node →
    ∃ above offset holder parent,
      root.listing[id]? = some (above ++ [offset], node.element) ∧ parent < id ∧
        root.listing[parent]? = some (above, holder) ∧
          holder.contents[offset]? = some node.element ∧
            (holder.places parent)[offset]? = some node.toPlace

theorem node?_ofTree (root : Element) (id : Nat) :
    (ofTree root).node? id = (root.nodes .root 0)[id]? :=
  List.getElem?_toArray

variable {root : Element} {id : Nat} {node : Node}

theorem id_of_node?_ofTree (present : (ofTree root).node? id = some node) : node.id = id := by
  rw [node?_ofTree] at present
  rw [(root.lists_nodes .root 0).id_of_getElem? present, Nat.zero_add]

theorem exists_entry_of_node? (present : (ofTree root).node? id = some node) :
    ∃ path, root.listing[id]? = some (path, node.element) := by
  rw [node?_ofTree] at present
  exact (root.lists_nodes .root 0).exists_entry present

theorem node?_zero_ofTree (present : (ofTree root).node? 0 = some node) :
    node.toPlace = .root := by
  rw [node?_ofTree, Element.nodes_eq] at present
  cases present
  rfl

/-- Only the root has the empty path. -/
theorem listing_ne_nil {element : Element} {path : Path} (positive : 0 < id)
    (listed : root.listing[id]? = some (path, element)) : path ≠ [] := by
  have ascends := root.pairwise_listing
  rw [Element.listing_eq, List.pairwise_cons] at ascends
  rw [Element.listing_eq] at listed
  obtain ⟨index, rfl⟩ := Nat.exists_eq_add_of_lt positive
  rw [Nat.zero_add, List.getElem?_cons_succ] at listed
  have before := ascends.1 _ (List.mem_of_getElem? listed)
  intro empty
  rw [empty] at before
  exact absurd before (List.lt_irrefl [])

theorem placed_of_node? (positive : 0 < id) (present : (ofTree root).node? id = some node) :
    ∃ above offset, ∃ holder : Element, ∃ parent,
      root.listing[id]? = some (above ++ [offset], node.element) ∧
        root.listing[parent]? = some (above, holder) ∧
          holder.contents[offset]? = some node.element ∧
            (holder.places parent)[offset]? = some node.toPlace := by
  obtain ⟨path, listed⟩ := exists_entry_of_node? present
  rw [node?_ofTree] at present
  have member : ((path, node.element), node) ∈ root.listing.zip (root.nodes .root 0) :=
    List.mem_iff_getElem?.mpr ⟨id, List.getElem?_zip_eq_some.mpr ⟨listed, present⟩⟩
  rcases root.placed_of_mem_zip .root 0 member with top | inside
  · exact absurd top.1 (listing_ne_nil positive listed)
  · obtain ⟨above, offset, holder, parentNode, spelled, parentMember, held, given⟩ := inside
    obtain ⟨parent, both⟩ := List.mem_iff_getElem?.mp parentMember
    obtain ⟨parentListed, parentPresent⟩ := List.getElem?_zip_eq_some.mp both
    have parentId := (root.lists_nodes .root 0).id_of_getElem? parentPresent
    rw [Nat.zero_add] at parentId
    dsimp only at spelled
    rw [spelled] at listed
    rw [parentId] at given
    exact ⟨above, offset, holder, parent, listed, parentListed, held, given⟩

/-- A node has the place that the collection above it gives to what it holds at this offset. -/
theorem place_of_listing {above : Path} {offset : Nat} {holder value : Element}
    (present : (ofTree root).node? id = some node)
    (listed : root.listing[id]? = some (above ++ [offset], value))
    (found : root.at? above = some holder) :
    value = node.element ∧ ∃ parent, (holder.places parent)[offset]? = some node.toPlace := by
  have positive : 0 < id := by
    refine Nat.pos_of_ne_zero ?_
    rintro rfl
    rw [Element.listing_eq, List.getElem?_cons_zero] at listed
    exact absurd (Prod.mk.inj (Option.some.inj listed)).1 (by simp)
  obtain ⟨otherAbove, otherOffset, otherHolder, parent, isListed, isAbove, _, given⟩ :=
    placed_of_node? positive present
  obtain ⟨samePath, sameValue⟩ := Prod.mk.inj (Option.some.inj (listed.symm.trans isListed))
  obtain ⟨rfl, sameOffset⟩ := List.append_inj' samePath rfl
  cases sameOffset
  cases found.symm.trans (Element.mem_listing_iff.mp (List.mem_of_getElem? isAbove))
  exact ⟨sameValue, parent, given⟩

/-- Only the root has the place of the root. -/
theorem exists_holder_of_node? (present : (ofTree root).node? id = some node)
    (notRoot : node.toPlace ≠ .root) :
    ∃ above offset, ∃ holder : Element, ∃ parent,
      root.listing[id]? = some (above ++ [offset], node.element) ∧
        root.at? above = some holder ∧ holder.contents[offset]? = some node.element ∧
          (holder.places parent)[offset]? = some node.toPlace := by
  have positive : 0 < id := by
    refine Nat.pos_of_ne_zero ?_
    rintro rfl
    exact notRoot (node?_zero_ofTree present)
  obtain ⟨above, offset, holder, parent, isListed, isAbove, held, given⟩ :=
    placed_of_node? positive present
  exact ⟨above, offset, holder, parent, isListed,
    Element.mem_listing_iff.mp (List.mem_of_getElem? isAbove), held, given⟩

theorem isMapOf_ofTree (root : Element) : (ofTree root).IsMapOf root where
  complete path element := Element.mem_listing_iff
  ascending := root.pairwise_listing
  elements := (root.lists_nodes .root 0).elements
  ids id node present := id_of_node?_ofTree present
  stops id node present := by
    have listed := present
    rw [node?_ofTree] at listed
    rw [(root.lists_nodes .root 0).stops node (List.mem_of_getElem? listed),
      id_of_node?_ofTree present]
  orphan id node present := by
    cases id with
    | zero =>
        have atRoot := congrArg Place.parent (node?_zero_ofTree present)
        exact ⟨fun _ => rfl, fun _ => atRoot⟩
    | succ id =>
        obtain ⟨_, _, holder, parent, _, _, _, given⟩ := placed_of_node? id.succ_pos present
        have held := Element.parent_of_mem_places (List.mem_of_getElem? given)
        rw [held]
        exact iff_of_false (Option.some_ne_none parent) id.succ_ne_zero
  top node present := node?_zero_ofTree present
  below id node positive present := by
    obtain ⟨above, offset, holder, parent, listed, parentListed, held, given⟩ :=
      placed_of_node? positive present
    have isParent := Element.parent_of_mem_places (List.mem_of_getElem? given)
    have before := (ofTree root).parent_lt id node parent present isParent
    exact ⟨above, offset, holder, parent, listed, before, parentListed, held, given⟩

theorem fits_iff {limit : Nat} :
    Element.Fits limit 0 root.listing ↔
      ∀ path element, root.at? path = some element → path.length ≤ limit := by
  simp only [Element.Fits, Prod.forall, Element.mem_listing_iff, Nat.zero_add]

theorem ofElement_of_visit {limit : Nat} {mapped : Array Node}
    (visited : root.visit limit .root 0 #[] = .ok mapped) :
    ofElement limit root = .ok (ofTree root) := by
  unfold ofElement
  split
  · rename_i failed
    rw [visited] at failed
    cases failed
  · rename_i found
    cases nodes_of_visit found
    rfl

theorem ofElement_of_visit_error {limit : Nat} {error : NestingError}
    (failed : root.visit limit .root 0 #[] = .error error) :
    ofElement limit root = .error error := by
  unfold ofElement
  split
  · rename_i found
    rw [failed] at found
    cases found
    rfl
  · rename_i visited
    rw [failed] at visited
    cases visited

/-- A tree is mapped unless an element of it is too deep, and the limit shows in nothing else: the
map has the elements of the tree in document order, each with its place in it. -/
theorem ofElement_isMapOf (limit : Nat) (root : Element) :
    ((∃ document, ofElement limit root = .ok document) ↔
        ∀ path element, root.at? path = some element → path.length ≤ limit) ∧
      (∀ error, ofElement limit root = .error error → error = .tooDeep limit) ∧
        ∀ document, ofElement limit root = .ok document →
          document = ofTree root ∧ document.IsMapOf root := by
  rw [← fits_iff]
  rcases root.visit_decides limit .root 0 #[] with ⟨fits, mapped, visited⟩ | ⟨deep, failed⟩
  · rw [ofElement_of_visit visited]
    refine ⟨iff_of_true ⟨_, rfl⟩ fits, ?_, ?_⟩
    · intro error failed
      cases failed
    · intro document mapped
      cases mapped
      exact ⟨rfl, isMapOf_ofTree root⟩
  · rw [ofElement_of_visit_error failed]
    refine ⟨iff_of_false ?_ deep, ?_, ?_⟩
    · intro mapped
      obtain ⟨document, mapped⟩ := mapped
      cases mapped
    · intro error failed
      cases failed
      rfl
    · intro document mapped
      cases mapped

end Document

end TreeQuery
