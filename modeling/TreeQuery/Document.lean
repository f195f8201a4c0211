import TreeQuery.Element
import TreeQuery.Vocabulary

/-!
Mapped documents: the elements of a tree in document order, each with its place in the tree.

Document order is pre-order: an element comes before what it contains, and its contents come in the
order of the tree. The position of a node in that order is its id, so a subtree is a run of ids
that starts at its root, and a parent has a smaller id than its children.
-/

namespace TreeQuery

abbrev NodeId := Nat

structure Place where
  parent : Option NodeId
  /-- The key of an entry; empty for array elements and the root. -/
  key : String
  /-- The position in an array, from 1; zero for everything else. -/
  index : Nat
  /-- The length of the array; zero for everything else. -/
  siblings : Nat
  deriving DecidableEq, Repr

namespace Place

def root : Place :=
  ⟨none, "", 0, 0⟩

def entry (parent : NodeId) (key : String) : Place :=
  ⟨some parent, key, 0, 0⟩

def item (parent : NodeId) (index siblings : Nat) : Place :=
  ⟨some parent, "", index, siblings⟩

end Place

structure Node extends Place where
  id : NodeId
  element : Element
  /-- The first id after the subtree of the node. -/
  stop : NodeId

namespace Node

def isRoot (node : Node) : Bool :=
  node.parent.isNone

end Node

namespace Element

mutual

/-- The nodes of a subtree whose root has a given place and id. -/
def nodes (place : Place) (id : NodeId) : Element → List Node
  | .scalar declared value => [⟨place, id, .scalar declared value, id + 1⟩]
  | .array declared items =>
      let below := itemNodes id 1 items.length (id + 1) items
      ⟨place, id, .array declared items, id + 1 + below.length⟩ :: below
  | .keyed declared shape entries =>
      let below := entryNodes id (id + 1) entries
      ⟨place, id, .keyed declared shape entries, id + 1 + below.length⟩ :: below

/-- The nodes of the items of an array from a given index on. -/
def itemNodes (parent : NodeId) (index siblings : Nat) (id : NodeId) : List Element → List Node
  | [] => []
  | item :: items =>
      let front := nodes (.item parent index siblings) id item
      front ++ itemNodes parent (index + 1) siblings (id + front.length) items

def entryNodes (parent : NodeId) (id : NodeId) : List (String × Element) → List Node
  | [] => []
  | (key, value) :: entries =>
      let front := nodes (.entry parent key) id value
      front ++ entryNodes parent (id + front.length) entries

end

/-- Whether the parents of a run of nodes come before them, the run starting at an id. -/
def ParentsBefore (id : Nat) (nodes : List Node) : Prop :=
  ∀ (offset : Nat) (node : Node) (parent : Nat), nodes[offset]? = some node →
    node.parent = some parent → parent < id + offset

theorem ParentsBefore.append {id : Nat} {front back : List Node}
    (frontBefore : ParentsBefore id front) (backBefore : ParentsBefore (id + front.length) back) :
    ParentsBefore id (front ++ back) := by
  intro offset node parent found isParent
  rw [List.getElem?_append] at found
  split at found
  · exact frontBefore _ _ _ found isParent
  · have := backBefore _ _ _ found isParent
    omega

theorem ParentsBefore.cons {id : Nat} {node : Node} {below : List Node}
    (nodeBefore : ∀ parent : Nat, node.parent = some parent → parent < id)
    (belowBefore : ParentsBefore (id + 1) below) : ParentsBefore id (node :: below) := by
  intro offset found parent spelled isParent
  cases offset with
  | zero =>
      cases spelled
      exact nodeBefore _ isParent
  | succ offset =>
      have := belowBefore _ _ _ spelled isParent
      omega

theorem ParentsBefore.nil {id : Nat} : ParentsBefore id [] := by
  intro offset node parent found
  simp at found

mutual

theorem nodes_parentsBefore (place : Place) (id : Nat)
    (placeBefore : ∀ parent : Nat, place.parent = some parent → parent < id) :
    (element : Element) → ParentsBefore id (element.nodes place id)
  | .scalar .. => by
      simp only [nodes]
      exact .cons placeBefore .nil
  | .array _ items => by
      simp only [nodes]
      exact .cons placeBefore (itemNodes_parentsBefore id _ _ _ (Nat.lt_succ_self id) items)
  | .keyed _ _ entries => by
      simp only [nodes]
      exact .cons placeBefore (entryNodes_parentsBefore id _ (Nat.lt_succ_self id) entries)

theorem itemNodes_parentsBefore (parent index siblings id : Nat)
    (before : parent < id) :
    (items : List Element) → ParentsBefore id (itemNodes parent index siblings id items)
  | [] => .nil
  | item :: items => by
      simp only [itemNodes]
      refine .append (nodes_parentsBefore _ _ ?_ item)
        (itemNodes_parentsBefore _ _ _ _ (Nat.lt_add_right _ before) items)
      intro other isParent
      cases isParent
      exact before

theorem entryNodes_parentsBefore (parent id : Nat) (before : parent < id) :
    (entries : List (String × Element)) → ParentsBefore id (entryNodes parent id entries)
  | [] => .nil
  | (key, value) :: entries => by
      simp only [entryNodes]
      refine .append (nodes_parentsBefore _ _ ?_ value)
        (entryNodes_parentsBefore _ _ (Nat.lt_add_right _ before) entries)
      intro other isParent
      cases isParent
      exact before

end

end Element

inductive NestingError where
  | tooDeep (limit : Nat)
  deriving DecidableEq, Repr

namespace NestingError

def message : NestingError → String
  | .tooDeep limit => "document nesting exceeds the limit of " ++ toString limit ++ " levels"

end NestingError

/-! ## Mapping

A tree is mapped by a walk that adds every node before what is below it. Where a subtree ends is
known only after it was walked, and is written into its root then.
-/

namespace Element

/-- Ends the subtree of a node behind all nodes mapped so far. -/
def close (id : NodeId) (mapped : Array Node) : Array Node :=
  mapped.modify id fun node => { node with stop := mapped.size }

mutual

/-- Maps an element at a depth and all below it, behind the nodes mapped so far. -/
def visit (limit : Nat) (place : Place) (depth : Nat) (mapped : Array Node) (element : Element) :
    Except NestingError (Array Node) :=
  if limit < depth then
    .error (.tooDeep limit)
  else
    let id := mapped.size
    let opened := mapped.push ⟨place, id, element, id + 1⟩
    match element with
    | .scalar .. => .ok (close id opened)
    | .array _ items =>
        match visitItems limit id 1 items.length (depth + 1) opened items with
        | .error error => .error error
        | .ok below => .ok (close id below)
    | .keyed _ _ entries =>
        match visitEntries limit id (depth + 1) opened entries with
        | .error error => .error error
        | .ok below => .ok (close id below)

def visitItems (limit : Nat) (parent : NodeId) (index siblings depth : Nat) (mapped : Array Node) :
    List Element → Except NestingError (Array Node)
  | [] => .ok mapped
  | item :: items =>
      match visit limit (.item parent index siblings) depth mapped item with
      | .error error => .error error
      | .ok mapped => visitItems limit parent (index + 1) siblings depth mapped items

def visitEntries (limit : Nat) (parent : NodeId) (depth : Nat) (mapped : Array Node) :
    List (String × Element) → Except NestingError (Array Node)
  | [] => .ok mapped
  | (key, value) :: entries =>
      match visit limit (.entry parent key) depth mapped value with
      | .error error => .error error
      | .ok mapped => visitEntries limit parent depth mapped entries

end

theorem modify_append_cons (change : Node → Node) (front : List Node) (node : Node)
    (back : List Node) :
    (front ++ node :: back).modify front.length change = front ++ change node :: back := by
  induction front with
  | nil => rfl
  | cons first front induction =>
      rw [List.length_cons, List.cons_append, List.modify_succ_cons, induction]
      rfl

/-- Once everything below a node is mapped, closing it ends its subtree there. -/
theorem toList_close {mapped below : Array Node} {node : Node} {back : List Node}
    (belowAre : below.toList = (mapped.push node).toList ++ back) :
    (close mapped.size below).toList =
      mapped.toList ++ { node with stop := mapped.size + 1 + back.length } :: back := by
  have size : below.size = mapped.size + 1 + back.length := by
    rw [← Array.length_toList, belowAre, List.length_append, Array.length_toList, Array.size_push]
  have spelled : below.toList = mapped.toList ++ node :: back := by
    rw [belowAre, Array.toList_push, List.append_assoc, List.singleton_append]
  rw [close, Array.toList_modify, spelled, size, ← Array.length_toList]
  exact modify_append_cons _ _ _ _

mutual

theorem toList_visit {limit : Nat} {place : Place} {depth : Nat} {mapped result : Array Node} :
    (element : Element) → visit limit place depth mapped element = .ok result →
      result.toList = mapped.toList ++ element.nodes place mapped.size
  | .scalar declared value, found => by
      rw [visit] at found
      split at found
      · cases found
      · cases found
        exact toList_close (List.append_nil _).symm
  | .array declared items, found => by
      rw [visit] at found
      split at found
      · cases found
      · dsimp only at found
        split at found
        · cases found
        · rename_i below visited
          cases found
          have belowAre := toList_visitItems items visited
          rw [Array.size_push] at belowAre
          exact toList_close belowAre
  | .keyed declared shape entries, found => by
      rw [visit] at found
      split at found
      · cases found
      · dsimp only at found
        split at found
        · cases found
        · rename_i below visited
          cases found
          have belowAre := toList_visitEntries entries visited
          rw [Array.size_push] at belowAre
          exact toList_close belowAre

theorem toList_visitItems {limit parent index siblings depth : Nat} {mapped result : Array Node} :
    (items : List Element) →
      visitItems limit parent index siblings depth mapped items = .ok result →
        result.toList = mapped.toList ++ itemNodes parent index siblings mapped.size items
  | [], found => by
      cases found
      exact (List.append_nil _).symm
  | item :: items, found => by
      rw [visitItems] at found
      split at found
      · cases found
      · rename_i front visited
        have frontAre := toList_visit item visited
        have size := congrArg List.length frontAre
        rw [List.length_append, Array.length_toList, Array.length_toList] at size
        rw [toList_visitItems items found, frontAre, size, List.append_assoc]
        rfl

theorem toList_visitEntries {limit parent depth : Nat} {mapped result : Array Node} :
    (entries : List (String × Element)) →
      visitEntries limit parent depth mapped entries = .ok result →
        result.toList = mapped.toList ++ entryNodes parent mapped.size entries
  | [], found => by
      cases found
      exact (List.append_nil _).symm
  | (key, value) :: entries, found => by
      rw [visitEntries] at found
      split at found
      · cases found
      · rename_i front visited
        have frontAre := toList_visit value visited
        have size := congrArg List.length frontAre
        rw [List.length_append, Array.length_toList, Array.length_toList] at size
        rw [toList_visitEntries entries found, frontAre, size, List.append_assoc]
        rfl

end

end Element

structure Document where
  nodes : Array Node
  parent_lt : ∀ (id : Nat) (node : Node) (parent : Nat), nodes[id]? = some node →
    node.parent = some parent → parent < id

namespace Document

/-- The nesting limit that applies when none is given. -/
def defaultLimit : Nat :=
  512

/-- The map of a tree, whatever its depth. -/
def ofTree (root : Element) : Document where
  nodes := (root.nodes .root 0).toArray
  parent_lt := by
    intro id node parent found isParent
    rw [List.getElem?_toArray] at found
    have before := root.nodes_parentsBefore .root 0 (by rintro _ ⟨⟩) id node parent found isParent
    omega

theorem nodes_of_visit {limit : Nat} {root : Element} {mapped : Array Node}
    (visited : root.visit limit .root 0 #[] = .ok mapped) : mapped = (ofTree root).nodes := by
  apply Array.toList_inj.mp
  rw [Element.toList_visit root visited]
  rfl

/-- The map of a tree in which nothing is more than `limit` edges below the root. -/
def ofElement (limit : Nat) (root : Element) : Except NestingError Document :=
  match _visited : root.visit limit .root 0 #[] with
  | .error error => .error error
  | .ok mapped => .ok ⟨mapped, nodes_of_visit _visited ▸ (ofTree root).parent_lt⟩

def size (document : Document) : Nat :=
  document.nodes.size

def node? (document : Document) (id : NodeId) : Option Node :=
  document.nodes[id]?

def parent? (document : Document) (id : NodeId) : Option NodeId :=
  (document.node? id).bind fun node => node.parent

/-- All ids, in document order. -/
def all (document : Document) : List NodeId :=
  List.range document.size

/-- The ids of the subtree of a node, in document order; none for an id that is not in the map. -/
def subtree (document : Document) (id : NodeId) : List NodeId :=
  match document.node? id with
  | some node => List.range' id (node.stop - id)
  | none => []

/-- Whether a node lies in the subtree of another one. -/
def within (document : Document) (id ancestor : NodeId) : Bool :=
  match document.node? ancestor with
  | some node => ancestor ≤ id && id < node.stop
  | none => false

theorem parent?_lt {document : Document} {id parent : Nat}
    (found : document.parent? id = some parent) : parent < id := by
  obtain ⟨node, present, isParent⟩ := Option.bind_eq_some_iff.mp found
  exact document.parent_lt _ _ _ present isParent

/-- A node, its parent, and so on up to the root. -/
def lineage (document : Document) (id : NodeId) : List NodeId :=
  id :: match _found : document.parent? id with
    | none => []
    | some parent => lineage document parent
  termination_by id
  decreasing_by exact parent?_lt _found

/-! ## Relations

Each relation keeps the nodes on the right that stand in it to some node on the left, in the order
in which they are listed. A node that is listed twice is kept twice.
-/

/-- The parents of listed nodes, once for each child; the root has none. -/
def parents (document : Document) (ids : List NodeId) : List NodeId :=
  ids.filterMap document.parent?

/-- The nodes that are the parent of a listed node, each once, in document order. -/
def distinctParents (document : Document) (ids : List NodeId) : List NodeId :=
  let parents := document.parents ids
  document.all.filter parents.contains

/-- The nodes on the right whose parent is on the left. -/
def children (document : Document) (left right : List NodeId) : List NodeId :=
  right.filter fun id => (document.parent? id).any left.contains

/-- The nodes on the right that share their parent with a node on the left. A node shares its
parent with itself. -/
def siblings (document : Document) (left right : List NodeId) : List NodeId :=
  document.children (document.parents left) right

/-- The nodes on the right that are on the left or lie below a node on the left. -/
def descendants (document : Document) (left right : List NodeId) : List NodeId :=
  right.filter fun id => (document.lineage id).any left.contains

/-- The nodes that a combinator makes of the matches on its two sides. -/
def combine (document : Document) (combinator : Combinator) (left right : List NodeId) :
    List NodeId :=
  match combinator with
  | .union => left ++ right
  | .child => document.children left right
  | .sibling => document.siblings left right
  | .descendant => document.descendants left right

end Document

end TreeQuery
