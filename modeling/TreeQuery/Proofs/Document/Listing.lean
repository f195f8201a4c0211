import TreeQuery.Document

/-!
Trees listed in document order.

A `Path` names an element of a tree by the offsets on the way down from the root, and
`Element.listing` has every element of a tree once, with its path, a collection before its
contents.
-/

namespace TreeQuery

/-- The offsets on the way down from a root. -/
abbrev Path := List Nat

namespace Element

/-- The elements that an element holds directly. -/
def contents : Element → List Element
  | .scalar .. => []
  | .array _ items => items
  | .keyed _ _ entries => entries.map Prod.snd

/-- The places of the contents of an element whose id is `id`. -/
def places (id : NodeId) : Element → List Place
  | .scalar .. => []
  | .array _ items => (List.range' 1 items.length).map fun index => .item id index items.length
  | .keyed _ _ entries => entries.map fun entry => .entry id entry.1

/-- The element at a path. -/
def at? (element : Element) : Path → Option Element
  | [] => some element
  | offset :: path => element.contents[offset]?.bind fun child => child.at? path

/-- An element with its path, seen from the collection that holds it at an offset. -/
def beneath (offset : Nat) (entry : Path × Element) : Path × Element :=
  (offset :: entry.1, entry.2)

mutual

/-- The elements of a tree in pre-order, with their paths. -/
def listing : Element → List (Path × Element)
  | .scalar declared value => [([], .scalar declared value)]
  | .array declared items => ([], .array declared items) :: itemListing 0 items
  | .keyed declared shape entries => ([], .keyed declared shape entries) :: entryListing 0 entries

/-- The elements of the trees of items from an offset on. -/
def itemListing (offset : Nat) : List Element → List (Path × Element)
  | [] => []
  | item :: items => item.listing.map (beneath offset) ++ itemListing (offset + 1) items

/-- The elements of the trees of entries from an offset on. -/
def entryListing (offset : Nat) : List (String × Element) → List (Path × Element)
  | [] => []
  | (_, value) :: entries => value.listing.map (beneath offset) ++ entryListing (offset + 1) entries

end

theorem entryListing_eq (offset : Nat) (entries : List (String × Element)) :
    entryListing offset entries = itemListing offset (entries.map Prod.snd) := by
  induction entries generalizing offset with
  | nil => rfl
  | cons entry entries induction =>
      rw [List.map_cons, entryListing, itemListing, induction]

theorem listing_eq (element : Element) :
    element.listing = ([], element) :: itemListing 0 element.contents := by
  cases element with
  | scalar declared value => rfl
  | array declared items => rfl
  | keyed declared shape entries => rw [listing, contents, entryListing_eq]

theorem sizeOf_lt_of_mem_contents {element child : Element}
    (member : child ∈ element.contents) : sizeOf child < sizeOf element := by
  cases element with
  | scalar declared value => simp [contents] at member
  | array declared items =>
      have smaller : sizeOf child < sizeOf items := List.sizeOf_lt_of_mem member
      simp only [array.sizeOf_spec]
      omega
  | keyed declared shape entries =>
      obtain ⟨entry, entryMember, rfl⟩ := List.mem_map.mp member
      have smaller := List.sizeOf_lt_of_mem entryMember
      obtain ⟨key, value⟩ := entry
      simp only [Prod.mk.sizeOf_spec] at smaller
      simp only [keyed.sizeOf_spec]
      omega

/-- Induction over a tree, from the contents of an element to the element. -/
theorem induct {motive : Element → Prop}
    (step : ∀ element, (∀ child ∈ element.contents, motive child) → motive element)
    (element : Element) : motive element :=
  step element fun child member =>
    have := sizeOf_lt_of_mem_contents member
    induct step child
  termination_by sizeOf element

theorem mem_itemListing_iff {offset : Nat} {items : List Element} {path : Path}
    {element : Element} :
    (path, element) ∈ itemListing offset items ↔
      ∃ index below item, path = (offset + index) :: below ∧ items[index]? = some item ∧
        (below, element) ∈ item.listing := by
  induction items generalizing offset with
  | nil => simp [itemListing]
  | cons first items induction =>
      rw [itemListing, List.mem_append, induction, List.mem_map]
      constructor
      · intro found
        rcases found with found | found
        · obtain ⟨⟨below, inner⟩, member, spelled⟩ := found
          cases spelled
          exact ⟨0, below, first, rfl, rfl, member⟩
        · obtain ⟨index, below, item, spelled, there, member⟩ := found
          refine ⟨index + 1, below, item, ?_, there, member⟩
          rw [spelled, Nat.add_assoc, Nat.add_comm 1]
      · intro found
        obtain ⟨index, below, item, spelled, there, member⟩ := found
        cases index with
        | zero =>
            cases there
            refine .inl ⟨(below, element), member, ?_⟩
            rw [spelled]
            rfl
        | succ index =>
            refine .inr ⟨index, below, item, ?_, there, member⟩
            rw [spelled, Nat.add_assoc, Nat.add_comm 1]

/-- A listing has the elements of the tree, each at its path, and nothing else. -/
theorem mem_listing_iff {root element : Element} {path : Path} :
    (path, element) ∈ root.listing ↔ root.at? path = some element := by
  induction path generalizing root with
  | nil =>
      rw [listing_eq, List.mem_cons, mem_itemListing_iff]
      simp [at?, eq_comm]
  | cons offset path induction =>
      rw [listing_eq, List.mem_cons, mem_itemListing_iff, at?, Option.bind_eq_some_iff]
      constructor
      · intro found
        rcases found with found | found
        · cases found
        · obtain ⟨index, below, item, spelled, there, member⟩ := found
          cases spelled
          rw [Nat.zero_add]
          exact ⟨item, there, induction.mp member⟩
      · intro found
        obtain ⟨item, there, below⟩ := found
        refine .inr ⟨offset, path, item, ?_, there, induction.mpr below⟩
        rw [Nat.zero_add]

theorem pairwise_itemListing {items : List Element}
    (itemsAscend : ∀ item ∈ items, item.listing.Pairwise fun first second => first.1 < second.1)
    (offset : Nat) :
    (itemListing offset items).Pairwise fun first second => first.1 < second.1 := by
  induction items generalizing offset with
  | nil => exact .nil
  | cons item items induction =>
      rw [itemListing, List.pairwise_append, List.pairwise_map]
      refine ⟨?_, ?_, ?_⟩
      · refine (itemsAscend item List.mem_cons_self).imp fun {first second} before => ?_
        exact List.cons_lt_cons_iff.mpr (.inr ⟨rfl, before⟩)
      · exact induction (fun item member => itemsAscend item (List.mem_cons_of_mem _ member)) _
      · intro first firstMember second secondMember
        obtain ⟨inner, _, rfl⟩ := List.mem_map.mp firstMember
        obtain ⟨index, below, _, spelled, _⟩ := mem_itemListing_iff.mp secondMember
        rw [spelled]
        exact List.cons_lt_cons_iff.mpr (.inl (by omega))

/-- In document order the paths ascend: an element comes before what it holds, and what it holds
comes in the order of the offsets. -/
theorem pairwise_listing (root : Element) :
    root.listing.Pairwise fun first second => first.1 < second.1 := by
  induction root using induct with
  | step element induction =>
      rw [listing_eq, List.pairwise_cons]
      refine ⟨?_, pairwise_itemListing induction 0⟩
      intro entry member
      obtain ⟨index, below, _, spelled, _⟩ := mem_itemListing_iff.mp member
      rw [spelled]
      exact List.nil_lt_cons _ _

end Element

end TreeQuery
