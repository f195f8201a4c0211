import TreeQuery.Proofs.Document.Subtree

/-!
Documents of plain JSON.

The element of a JSON value has no missing scalars, and its numbers are those of the value. Both
hold of all that it contains, and so of every node of its map.
-/

namespace TreeQuery

/-- A JSON value all of whose numbers are finite. -/
inductive Json.IsFinite : Json → Prop where
  | null : IsFinite .null
  | bool (value : Bool) : IsFinite (.bool value)
  | integer {value : Int} (inRange : (Number.ofInt value).isFinite = true) :
      IsFinite (.integer value)
  | number {value : Number} (inRange : value.isFinite = true) : IsFinite (.number value)
  | string (value : String) : IsFinite (.string value)
  | array {items : List Json} (areFinite : ∀ item ∈ items, IsFinite item) :
      IsFinite (.array items)
  | object {entries : List (String × Json)} (areFinite : ∀ entry ∈ entries, IsFinite entry.2) :
      IsFinite (.object entries)

/-- A scalar with a value to compare: it is not missing, and it is finite if it is a number. -/
inductive Scalar.IsPlain : Scalar → Prop where
  | null : IsPlain .null
  | bool (value : Bool) : IsPlain (.bool value)
  | number {value : Number} (isFinite : value.isFinite = true) : IsPlain (.number value)
  | string (value : String) : IsPlain (.string value)

namespace Element

/-- Whether all scalars of an element are plain. -/
inductive IsPlain : Element → Prop where
  | scalar {declared : Option Declaration} {value : Scalar} (isPlain : value.IsPlain) :
      IsPlain (.scalar declared value)
  | array {declared : Option Declaration} {items : List Element}
      (arePlain : ∀ item ∈ items, IsPlain item) : IsPlain (.array declared items)
  | keyed {declared : Option Declaration} {shape : Keyed} {entries : List (String × Element)}
      (arePlain : ∀ entry ∈ entries, IsPlain entry.2) : IsPlain (.keyed declared shape entries)

variable {root element : Element} {json : Json}

theorem itemsOfJson_eq (items : List Json) : itemsOfJson items = items.map ofJson := by
  induction items with
  | nil => rfl
  | cons item items induction => rw [itemsOfJson, induction, List.map_cons]

theorem entriesOfJson_eq (entries : List (String × Json)) :
    entriesOfJson entries = entries.map fun entry => (entry.1, ofJson entry.2) := by
  induction entries with
  | nil => rfl
  | cons entry entries induction => rw [entriesOfJson, induction, List.map_cons]

theorem isPlain_ofJson (isFinite : json.IsFinite) : (ofJson json).IsPlain := by
  induction isFinite with
  | null => exact .scalar .null
  | bool value => exact .scalar (.bool value)
  | integer inRange => exact .scalar (.number inRange)
  | number inRange => exact .scalar (.number inRange)
  | string value => exact .scalar (.string value)
  | array _ induction =>
      rw [ofJson, itemsOfJson_eq]
      exact .array (List.forall_mem_map.mpr induction)
  | object _ induction =>
      rw [ofJson, entriesOfJson_eq]
      exact .keyed (List.forall_mem_map.mpr induction)

theorem IsPlain.contents (isPlain : element.IsPlain) :
    ∀ child ∈ element.contents, child.IsPlain := by
  cases isPlain with
  | scalar => simp [Element.contents]
  | array arePlain => exact arePlain
  | keyed arePlain => exact List.forall_mem_map.mpr arePlain

theorem IsPlain.at? {path : Path} (isPlain : root.IsPlain) (found : root.at? path = some element) :
    element.IsPlain := by
  induction path generalizing root with
  | nil =>
      cases found
      exact isPlain
  | cons offset path induction =>
      obtain ⟨child, isChild, isBelow⟩ := Option.bind_eq_some_iff.mp found
      exact induction (isPlain.contents child (List.mem_of_getElem? isChild)) isBelow

end Element

namespace Document

variable {root : Element} {id : NodeId} {node : Node}

theorem isPlain_of_node? (isPlain : root.IsPlain) (present : (ofTree root).node? id = some node) :
    node.element.IsPlain := by
  obtain ⟨path, listed⟩ := exists_entry_of_node? present
  exact isPlain.at? (Element.mem_listing_iff.mp (List.mem_of_getElem? listed))

theorem exists_node?_of_mem_all {document : Document} (isNode : id ∈ document.all) :
    ∃ node, document.node? id = some node :=
  ⟨_, Array.getElem?_eq_getElem (List.mem_range.mp isNode)⟩

theorem mem_all_of_node? {document : Document} (present : document.node? id = some node) :
    id ∈ document.all :=
  List.mem_range.mpr (Array.getElem?_eq_some_iff.mp present).1

end Document

end TreeQuery
