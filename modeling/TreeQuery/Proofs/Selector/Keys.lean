import TreeQuery.Proofs.Selector.Quoting

/-!
Selection by keys.

A node has the key of the entry that it is the value of. Items of arrays and the root have the empty
key, and so have the entries whose key is empty. As a selector the empty key selects none of them,
and any other key selects the values of its entries that are there.
-/

namespace TreeQuery

namespace Element

variable {element : Element}

/-- Whether the element at a path is the value of an entry: the collection above it is a keyed one,
and has the entry at the last offset of the path. -/
def IsEntry (root : Element) (path : Path) (key : String) (value : Element) : Prop :=
  ∃ above offset declared shape entries, path = above ++ [offset] ∧
    root.at? above = some (.keyed declared shape entries) ∧ entries[offset]? = some (key, value)

/-- Whether the element listed at a position is the value of an entry with a key, and neither null
nor missing. -/
def HoldsKey (root : Element) (key : String) (position : Nat) : Prop :=
  ∃ path value, root.listing[position]? = some (path, value) ∧ root.IsEntry path key value ∧
    (∀ declared, value ≠ .scalar declared .null) ∧
      ∀ declared kind, value ≠ .scalar declared (.missing kind)

theorem isPresent_iff : element.isPresent = true ↔
    (∀ declared, element ≠ .scalar declared .null) ∧
      ∀ declared kind, element ≠ .scalar declared (.missing kind) := by
  cases element with
  | scalar declared value => cases value <;> simp [isPresent]
  | array => simp [isPresent]
  | keyed => simp [isPresent]

end Element

namespace Document

variable {root value : Element} {id : NodeId} {node : Node} {path : Path} {key : String}

theorem exists_node?_of_listing {entry : Path × Element} (listed : root.listing[id]? = some entry) :
    ∃ node, (ofTree root).node? id = some node := by
  have inside := (List.getElem?_eq_some_iff.mp listed).1
  rw [← (root.lists_nodes .root 0).length_eq] at inside
  exact ⟨_, (node?_ofTree root id).trans (List.getElem?_eq_getElem inside)⟩

theorem key_of_isEntry (present : (ofTree root).node? id = some node)
    (listed : root.listing[id]? = some (path, value)) (isEntry : root.IsEntry path key value) :
    node.key = key ∧ node.element = value := by
  obtain ⟨above, offset, declared, shape, entries, rfl, found, isValue⟩ := isEntry
  obtain ⟨sameValue, parent, given⟩ := place_of_listing present listed found
  rw [Element.places, List.getElem?_map, isValue] at given
  exact ⟨congrArg Place.key (Option.some.inj given).symm, sameValue.symm⟩

/-- Only entries have a key that is not empty. -/
theorem isEntry_of_key (present : (ofTree root).node? id = some node) (named : node.key ≠ "") :
    ∃ path, root.listing[id]? = some (path, node.element) ∧
      root.IsEntry path node.key node.element := by
  obtain ⟨above, offset, holder, parent, isListed, isHolder, held, given⟩ :=
    exists_holder_of_node? present fun isRoot => named (congrArg Place.key isRoot)
  refine ⟨_, isListed, ?_⟩
  cases holder with
  | scalar => simp [Element.contents] at held
  | array declared items =>
      obtain ⟨index, _, isItem⟩ := List.mem_map.mp (List.mem_of_getElem? given)
      exact absurd (congrArg Place.key isItem.symm) named
  | keyed declared shape entries =>
      rw [Element.contents, List.getElem?_map] at held
      rw [Element.places, List.getElem?_map] at given
      obtain ⟨entry, isEntry, isValue⟩ := Option.map_eq_some_iff.mp held
      rw [isEntry] at given
      have isKey : entry.1 = node.key := congrArg Place.key (Option.some.inj given)
      refine ⟨above, offset, declared, shape, entries, rfl, isHolder, ?_⟩
      rw [isEntry, ← isKey, ← isValue]

end Document

namespace Query

variable {query : Query} {literal key : String} {id : NodeId} {node : Node}

theorem holds_key (present : query.document.node? id = some node) :
    query.Holds (.key key) id ↔
      node.key ≠ "" ∧ node.element.isPresent = true ∧ node.key = key := by
  apply Iff.trans (holds_iff_of_looks rfl present)
  simp [and_assoc]

/-- The nodes that pass the test of a key are the values of its entries. -/
theorem holds_key_iff {root : Element} (isTree : query.document = .ofTree root) :
    id ∈ query.document.all ∧ query.Holds (.key key) id ↔ key ≠ "" ∧ root.HoldsKey key id := by
  constructor
  · intro holds
    obtain ⟨node, present⟩ := Document.exists_node?_of_mem_all holds.1
    obtain ⟨named, isPresent, isKey⟩ := (holds_key present).mp holds.2
    rw [isTree] at present
    obtain ⟨path, listed, isEntry⟩ := Document.isEntry_of_key present named
    rw [isKey] at named isEntry
    exact ⟨named, path, node.element, listed, isEntry, Element.isPresent_iff.mp isPresent⟩
  · intro holds
    obtain ⟨named, path, value, listed, isEntry, isPresent⟩ := holds
    obtain ⟨node, present⟩ := Document.exists_node?_of_listing listed
    obtain ⟨isKey, isValue⟩ := Document.key_of_isEntry present listed isEntry
    rw [← isTree] at present
    rw [← isValue, ← Element.isPresent_iff] at isPresent
    refine ⟨List.mem_range.mpr (Array.getElem?_eq_some_iff.mp present).1, ?_⟩
    exact (holds_key present).mpr ⟨isKey.symm ▸ named, isPresent, isKey⟩

/-- A key in quotes, in any spelling, selects the values of the entries with that key that are
neither null nor missing, each once and in document order. The empty key selects nothing. -/
theorem select_key {limit : Nat} {scope : PackageScope} {root : Element}
    (mapped : ofElement limit scope root = .ok query)
    (isLiteral : JsonString.IsLiteral literal.toList key.toList) :
    ∃ selected, (query.select ("." ++ literal)).outcome = .ok selected ∧
      selected.Pairwise (· < ·) ∧ (key = "" → selected = []) ∧
        (key ≠ "" → ∀ id, id ∈ selected ↔ root.HoldsKey key id) := by
  obtain ⟨tokens, lexed, level⟩ :=
    Level.builds_key query.scope (JsonString.decode?_iff.mpr isLiteral)
  rw [String.ofList_toList] at level
  have memSelected (id : NodeId) :
      id ∈ query.document.all.filter (fun id => query.Passes [.key key] id) ↔
        key ≠ "" ∧ root.HoldsKey key id := by
    rw [List.mem_filter, decide_eq_true_eq, passes_one,
      holds_key_iff (document_eq_of_ofElement mapped)]
  refine ⟨_, outcome_select_level lexed level (by simp), List.pairwise_lt_range.filter _, ?_, ?_⟩
  · intro empty
    exact List.eq_nil_iff_forall_not_mem.mpr fun id isSelected =>
      ((memSelected id).mp isSelected).1 empty
  · intro named id
    rw [memSelected, and_iff_right named]

/-- On a map with the key `a` three times, once for a missing value, and an empty key. -/
theorem select_key_repeated :
    let truth : Element := .scalar none (.bool true)
    let root : Element := .keyed none .map
      [("a", truth), ("", truth), ("a", .scalar none (.missing .bool)), ("a", .array none [truth])]
    let query : Query := ⟨.ofTree root, ⟨"", []⟩⟩
    ofElement 512 ⟨"", []⟩ root = .ok query ∧
      JsonString.IsLiteral "\"\\u0061\"".toList "a".toList ∧
        (query.select ("." ++ "\"\\u0061\"")).outcome = .ok [1, 4] ∧
          root.HoldsKey "a" 4 ∧ ¬ root.HoldsKey "a" 3 ∧
            JsonString.IsLiteral "\"\"".toList "".toList ∧
              (query.select ("." ++ "\"\"")).outcome = .ok [] := by
  intro truth root query
  have mapped : ofElement 512 ⟨"", []⟩ root = .ok query := by
    rw [ofElement, Document.ofElement_of_visit rfl]
  have isLetter : JsonString.IsLiteral "\"\\u0061\"".toList "a".toList :=
    JsonString.decode?_iff.mp (by decide +kernel)
  have isEmpty : JsonString.IsLiteral "\"\"".toList "".toList :=
    JsonString.decode?_iff.mp (by decide +kernel)
  have ran : (query.select ("." ++ "\"\\u0061\"")).outcome = .ok [1, 4] := by decide +kernel
  obtain ⟨selected, outcome, _, _, holds⟩ := select_key mapped isLetter
  cases ran.symm.trans outcome
  obtain ⟨none, ranEmpty, _, isNone, _⟩ := select_key mapped isEmpty
  rw [isNone rfl] at ranEmpty
  refine ⟨mapped, isLetter, ran, ?_, ?_, isEmpty, ranEmpty⟩
  · exact (holds (by decide) 4).mp (by decide)
  · exact fun isValue => absurd ((holds (by decide) 3).mpr isValue) (by decide)

end Query

end TreeQuery
