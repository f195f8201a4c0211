import TreeQuery.Proofs.Document.Relocation
import TreeQuery.Proofs.Selector.Keys
import TreeQuery.Proofs.Selector.NthArguments

/-!
Positions in arrays.

A node has an index and a number of siblings if and only if it is an item of an array, and then the
index is one of those that the siblings have. So the pseudo-classes for the ends of an array are
positions counted from there, and a position counted from the end is one counted from the start.
-/

namespace TreeQuery

namespace Element

variable {root : Element} {array : Path} {count index position : Nat}

/-- Whether the element listed at a position is an item of the array at a path: one of `count`
items, at an index from 1. -/
def IsItemOf (root : Element) (array : Path) (count index position : Nat) : Prop :=
  ∃ declared items offset item, root.at? array = some (.array declared items) ∧
    items.length = count ∧ offset + 1 = index ∧
      root.listing[position]? = some (array ++ [offset], item)

def IsItem (root : Element) (position : Nat) : Prop :=
  ∃ array count index, root.IsItemOf array count index position

theorem at?_item {declared : Option Declaration} {items : List Element}
    (found : root.at? array = some (.array declared items)) (offset : Nat) :
    root.at? (array ++ [offset]) = items[offset]? := by
  rw [at?_append, found, Option.bind_some, at?, contents]
  cases items[offset]? <;> rfl

/-- The place of an item has its index, counted from 1, and the number of items. -/
theorem place_item {declared : Option Declaration} {items : List Element} {parent : NodeId}
    {offset : Nat} {place : Place}
    (given : ((Element.array declared items).places parent)[offset]? = some place) :
    place = .item parent (offset + 1) items.length := by
  obtain ⟨index, isIndex, isPlace⟩ := Option.map_eq_some_iff.mp
    (List.getElem?_map.symm.trans given)
  obtain ⟨_, isOffset⟩ := List.getElem?_eq_some_iff.mp isIndex
  rw [List.getElem_range', Nat.one_mul, Nat.add_comm] at isOffset
  rw [← isPlace, isOffset]

theorem IsItemOf.bounds (isItem : root.IsItemOf array count index position) :
    1 ≤ index ∧ index ≤ count := by
  obtain ⟨declared, items, offset, item, found, rfl, rfl, listed⟩ := isItem
  have isHeld := mem_listing_iff.mp (List.mem_of_getElem? listed)
  rw [at?_item found] at isHeld
  exact ⟨Nat.succ_pos offset, (List.getElem?_eq_some_iff.mp isHeld).1⟩

/-- The item at the same distance from the other end of the array. -/
theorem IsItemOf.exists_mirrored (isItem : root.IsItemOf array count index position) :
    ∃ other, root.IsItemOf array count (count + 1 - index) other := by
  obtain ⟨isPositive, isBound⟩ := isItem.bounds
  obtain ⟨declared, items, _, _, found, rfl, _⟩ := isItem
  have inside : items.length - index < items.length := by omega
  have isMirrored := (at?_item found _).trans (List.getElem?_eq_getElem inside)
  obtain ⟨other, listed⟩ := List.mem_iff_getElem?.mp (mem_listing_iff.mpr isMirrored)
  exact ⟨other, declared, items, _, _, found, rfl, by omega, listed⟩

end Element

namespace Document

variable {root : Element} {id : NodeId} {node : Node} {array : Path} {count index : Nat}

/-- The index and the siblings of an item. -/
theorem exists_node?_of_isItemOf (isItem : root.IsItemOf array count index id) :
    ∃ node, (ofTree root).node? id = some node ∧ node.index = index ∧ node.siblings = count := by
  obtain ⟨declared, items, offset, item, found, rfl, rfl, listed⟩ := isItem
  obtain ⟨node, present⟩ := exists_node?_of_listing listed
  obtain ⟨_, parent, given⟩ := place_of_listing present listed found
  have isPlace := Element.place_item given
  exact ⟨node, present, congrArg Place.index isPlace, congrArg Place.siblings isPlace⟩

/-- Only items of arrays have an index or siblings. -/
theorem isItemOf_of_index (present : (ofTree root).node? id = some node)
    (counted : node.index ≠ 0 ∨ node.siblings ≠ 0) :
    ∃ array, root.IsItemOf array node.siblings node.index id := by
  have notRoot : node.toPlace ≠ .root := by
    intro isRoot
    have noIndex := congrArg Place.index isRoot
    have noSiblings := congrArg Place.siblings isRoot
    exact counted.elim (fun hasIndex => hasIndex noIndex) fun hasSiblings => hasSiblings noSiblings
  obtain ⟨above, offset, holder, parent, listed, found, held, given⟩ :=
    exists_holder_of_node? present notRoot
  cases holder with
  | scalar => simp [Element.contents] at held
  | array declared items =>
      have isPlace := Element.place_item given
      exact ⟨above, declared, items, offset, node.element, found,
        congrArg Place.siblings isPlace.symm, congrArg Place.index isPlace.symm, listed⟩
  | keyed declared shape entries =>
      obtain ⟨entry, _, isPlace⟩ := List.mem_map.mp (List.mem_of_getElem? given)
      have noIndex := congrArg Place.index isPlace
      have noSiblings := congrArg Place.siblings isPlace
      exact absurd counted (by simp [← noIndex, ← noSiblings, Place.entry])

/-- Index and siblings are both there or both not. -/
theorem index_cases (present : (ofTree root).node? id = some node) :
    (node.index = 0 ∧ node.siblings = 0) ∨ (1 ≤ node.index ∧ node.index ≤ node.siblings) := by
  by_cases counted : node.index ≠ 0 ∨ node.siblings ≠ 0
  · obtain ⟨array, isItem⟩ := isItemOf_of_index present counted
    exact .inr isItem.bounds
  · omega

end Document

namespace Nth

variable {nth : Nth} {index siblings : Nat}

theorem test_eq_contains (nth : Nth) (isPositive : 1 ≤ index) (isBound : index ≤ siblings) :
    nth.test index siblings = nth.contains (nth.position index siblings) := by
  have hasSiblings : siblings ≠ 0 := by omega
  have hasIndex : index ≠ 0 := by omega
  simp [test, bne, hasSiblings, hasIndex]

/-- A position counted from the end is the mirrored position counted from the start. -/
theorem test_fromEnd (fromStart : nth.fromEnd = false) (isPositive : 1 ≤ index)
    (isBound : index ≤ siblings) :
    { nth with fromEnd := true }.test index siblings =
      nth.test (siblings + 1 - index) siblings := by
  have mirrored : (siblings : Int) - (index - 1) = (siblings + 1 - index : Nat) := by omega
  rw [test_eq_contains _ isPositive isBound, test_eq_contains _ (by omega) (by omega)]
  simp only [position, fromStart, mirrored, contains, if_true, Bool.false_eq_true, if_false]

theorem read_fromEnd {text : String} (reads : read text false = .ok nth) :
    nth.fromEnd = false ∧ read text true = .ok { nth with fromEnd := true } := by
  obtain ⟨fromStart, isPair⟩ := read_ok_iff.mp reads
  exact ⟨fromStart, read_ok_iff.mpr ⟨rfl, isPair⟩⟩

end Nth

namespace Level

variable {name inner text : String} {nth : Nth} {fromEnd : Bool}

theorem read_nth (scope : PackageScope) (isDirection : nthDirection name = .ok fromEnd)
    (reads : Nth.read text fromEnd = .ok nth) (position argumentPosition : Nat) :
    read scope [⟨.nthFunction, name, position⟩, ⟨.arguments, text, argumentPosition⟩] =
      .ok ([.nth nth], []) := by
  have isTest : nthTest name text = .ok (.nth nth) := by
    simp only [nthTest, isDirection, reads]
  exact read_unit (.nth rfl rfl isTest) [] (by simp)

/-- An argument in one pair of parentheses is the whole argument of the function before it. -/
theorem builds_nth (scope : PackageScope) (isDirection : nthDirection name = .ok fromEnd)
    (isText : text = "(" ++ inner ++ ")") (unclosed : ')' ∉ inner.toList)
    (reads : Nth.read text fromEnd = .ok nth) : Builds scope (":" ++ name ++ text) (.nth nth) := by
  have isName : name ∈ ["nth-child", "nth-last-child"] := by
    unfold nthDirection at isDirection
    split at isDirection
    · simp
    · simp
    · cases isDirection
  have isPair := (Nth.read_ok_iff.mp reads).2
  rw [isText, String.toList_append, String.toList_append] at isPair
  have written := Nth.isWritten_of_readPair unclosed isPair
  have crosses := Arguments.Crosses.of_plain fun c isMember =>
    Nth.apart_of_isWritten (written c isMember)
  have spelled : ":" ++ name ++ text = functionSelector name inner := by
    simp only [isText, functionSelector, String.append_assoc]
  rw [spelled, Builds, tokenize_call (.nth isName) crosses, ← isText]
  exact ⟨_, rfl, read_nth scope isDirection reads _ _⟩

/-- An argument of one, behind both functions. -/
theorem builds_nth_one (scope : PackageScope)
    (isDirection : nthDirection name = .ok fromEnd) :
    Builds scope (":" ++ name ++ "(1)") (.nth ⟨0, 1, fromEnd⟩) := by
  have reads : Nth.read "(1)" fromEnd = .ok ⟨0, 1, fromEnd⟩ := by
    cases fromEnd <;> decide +kernel
  exact builds_nth scope isDirection (show "(1)" = "(" ++ "1" ++ ")" from rfl) (by decide) reads

theorem builds_pseudoClass (scope : PackageScope) (which : PseudoClass) :
    Builds scope (":" ++ which.word) (.pseudoClass which) := by
  have lexed : tokenize .selector (":" ++ which.word) = .ok [⟨.pseudoClass, which.word, 0⟩] := by
    cases which <;> decide +kernel
  exact ⟨_, lexed, read_unit (.pseudoClass rfl (PseudoClass.ofWord?_word which)) [] (by simp)⟩

end Level

namespace Query

variable {query : Query} {id : NodeId} {node : Node} {root : Element} {text inner : String}
  {forward : Nth}

theorem holds_pseudoClass {which : PseudoClass} (present : query.document.node? id = some node) :
    query.Holds (.pseudoClass which) id ↔ Plan.holdsPseudoClass which node = true := by
  apply Iff.trans (holds_iff_of_looks rfl present)
  exact Iff.rfl

theorem holds_nth {nth : Nth} (present : query.document.node? id = some node) :
    query.Holds (.nth nth) id ↔ nth.test node.index node.siblings = true := by
  apply Iff.trans (holds_iff_of_looks rfl present)
  exact Iff.rfl

theorem agree_of_builds {test otherTest : Level.Test} {selector other : String}
    (builds : Level.Builds query.scope selector test)
    (otherBuilds : Level.Builds query.scope other otherTest)
    (noHas : ∀ inner, test ≠ .has inner ∧ otherTest ≠ .has inner)
    (same : ∀ id node, query.document.node? id = some node →
      (query.Holds test id ↔ query.Holds otherTest id)) : query.Agree selector other := by
  refine ⟨_, outcome_select_of_builds builds fun inner => (noHas inner).1, ?_⟩
  rw [outcome_select_of_builds otherBuilds fun inner => (noHas inner).2]
  refine congrArg Except.ok (List.filter_congr fun id isNode => ?_)
  obtain ⟨node, present⟩ := Document.exists_node?_of_mem_all isNode
  exact decide_eq_decide.mpr (same id node present).symm

theorem exists_of_mem_selected {test : Level.Test}
    (isSelected : id ∈ query.document.all.filter fun id => query.Holds test id) :
    ∃ node, query.document.node? id = some node ∧ query.Holds test id := by
  rw [List.mem_filter, decide_eq_true_eq] at isSelected
  obtain ⟨node, present⟩ := Document.exists_node?_of_mem_all isSelected.1
  exact ⟨node, present, isSelected.2⟩

/-- Two answers with items of arrays only. The second one has an item if and only if the first one
has the item at the same distance from the other end of the array. -/
structure Mirrors (root : Element) (selected mirrored : List NodeId) : Prop where
  areItems : ∀ id, id ∈ selected ∨ id ∈ mirrored → root.IsItem id
  mirror : ∀ array count index id, root.IsItemOf array count index id →
    (∃ other, root.IsItemOf array count (count + 1 - index) other) ∧
      ∀ other, root.IsItemOf array count (count + 1 - index) other →
        (id ∈ mirrored ↔ other ∈ selected)

theorem isItem_of_holds_nth (isTree : query.document = .ofTree root) {nth : Nth}
    (present : query.document.node? id = some node) (holds : query.Holds (.nth nth) id) :
    root.IsItem id := by
  have passes := (holds_nth present).mp holds
  rw [isTree] at present
  simp only [Nth.test, Bool.and_eq_true, bne_iff_ne] at passes
  obtain ⟨array, isItem⟩ := Document.isItemOf_of_index present (.inl passes.1.2)
  exact ⟨array, _, _, isItem⟩

theorem mem_nth_iff (isTree : query.document = .ofTree root) {array : Path} {count index : Nat}
    (isItem : root.IsItemOf array count index id) (nth : Nth) :
    (id ∈ query.document.all.filter fun id => query.Holds (.nth nth) id) ↔
      nth.test index count = true := by
  obtain ⟨node, present, isIndex, isCount⟩ := Document.exists_node?_of_isItemOf isItem
  rw [← isTree] at present
  rw [mem_selected_iff present, holds_nth present, isIndex, isCount]

theorem mirrors_nth (isTree : query.document = .ofTree root) (fromStart : forward.fromEnd = false) :
    Mirrors root (query.document.all.filter fun id => query.Holds (.nth forward) id)
      (query.document.all.filter fun id =>
        query.Holds (.nth { forward with fromEnd := true }) id) where
  areItems id isSelected := by
    rcases isSelected with isSelected | isSelected <;>
      obtain ⟨node, present, holds⟩ := exists_of_mem_selected isSelected
    · exact isItem_of_holds_nth isTree present holds
    · exact isItem_of_holds_nth isTree present holds
  mirror array count index id isItem := by
    refine ⟨isItem.exists_mirrored, fun other isOther => ?_⟩
    rw [mem_nth_iff isTree isItem, mem_nth_iff isTree isOther,
      Nth.test_fromEnd fromStart isItem.bounds.1 isItem.bounds.2]

/-! ## Pseudo-classes -/

theorem holds_firstChild_iff (isTree : query.document = .ofTree root)
    (present : query.document.node? id = some node) :
    query.Holds (.pseudoClass .firstChild) id ↔ query.Holds (.nth ⟨0, 1, false⟩) id := by
  have counted := Document.index_cases (isTree ▸ present)
  rw [holds_pseudoClass present, holds_nth present]
  simp only [Plan.holdsPseudoClass, Nth.test, Nth.contains, Nth.position, beq_iff_eq,
    Bool.and_eq_true, bne_iff_ne, if_true, Bool.false_eq_true, if_false]
  omega

theorem holds_lastChild_iff (isTree : query.document = .ofTree root)
    (present : query.document.node? id = some node) :
    query.Holds (.pseudoClass .lastChild) id ↔ query.Holds (.nth ⟨0, 1, true⟩) id := by
  have counted := Document.index_cases (isTree ▸ present)
  rw [holds_pseudoClass present, holds_nth present]
  simp only [Plan.holdsPseudoClass, Nth.test, Nth.contains, Nth.position, beq_iff_eq,
    Bool.and_eq_true, bne_iff_ne, if_true]
  omega

theorem holds_onlyChild_iff (isTree : query.document = .ofTree root)
    (present : query.document.node? id = some node) :
    query.Holds (.pseudoClass .onlyChild) id ↔
      query.Holds (.pseudoClass .firstChild) id ∧ query.Holds (.pseudoClass .lastChild) id := by
  have counted := Document.index_cases (isTree ▸ present)
  rw [holds_pseudoClass present, holds_pseudoClass present, holds_pseudoClass present]
  simp only [Plan.holdsPseudoClass, beq_iff_eq, Bool.and_eq_true, bne_iff_ne]
  omega

theorem agree_firstChild (isTree : query.document = .ofTree root) :
    query.Agree ":first-child" ":nth-child(1)" :=
  have isDirection : Level.nthDirection "nth-child" = .ok false := rfl
  agree_of_builds (Level.builds_pseudoClass query.scope .firstChild)
    (Level.builds_nth_one query.scope isDirection) (by simp)
    fun _ _ present => holds_firstChild_iff isTree present

theorem agree_lastChild (isTree : query.document = .ofTree root) :
    query.Agree ":last-child" ":nth-last-child(1)" :=
  have isDirection : Level.nthDirection "nth-last-child" = .ok true := rfl
  agree_of_builds (Level.builds_pseudoClass query.scope .lastChild)
    (Level.builds_nth_one query.scope isDirection) (by simp)
    fun _ _ present => holds_lastChild_iff isTree present

/-- The nodes that a pseudo-class selects. -/
def ofClass (query : Query) (which : PseudoClass) : List NodeId :=
  query.document.all.filter fun id => query.Holds (.pseudoClass which) id

theorem outcome_select_pseudoClass (query : Query) (which : PseudoClass) :
    (query.select (":" ++ which.word)).outcome = .ok (query.ofClass which) :=
  outcome_select_of_builds (Level.builds_pseudoClass query.scope which) (by simp)

theorem mem_onlyChild_iff (isTree : query.document = .ofTree root) (id : NodeId) :
    id ∈ query.ofClass .onlyChild ↔
      id ∈ query.ofClass .firstChild ∧ id ∈ query.ofClass .lastChild := by
  constructor
  · intro isOnly
    obtain ⟨node, present, holds⟩ := exists_of_mem_selected isOnly
    rw [ofClass, ofClass, mem_selected_iff present, mem_selected_iff present]
    exact (holds_onlyChild_iff isTree present).mp holds
  · rintro ⟨isFirst, isLast⟩
    obtain ⟨node, present, first⟩ := exists_of_mem_selected isFirst
    rw [ofClass, mem_selected_iff present] at isLast ⊢
    exact (holds_onlyChild_iff isTree present).mpr ⟨first, isLast⟩

theorem isItem_of_mem_end (isTree : query.document = .ofTree root)
    (isEnd : id ∈ query.ofClass .firstChild ∨ id ∈ query.ofClass .lastChild) : root.IsItem id := by
  rcases isEnd with isFirst | isLast
  · obtain ⟨node, present, holds⟩ := exists_of_mem_selected isFirst
    exact isItem_of_holds_nth isTree present ((holds_firstChild_iff isTree present).mp holds)
  · obtain ⟨node, present, holds⟩ := exists_of_mem_selected isLast
    exact isItem_of_holds_nth isTree present ((holds_lastChild_iff isTree present).mp holds)

/-- The pseudo-classes for the ends of an array are positions in it: the first and the last child
are position 1 counted from the start and from the end, and an only child is both. They and all
positions select items of arrays only. And for every argument, counting from the end selects an
item if and only if counting from the start selects its mirrored one. -/
theorem select_structural {limit : Nat} {scope : PackageScope}
    (mapped : ofElement limit scope root = .ok query) :
    (query.Agree ":first-child" ":nth-child(1)" ∧
      query.Agree ":last-child" ":nth-last-child(1)") ∧
    (∃ first last only, (query.select ":first-child").outcome = .ok first ∧
      (query.select ":last-child").outcome = .ok last ∧
        (query.select ":only-child").outcome = .ok only ∧
          (∀ id, id ∈ only ↔ id ∈ first ∧ id ∈ last) ∧
            ∀ id, id ∈ first ∨ id ∈ last → root.IsItem id) ∧
    ∀ text forward, Nth.read text false = .ok forward →
      (∀ position argumentPosition, ∃ selected mirrored,
        (query.matchesAmong [⟨.nthFunction, "nth-child", position⟩,
          ⟨.arguments, text, argumentPosition⟩] query.document.all 0).outcome = .ok selected ∧
        (query.matchesAmong [⟨.nthFunction, "nth-last-child", position⟩,
          ⟨.arguments, text, argumentPosition⟩] query.document.all 0).outcome = .ok mirrored ∧
        Mirrors root selected mirrored) ∧
      ∀ inner : String, text = "(" ++ inner ++ ")" → ')' ∉ inner.toList →
        ∃ selected mirrored, (query.select (":nth-child" ++ text)).outcome = .ok selected ∧
          (query.select (":nth-last-child" ++ text)).outcome = .ok mirrored ∧
            Mirrors root selected mirrored := by
  have isTree := document_eq_of_ofElement mapped
  refine ⟨⟨agree_firstChild isTree, agree_lastChild isTree⟩,
    ⟨_, _, _, outcome_select_pseudoClass query .firstChild,
      outcome_select_pseudoClass query .lastChild, outcome_select_pseudoClass query .onlyChild,
        mem_onlyChild_iff isTree, fun _ => isItem_of_mem_end isTree⟩, fun text forward reads => ?_⟩
  obtain ⟨fromStart, backward⟩ := Nth.read_fromEnd reads
  refine ⟨fun position argumentPosition => ?_, fun inner isText unclosed => ?_⟩
  · have runs {name : String} {nth : Nth} {fromEnd : Bool}
        (isDirection : Level.nthDirection name = .ok fromEnd)
        (isRead : Nth.read text fromEnd = .ok nth) :=
      outcome_matchesAmong_level (Level.read_nth query.scope isDirection isRead position
        argumentPosition) (by simp)
    simp only [filter_passes_one] at runs
    exact ⟨_, _, runs rfl reads, runs rfl backward, mirrors_nth isTree fromStart⟩
  · have builds := Level.builds_nth query.scope (show Level.nthDirection "nth-child" = _ from rfl)
      isText unclosed reads
    have mirrored := Level.builds_nth query.scope
      (show Level.nthDirection "nth-last-child" = _ from rfl) isText unclosed backward
    rw [show ":nth-child" = ":" ++ "nth-child" from rfl,
      show ":nth-last-child" = ":" ++ "nth-last-child" from rfl]
    exact ⟨_, _, outcome_select_of_builds builds (by simp),
      outcome_select_of_builds mirrored (by simp), mirrors_nth isTree fromStart⟩

/-- An array of four items, one of which is an array of one item. -/
theorem select_structural_nested :
    let item : Element := .scalar none .null
    let root : Element :=
      .keyed none .map [("a", .array none [item, .array none [item], item, item])]
    let query : Query := ⟨.ofTree root, ⟨"", []⟩⟩
    ofElement 512 ⟨"", []⟩ root = .ok query ∧ query.Agree ":last-child" ":nth-last-child(1)" ∧
      Nth.read "(2n)" false = .ok ⟨2, 0, false⟩ ∧ "(2n)" = "(" ++ "2n" ++ ")" ∧
        ')' ∉ "2n".toList ∧ (query.select (":nth-child" ++ "(2n)")).outcome = .ok [3, 6] ∧
          (query.select (":nth-last-child" ++ "(2n)")).outcome = .ok [2, 5] ∧
            Mirrors root [3, 6] [2, 5] := by
  intro item root query
  have mapped : ofElement 512 ⟨"", []⟩ root = .ok query := by
    rw [ofElement, Document.ofElement_of_visit rfl]
  have reads : Nth.read "(2n)" false = .ok ⟨2, 0, false⟩ := by decide +kernel
  have unclosed : ')' ∉ "2n".toList := by decide
  have ran : (query.select (":nth-child" ++ "(2n)")).outcome = .ok [3, 6] := by decide +kernel
  have ranBack : (query.select (":nth-last-child" ++ "(2n)")).outcome = .ok [2, 5] := by
    decide +kernel
  obtain ⟨⟨_, lastAgree⟩, _, positions⟩ := select_structural mapped
  obtain ⟨selected, mirrored, forward, backward, mirrors⟩ :=
    (positions "(2n)" _ reads).2 "2n" rfl unclosed
  cases ran.symm.trans forward
  cases ranBack.symm.trans backward
  exact ⟨mapped, lastAgree, reads, rfl, unclosed, ran, ranBack, mirrors⟩

end Query

end TreeQuery
