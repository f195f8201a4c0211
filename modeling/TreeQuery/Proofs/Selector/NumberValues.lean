import TreeQuery.Proofs.Selector.Quoting
import TreeQuery.Proofs.Selector.Values

/-!
Number literals as values.

A number literal is compared with a node by the canonical text of its number. Where the number is
finite, only the numbers that equal it and the strings of its text have that text. A literal that is
out of range has the text of null, like every number that is not finite.
-/

namespace TreeQuery

open TokenRule

/-! ## Elements with the text of a number -/

namespace Element

variable {element other : Element} {value : Number}

/-- The elements that a number stands for: the numbers that equal it, and the strings of its
canonical text. -/
inductive IsNumberOrText (value : Number) : Element → Prop where
  | number {declared : Option Declaration} {number : Number}
      (isEqual : value.equal number = true) :
      IsNumberOrText value (.scalar declared (.number number))
  | text {declared : Option Declaration} :
      IsNumberOrText value (.scalar declared (.string value.canonicalText))

/-- The elements that null stands for: those without a value, the numbers that are not finite, and
the strings of the word. -/
inductive IsNullOrText : Element → Prop where
  | null {declared : Option Declaration} : IsNullOrText (.scalar declared .null)
  | missing {declared : Option Declaration} {kind : Kind} :
      IsNullOrText (.scalar declared (.missing kind))
  | number {declared : Option Declaration} {number : Number}
      (notFinite : number.isFinite = false) : IsNullOrText (.scalar declared (.number number))
  | text {declared : Option Declaration} : IsNullOrText (.scalar declared (.string "null"))

/-- A text of an element that is no string is the text of strings and of elements with one JSON
form. -/
theorem string_or_toJson_of_canonicalText (otherNotText : other.isText = false)
    (same : element.canonicalText = other.canonicalText) :
    (∃ declared, element = .scalar declared (.string other.canonicalText)) ∨
      element.toJson = other.toJson := by
  cases isText : element.isText with
  | false => exact .inr ((canonicalText_eq_iff isText otherNotText).mp same)
  | true =>
      cases element with
      | scalar declared value =>
          cases value with
          | string text => exact .inl ⟨declared, by rw [← same]; rfl⟩
          | _ => cases isText
      | array => cases isText
      | keyed => cases isText

theorem isNumberOrText_of_toJson (isFinite : value.isFinite = true)
    (same : element.toJson = .ofNumber value) : element.IsNumberOrText value := by
  have notNull : Json.ofNumber value ≠ .null := fun isNull =>
    absurd (Json.ofNumber_eq_null_iff.mp isNull) (by simp [isFinite])
  have isBare := Json.isBare_ofNumber value
  rw [← same] at notNull isBare
  cases element with
  | scalar declared scalar =>
      cases scalar with
      | missing => exact absurd rfl notNull
      | null => exact absurd rfl notNull
      | bool truth => exact absurd same (Json.bool_ne_ofNumber truth value)
      | number number => exact .number ((Json.ofNumber_eq_iff isFinite).mp same.symm)
      | string => cases isBare
  | array => cases isBare
  | keyed => cases isBare

theorem isNullOrText_of_toJson (isNull : element.toJson = .null) : element.IsNullOrText := by
  cases element with
  | scalar declared scalar =>
      cases scalar with
      | missing => exact .missing
      | null => exact .null
      | bool => cases isNull
      | number => exact .number (Json.ofNumber_eq_null_iff.mp isNull)
      | string => cases isNull
  | array => cases isNull
  | keyed => cases isNull

theorem canonicalText_eq_number_iff (isFinite : value.isFinite = true) :
    element.canonicalText = value.canonicalText ↔ element.IsNumberOrText value := by
  constructor
  · intro same
    have notText : (scalar none (.number value)).isText = false := rfl
    rcases string_or_toJson_of_canonicalText notText same with ⟨declared, rfl⟩ | sameJson
    · exact .text
    · exact isNumberOrText_of_toJson isFinite sameJson
  · intro stands
    cases stands with
    | number isEqual => exact ((Number.canonicalText_eq_iff isFinite).mpr isEqual).symm
    | text => rfl

theorem canonicalText_eq_null_iff : element.canonicalText = "null" ↔ element.IsNullOrText := by
  constructor
  · intro same
    have notText : (scalar none .null).isText = false := rfl
    rcases string_or_toJson_of_canonicalText notText same with ⟨declared, rfl⟩ | sameJson
    · exact .text
    · exact isNullOrText_of_toJson sameJson
  · intro stands
    cases stands with
    | null => rfl
    | missing => rfl
    | number notFinite => exact Number.canonicalText_of_not_finite notFinite
    | text => rfl

end Element

/-! ## Levels of number literals -/

namespace Level

theorem builds_val_number {literal : String} {value : Number} (scope : PackageScope)
    (isNumber : number.Matches literal.toList) (reads : Number.ofText? literal = some value) :
    Builds scope (":val(" ++ literal ++ ")") (.val value.canonicalText) := by
  have builds := builds_function scope (by simp) (tokenize_number isNumber)
    (functionTest_val_number isNumber reads)
  exact builds

end Level

namespace Query

/-- A number literal holds of the numbers that equal its value, and of the strings of the canonical
text of the value. A literal that is out of range holds of what null stands for. -/
theorem holds_val_number (literal : String) (isNumber : number.Matches literal.toList) :
    ∃ value, Number.ofText? literal = some value ∧
      (∀ scope, Level.Builds scope (":val(" ++ literal ++ ")") (.val value.canonicalText)) ∧
        ∀ (query : Query) (id : NodeId) (node : Node), query.document.node? id = some node →
          (value.isFinite = true →
            (query.Holds (.val value.canonicalText) id ↔ node.element.IsNumberOrText value)) ∧
          (value.isFinite = false →
            (query.Holds (.val value.canonicalText) id ↔ node.element.IsNullOrText)) := by
  obtain ⟨value, reads, _⟩ := Expr.ofText_current_number .equal isNumber
  refine ⟨value, reads, fun scope => Level.builds_val_number scope isNumber reads, ?_⟩
  intro query id node present
  rw [holds_val present]
  refine ⟨Element.canonicalText_eq_number_iff, fun notFinite => ?_⟩
  rw [Number.canonicalText_of_not_finite notFinite]
  exact Element.canonicalText_eq_null_iff

/-- A negative zero, on zero, on the strings of both spellings and on null. -/
theorem holds_val_number_zero :
    let zero : Element := .scalar none (.number (.zero false))
    let query : Query := ⟨.ofTree (.array none
      [zero, .scalar none (.string "0"), .scalar none (.string "-0e7"), .scalar none .null]),
      ⟨"", []⟩⟩
    number.Matches "-0e7".toList ∧ Number.ofText? "-0e7" = some (.zero true) ∧
      Level.Builds query.scope (":val(" ++ "-0e7" ++ ")") (.val "0") ∧
        query.document.all.filter (fun id => query.Holds (.val "0") id) = [1, 2] ∧
          (query.document.node? 1).map Node.element = some zero ∧
            Element.IsNumberOrText (.zero true) zero := by
  intro zero query
  have isNumber : number.Matches "-0e7".toList :=
    (Pattern.matches_take_of_longest?
      (show number.longest? ['-', '0', 'e', '7'] = some 4 by rfl)).2
  have isZero : Number.ofText? "-0e7" = some (.zero true) := by decide +kernel
  have isText : (Number.zero true).canonicalText = "0" := by decide +kernel
  obtain ⟨value, reads, builds, holds⟩ := holds_val_number "-0e7" isNumber
  have isValue : value = .zero true := Option.some.inj (reads.symm.trans isZero)
  rw [isValue, isText] at builds holds
  have held : query.Holds (.val "0") 1 := by decide +kernel
  obtain ⟨node, present⟩ := Document.exists_node?_of_mem_all
    (show 1 ∈ query.document.all by decide)
  have isElement : (query.document.node? 1).map Node.element = some zero := rfl
  refine ⟨isNumber, isZero, builds _, by decide +kernel, isElement, ?_⟩
  rw [present] at isElement
  rw [← Option.some.inj isElement]
  exact ((holds query 1 node present).1 rfl).mp held

/-- A literal that is out of range holds of a null, which is no number and no string. -/
theorem holds_val_out_of_range :
    let null : Element := .scalar none .null
    let query : Query := ⟨.ofTree null, ⟨"", []⟩⟩
    number.Matches "1e999".toList ∧ Number.ofText? "1e999" = some (.infinite false) ∧
      ofElement 512 ⟨"", []⟩ null = .ok query ∧
        Level.Builds query.scope (":val(" ++ "1e999" ++ ")") (.val "null") ∧
          (query.document.node? 0).map Node.element = some null ∧ query.Holds (.val "null") 0 ∧
            (query.select (":val(" ++ "1e999" ++ ")")).outcome = .ok [0] ∧
              ¬ null.IsNumberOrText (.infinite false) := by
  intro null query
  have isNumber : number.Matches "1e999".toList :=
    (Pattern.matches_take_of_longest?
      (show number.longest? ['1', 'e', '9', '9', '9'] = some 5 by rfl)).2
  have reads : Number.ofText? "1e999" = some (.infinite false) := by decide +kernel
  have mapped : ofElement 512 ⟨"", []⟩ null = .ok query := by
    rw [ofElement, Document.ofElement_of_visit rfl]
  refine ⟨isNumber, reads, mapped, Level.builds_val_number query.scope isNumber reads, rfl,
    by decide +kernel, by decide +kernel, ?_⟩
  show ¬ Element.IsNumberOrText (.infinite false) (.scalar none .null)
  intro stands
  cases stands

end Query

end TreeQuery
