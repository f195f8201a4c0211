import TreeQuery.Proofs.Selector.NumberValues

/-!
Canonical texts of numbers as selectors.

The canonical text of a finite number is one literal of the selector grammar, it is read as an
equal number, and as the argument of `:val(…)` it selects the numbers equal to the number it was
written from.
-/

namespace TreeQuery

open TokenRule

variable {value : Number}

/-- The canonical text of a finite number is the literal that it is compared by. -/
theorem Level.literalText_canonicalText (isFinite : value.isFinite = true) (place : Nat) :
    literalText ⟨.literal, value.canonicalText, place⟩ = value.canonicalText := by
  obtain ⟨other, reads, isEqual⟩ := Number.exists_ofText?_canonicalText isFinite
  simp only [literalText, if_pos, reads]
  exact ((Number.canonicalText_eq_iff isFinite).mpr isEqual).symm

namespace Query

/-- The canonical text of a finite number is matched as a number literal, is a single token, is
read as an equal number and is its own canonical text. As the argument of `:val(…)` it selects the
nodes of equal numbers, and of the strings of that text. -/
theorem select_val_canonicalText (isFinite : value.isFinite = true) :
    number.Matches value.canonicalText.toList ∧
      tokenize .selector value.canonicalText = .ok [⟨.literal, value.canonicalText, 0⟩] ∧
      (∃ other, Number.ofText? value.canonicalText = some other ∧ value.equal other = true) ∧
      (∀ place, Level.literalText ⟨.literal, value.canonicalText, place⟩ = value.canonicalText) ∧
      ∀ query : Query, ∃ selected,
        (query.select (":val(" ++ value.canonicalText ++ ")")).outcome = .ok selected ∧
          ∀ id node, query.document.node? id = some node →
            (id ∈ selected ↔ node.element.IsNumberOrText value) := by
  have isNumber : number.Matches value.canonicalText.toList := by
    rw [Number.canonicalText, String.toList_ofList]
    exact Number.matches_canonicalChars isFinite
  obtain ⟨other, reads, isEqual⟩ := Number.exists_ofText?_canonicalText isFinite
  refine ⟨isNumber, tokenize_number isNumber, ⟨other, reads, isEqual⟩,
    Level.literalText_canonicalText isFinite, fun query => ?_⟩
  obtain ⟨tokens, lexed, level⟩ := Level.builds_val_number query.scope isNumber reads
  have isSame : other.canonicalText = value.canonicalText :=
    ((Number.canonicalText_eq_iff isFinite).mpr isEqual).symm
  rw [isSame] at level
  refine ⟨_, outcome_select_level lexed level (by simp), fun id node present => ?_⟩
  have isNode : id ∈ query.document.all := Document.mem_all_of_node? present
  simp only [List.mem_filter, isNode, true_and, decide_eq_true_eq]
  rw [passes_one, holds_val present, Element.canonicalText_eq_number_iff isFinite]

/-- The negative number next to zero, which is written with hundreds of decimal places, and zero. -/
theorem select_val_canonicalText_smallest :
    let smallest : Number := .finite true 1 (by decide +kernel)
    let query : Query := ⟨.ofTree (.array none
      [.scalar none (.number smallest), .scalar none (.number (.zero true))]), ⟨"", []⟩⟩
    smallest.isFinite = true ∧
      tokenize .selector smallest.canonicalText = .ok [⟨.literal, smallest.canonicalText, 0⟩] ∧
        ∃ selected,
          (query.select (":val(" ++ smallest.canonicalText ++ ")")).outcome = .ok selected ∧
            1 ∈ selected ∧ 2 ∉ selected := by
  intro smallest query
  have isFinite : smallest.isFinite = true := rfl
  obtain ⟨_, isSingle, _, _, selects⟩ := select_val_canonicalText isFinite
  obtain ⟨selected, outcome, isSelected⟩ := selects query
  refine ⟨isFinite, isSingle, selected, outcome, ?_, ?_⟩
  · exact (isSelected 1 _ rfl).mpr (.number (by decide +kernel))
  · rw [isSelected 2 _ rfl]
    intro stands
    cases stands with
    | number isEqual => exact absurd isEqual (by decide +kernel)

end Query

end TreeQuery
