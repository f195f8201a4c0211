import TreeQuery.Proofs.Number.Canonical
import TreeQuery.Proofs.Selector.Literals
import TreeQuery.Proofs.Text.JsonValue

/-!
What canonical texts tell apart.

Values are compared by their canonical texts. Two numbers have one text where they have one JSON
form, a collection has the text of its JSON form, and only strings, which are written without
quotes, may start as collections do. So the text of a value that is not a string tells its JSON form
among those of all such values.
-/

namespace TreeQuery

/-! ## Numbers -/

namespace Json

open Number

variable {left right : Number} {negative : Bool} {units : Nat}

theorem ofNumber_finite (representable : Representable units) :
    ofNumber (.finite negative units representable) =
      if units % unitsPerOne = 0 ∧ units < twoPow 53 * unitsPerOne then
        .integer (signedUnits negative (units / unitsPerOne))
      else
        .number (.finite negative units representable) := by
  simp [ofNumber, Number.isIntegral, Number.magnitudeBelow, Number.isFinite, Number.truncate]

theorem ofNumber_of_not_finite (notFinite : left.isFinite = false) : ofNumber left = .null := by
  cases left with
  | finite => cases notFinite
  | _ => rfl

/-- Whole numbers count their ones without loss. -/
theorem signedUnits_div_inj {leftNegative rightNegative : Bool} {leftUnits rightUnits : Nat}
    (leftWhole : leftUnits % unitsPerOne = 0) (rightWhole : rightUnits % unitsPerOne = 0) :
    signedUnits leftNegative (leftUnits / unitsPerOne) =
        signedUnits rightNegative (rightUnits / unitsPerOne) ↔
      signedUnits leftNegative leftUnits = signedUnits rightNegative rightUnits := by
  have notZero := Nat.ne_of_gt unitsPerOne_pos
  generalize unitsPerOne = scale at leftWhole rightWhole notZero ⊢
  obtain ⟨leftOnes, rfl⟩ := Nat.dvd_of_mod_eq_zero leftWhole
  obtain ⟨rightOnes, rfl⟩ := Nat.dvd_of_mod_eq_zero rightWhole
  have positive := Nat.pos_of_ne_zero notZero
  rw [Nat.mul_div_cancel_left _ positive, Nat.mul_div_cancel_left _ positive, signedUnits_eq_iff,
    signedUnits_eq_iff, Nat.mul_ne_zero_iff, Nat.mul_ne_zero_iff, and_iff_right notZero,
    and_iff_right notZero, Nat.mul_right_inj notZero]

/-- A finite number and another number have one JSON form where they are equal. -/
theorem ofNumber_eq_iff (isFinite : left.isFinite = true) :
    ofNumber left = ofNumber right ↔ left.equal right = true := by
  cases left with
  | nan => cases isFinite
  | infinite => cases isFinite
  | finite leftNegative leftUnits leftRepresentable =>
      cases rightFinite : right.isFinite with
      | false =>
          rw [ofNumber_of_not_finite rightFinite, ofNumber_finite]
          cases right with
          | finite => cases rightFinite
          | _ => split <;> simp [Number.equal]
      | true =>
          cases right with
          | nan => cases rightFinite
          | infinite => cases rightFinite
          | finite rightNegative rightUnits rightRepresentable =>
              rw [ofNumber_finite, ofNumber_finite, Number.equal, beq_iff_eq]
              have zeroWhole {units : Nat} (notWhole :
                  ¬(units % unitsPerOne = 0 ∧ units < twoPow 53 * unitsPerOne)) : units ≠ 0 := by
                rintro rfl
                exact notWhole ⟨Nat.zero_mod _, Nat.mul_pos (twoPow_pos _) unitsPerOne_pos⟩
              split
              · rename_i leftWhole
                split
                · rename_i rightWhole
                  rw [integer.injEq, signedUnits_div_inj leftWhole.1 rightWhole.1]
                · rename_i rightNotWhole
                  refine iff_of_false Json.noConfusion fun same => ?_
                  exact rightNotWhole ((signedUnits_eq_iff.mp same).2 ▸ leftWhole)
              · rename_i leftNotWhole
                split
                · rename_i rightWhole
                  refine iff_of_false Json.noConfusion fun same => ?_
                  exact leftNotWhole ((signedUnits_eq_iff.mp same).2 ▸ rightWhole)
                · rename_i rightNotWhole
                  rw [number.injEq, Number.finite.injEq, signedUnits_eq_iff]
                  simp only [zeroWhole leftNotWhole, zeroWhole rightNotWhole, ne_eq,
                    not_false_eq_true, and_true, Bool.coe_iff_coe]

theorem ofNumber_eq_null_iff : ofNumber left = .null ↔ left.isFinite = false := by
  refine ⟨fun isNull => ?_, ofNumber_of_not_finite⟩
  cases isFinite : left.isFinite with
  | false => rfl
  | true =>
      have equalsNaN : left.equal .nan = true := (ofNumber_eq_iff isFinite).mp isNull
      cases left <;> exact absurd equalsNaN Bool.false_ne_true

theorem isBare_ofNumber (value : Number) : (ofNumber value).isBare = true := by
  unfold ofNumber
  split
  · rfl
  · split <;> rfl

theorem bool_ne_ofNumber (truth : Bool) (value : Number) : bool truth ≠ ofNumber value := by
  unfold ofNumber
  split
  · exact Json.noConfusion
  · split <;> exact Json.noConfusion

end Json

/-- Two numbers are written in the same way where they have one JSON form. -/
theorem Number.canonicalText_eq_iff_ofNumber {left right : Number} :
    left.canonicalText = right.canonicalText ↔ Json.ofNumber left = Json.ofNumber right := by
  cases leftFinite : left.isFinite with
  | true => rw [canonicalText_eq_iff leftFinite, Json.ofNumber_eq_iff leftFinite]
  | false =>
      cases rightFinite : right.isFinite with
      | true =>
          rw [eq_comm, canonicalText_eq_iff rightFinite, ← Json.ofNumber_eq_iff rightFinite,
            eq_comm]
      | false =>
          rw [canonicalText_of_not_finite leftFinite, canonicalText_of_not_finite rightFinite,
            Json.ofNumber_of_not_finite leftFinite, Json.ofNumber_of_not_finite rightFinite]
          exact iff_of_true rfl rfl

/-- A number is written with digits behind its sign, or as null. -/
theorem Number.canonicalText_ne_cons (number : Number) {c : Char} (notDigit : c.isDigit = false)
    (notMark : c ∉ ['-', 'n']) (rest : List Char) : number.canonicalText.toList ≠ c :: rest := by
  intro spelled
  rw [canonicalText, String.toList_ofList] at spelled
  cases isFinite : number.isFinite with
  | true =>
      have notSign : c ≠ '-' := fun isSign => notMark (by simp [isSign])
      exact canonicalChars_ne_cons isFinite notDigit notSign rest spelled
  | false =>
      rw [canonicalChars_of_not_finite isFinite] at spelled
      exact notMark (by simp [← (List.cons.inj spelled).1])

/-! ## Scalars -/

namespace Scalar

variable {value left right : Scalar}

/-- Null is written as a number that is not finite. -/
theorem bool_or_number (notText : ∀ text, value ≠ .string text) :
    (∃ truth, value = .bool truth) ∨
      ∃ number : Number, value.canonicalText = number.canonicalText ∧
        value.toJson = .ofNumber number := by
  cases value with
  | missing => exact .inr ⟨.nan, rfl, rfl⟩
  | null => exact .inr ⟨.nan, rfl, rfl⟩
  | bool truth => exact .inl ⟨truth, rfl⟩
  | number value => exact .inr ⟨value, rfl, rfl⟩
  | string text => exact absurd rfl (notText text)

theorem bool_ne_number (truth : Bool) (number : Number) :
    (Scalar.bool truth).canonicalText ≠ number.canonicalText ∧
      (Scalar.bool truth).toJson ≠ .ofNumber number := by
  refine ⟨fun same => ?_, Json.bool_ne_ofNumber truth number⟩
  have spelled := congrArg String.toList same
  cases truth with
  | true => exact number.canonicalText_ne_cons (by decide) (by decide) _ spelled.symm
  | false => exact number.canonicalText_ne_cons (by decide) (by decide) _ spelled.symm

/-- Scalars that are no strings are written in the same way where they have one JSON form. -/
theorem canonicalText_eq_iff (leftNotText : ∀ text, left ≠ .string text)
    (rightNotText : ∀ text, right ≠ .string text) :
    left.canonicalText = right.canonicalText ↔ left.toJson = right.toJson := by
  rcases bool_or_number leftNotText with ⟨leftTruth, rfl⟩ | ⟨leftNumber, leftText, leftJson⟩
  · rcases bool_or_number rightNotText with ⟨rightTruth, rfl⟩ | ⟨rightNumber, rightText, rightJson⟩
    · cases leftTruth <;> cases rightTruth <;> simp [canonicalText, toJson]
    · have apart := bool_ne_number leftTruth rightNumber
      rw [rightText, rightJson]
      exact iff_of_false apart.1 apart.2
  · rcases bool_or_number rightNotText with ⟨rightTruth, rfl⟩ | ⟨rightNumber, rightText, rightJson⟩
    · have apart := bool_ne_number rightTruth leftNumber
      rw [leftText, leftJson]
      exact iff_of_false apart.1.symm apart.2.symm
    · rw [leftText, rightText, leftJson, rightJson]
      exact Number.canonicalText_eq_iff_ofNumber

theorem isBare_toJson (notText : ∀ text, value ≠ .string text) : value.toJson.isBare = true := by
  rcases bool_or_number notText with ⟨truth, rfl⟩ | ⟨number, _, sameJson⟩
  · rfl
  · rw [sameJson]
    exact Json.isBare_ofNumber number

/-- Scalars that are no strings are written without brackets, here and in JSON. -/
theorem apart_of_not_isBare (notText : ∀ text, value ≠ .string text) {json : Json}
    (notBare : json.isBare = false) : value.canonicalText ≠ json.text ∧ value.toJson ≠ json := by
  obtain ⟨opener, isOpener, others, isText⟩ := Json.exists_opener_of_not_isBare notBare
  have apart : ∀ c ∈ Json.openers, c.isDigit = false ∧ c ∉ ['-', 'n'] ∧ c ≠ 't' ∧ c ≠ 'f' := by
    simp [Json.openers]
  obtain ⟨notDigit, notMark, notTrue, notFalse⟩ := apart opener isOpener
  have spelled : json.text.toList = opener :: others := by
    rw [Json.text, String.toList_ofList, isText]
  refine ⟨fun same => ?_, fun same => ?_⟩
  · rw [← same] at spelled
    rcases bool_or_number notText with ⟨truth, rfl⟩ | ⟨number, sameText, _⟩
    · cases truth with
      | true => exact notTrue (List.cons.inj spelled).1.symm
      | false => exact notFalse (List.cons.inj spelled).1.symm
    · rw [sameText] at spelled
      exact number.canonicalText_ne_cons notDigit notMark others spelled
  · rw [← same, isBare_toJson notText] at notBare
    cases notBare

end Scalar

/-! ## Elements -/

namespace Element

variable {element left right : Element}

/-- Whether an element is a string; a missing string is none. -/
def isText : Element → Bool
  | .scalar _ (.string _) => true
  | _ => false

/-- A collection is written in JSON, with brackets. -/
theorem scalar_or_collection (notText : element.isText = false) :
    (∃ declared value, element = .scalar declared value ∧ ∀ text, value ≠ .string text) ∨
      element.canonicalText = element.toJson.text ∧ element.toJson.isBare = false := by
  cases element with
  | scalar declared value =>
      refine .inl ⟨declared, value, rfl, ?_⟩
      rintro text rfl
      cases notText
  | array => exact .inr ⟨rfl, rfl⟩
  | keyed => exact .inr ⟨rfl, rfl⟩

theorem canonicalText_eq_iff (leftNotText : left.isText = false)
    (rightNotText : right.isText = false) :
    left.canonicalText = right.canonicalText ↔ left.toJson = right.toJson := by
  rcases scalar_or_collection leftNotText with
    ⟨leftDeclared, leftValue, rfl, leftIsOther⟩ | ⟨leftIsJson, leftNotBare⟩
  · rcases scalar_or_collection rightNotText with
      ⟨rightDeclared, rightValue, rfl, rightIsOther⟩ | ⟨rightIsJson, rightNotBare⟩
    · exact Scalar.canonicalText_eq_iff leftIsOther rightIsOther
    · have apart := Scalar.apart_of_not_isBare leftIsOther rightNotBare
      rw [rightIsJson]
      exact iff_of_false apart.1 apart.2
  · rcases scalar_or_collection rightNotText with
      ⟨rightDeclared, rightValue, rfl, rightIsOther⟩ | ⟨rightIsJson, rightNotBare⟩
    · have apart := Scalar.apart_of_not_isBare rightIsOther leftNotBare
      rw [leftIsJson]
      exact iff_of_false apart.1.symm apart.2.symm
    · rw [leftIsJson, rightIsJson]
      exact Json.text_inj

theorem toJson_ne_string (notText : element.isText = false) (text : String) :
    element.toJson ≠ .string text := by
  intro isString
  cases element with
  | scalar declared value =>
      have isOther : ∀ text, value ≠ .string text := by
        rintro _ rfl
        cases notText
      have isBare := Scalar.isBare_toJson isOther
      rw [toJson] at isString
      rw [isString] at isBare
      cases isBare
  | array => cases isString
  | keyed => cases isString

/-- The canonical texts of elements that are not strings are the same where their JSON forms are the
same. So `:val(…)` holds of no two such nodes with different values, but it may hold of such a node
and of a string. -/
theorem canonicalText_identifies (leftNotText : left.isText = false)
    (rightNotText : right.isText = false) :
    (left.canonicalText = right.canonicalText ↔ left.toJson = right.toJson) ∧
      (∀ (query : Query) (text : String) (first second : NodeId),
        (query.document.node? first).map Node.element = some left →
        (query.document.node? second).map Node.element = some right →
        query.Holds (.val text) first → query.Holds (.val text) second →
          left.toJson = right.toJson) ∧
      ∃ string : Element, string.isText = true ∧ string.canonicalText = left.canonicalText ∧
        string.toJson ≠ left.toJson := by
  have identifies := canonicalText_eq_iff leftNotText rightNotText
  refine ⟨identifies, ?_, ?_⟩
  · intro query text first second isLeft isRight leftHolds rightHolds
    obtain ⟨firstNode, firstPresent, rfl⟩ := Option.map_eq_some_iff.mp isLeft
    obtain ⟨secondNode, secondPresent, rfl⟩ := Option.map_eq_some_iff.mp isRight
    rw [Query.holds_val firstPresent] at leftHolds
    rw [Query.holds_val secondPresent] at rightHolds
    exact identifies.mp (leftHolds.trans rightHolds.symm)
  · exact ⟨.scalar none (.string left.canonicalText), rfl, rfl,
      (toJson_ne_string leftNotText left.canonicalText).symm⟩

/-- A map with a repeated key and an object without it have one JSON form. -/
theorem canonicalText_identifies_repeated :
    let truth : Element := .scalar none (.bool true)
    let left : Element := .keyed none .map [("k", .scalar none (.missing .string)), ("k", truth)]
    let right : Element := .keyed none .object [("k", truth)]
    left.isText = false ∧ right.isText = false ∧ left.toJson = right.toJson ∧
      left.canonicalText = right.canonicalText := by
  intro truth left right
  have leftNotText : left.isText = false := rfl
  have rightNotText : right.isText = false := rfl
  have same : left.toJson = right.toJson := by decide +kernel
  exact ⟨leftNotText, rightNotText, same,
    (canonicalText_identifies leftNotText rightNotText).1.mpr same⟩

end Element

end TreeQuery
