import TreeQuery.Json
import TreeQuery.Proofs.Number.Layout
import TreeQuery.Proofs.Text.JsonString

/-!
The compact text of a JSON value.

A text tells where its value ends: a string at the closing quote, an array and an object at the
closing bracket, and every other value before a comma or a closing bracket. So a text is the front
of another one only if both are texts of one value, and no two values have the same text.
-/

namespace TreeQuery

namespace Json

/-- The characters that may follow a value inside another one. -/
def closers : List Char := [',', ']', '\x7d']

/-- The characters that start a value with an end of its own. -/
def openers : List Char := ['"', '[', '\x7b']

/-- What may stand behind a value. -/
def Ends (rest : List Char) : Prop := ∀ c ∈ rest.head?, c ∈ closers

/-- A value that is told from all others by its text, whatever stands behind it. -/
def Told {α : Type} (word : α → List Char) (value : α) : Prop :=
  ∀ ⦃other : α⦄ ⦃rest behind : List Char⦄, Ends rest → Ends behind →
    word value ++ rest = word other ++ behind → value = other ∧ rest = behind

variable {rest behind : List Char}

theorem ends_nil : Ends [] := by simp [Ends]

theorem ends_cons {c : Char} (isCloser : c ∈ closers) : Ends (c :: rest) := by
  rintro _ ⟨⟩
  exact isCloser

/-! ## Rows

Items and entries are written in one way, with their own words and closing bracket.
-/

section Row

variable {α : Type} {word : α → List Char} {close : Char}

/-- What follows an item: the other items, each behind a comma, and the closing bracket. -/
def moreChars (word : α → List Char) (close : Char) : List α → List Char
  | [] => [close]
  | item :: items => ',' :: (word item ++ moreChars word close items)

def rowChars (word : α → List Char) (close : Char) : List α → List Char
  | [] => [close]
  | item :: items => word item ++ moreChars word close items

theorem ends_moreChars (isCloser : close ∈ closers) (items : List α) :
    Ends (moreChars word close items ++ rest) := by
  cases items with
  | nil => exact ends_cons isCloser
  | cons => exact ends_cons (by decide)

theorem moreChars_append_inj (isCloser : close ∈ closers) (notComma : close ≠ ',')
    {items others : List α} (told : ∀ item ∈ items, Told word item)
    (same : moreChars word close items ++ rest = moreChars word close others ++ behind) :
    items = others ∧ rest = behind := by
  induction items generalizing others with
  | nil =>
      cases others with
      | nil => exact ⟨rfl, (List.cons.inj same).2⟩
      | cons => exact absurd (List.cons.inj same).1 notComma
  | cons item items induction =>
      cases others with
      | nil => exact absurd (List.cons.inj same).1.symm notComma
      | cons other others =>
          obtain ⟨itemTold, itemsTold⟩ := List.forall_mem_cons.mp told
          simp only [moreChars, List.cons_append, List.cons.injEq, List.append_assoc,
            true_and] at same
          obtain ⟨rfl, sameRest⟩ := itemTold (ends_moreChars isCloser items)
            (ends_moreChars isCloser others) same
          obtain ⟨rfl, sameBehind⟩ := induction itemsTold sameRest
          exact ⟨rfl, sameBehind⟩

/-- Rows are told by their texts when their items are, and no item starts as a row ends. -/
theorem rowChars_append_inj (isCloser : close ∈ closers) (notComma : close ≠ ',')
    (starts : ∀ value rest, ¬Ends (word value ++ rest)) {items others : List α}
    (told : ∀ item ∈ items, Told word item)
    (same : rowChars word close items ++ rest = rowChars word close others ++ behind) :
    items = others ∧ rest = behind := by
  cases items with
  | nil =>
      cases others with
      | nil => exact ⟨rfl, (List.cons.inj same).2⟩
      | cons other others =>
          rw [rowChars, rowChars, List.append_assoc] at same
          have isEnd : Ends ([close] ++ rest) := ends_cons isCloser
          exact absurd (same ▸ isEnd) (starts _ _)
  | cons item items =>
      cases others with
      | nil =>
          rw [rowChars, rowChars, List.append_assoc] at same
          have isEnd : Ends ([close] ++ behind) := ends_cons isCloser
          exact absurd (same ▸ isEnd) (starts _ _)
      | cons other others =>
          obtain ⟨itemTold, itemsTold⟩ := List.forall_mem_cons.mp told
          rw [rowChars, rowChars, List.append_assoc, List.append_assoc] at same
          obtain ⟨rfl, sameRest⟩ := itemTold (ends_moreChars isCloser items)
            (ends_moreChars isCloser others) same
          obtain ⟨rfl, sameBehind⟩ := moreChars_append_inj isCloser notComma itemsTold sameRest
          exact ⟨rfl, sameBehind⟩

end Row

theorem itemsChars_eq_rowChars (items : List Json) :
    itemsChars items = rowChars chars ']' items := by
  cases items with
  | nil => rfl
  | cons item items =>
      induction items generalizing item with
      | nil => rfl
      | cons next items induction =>
          simp only [itemsChars, induction, rowChars, moreChars]

def entryChars (entry : String × Json) : List Char :=
  JsonString.encode entry.1.toList ++ ':' :: chars entry.2

theorem entriesChars_eq_rowChars (entries : List (String × Json)) :
    entriesChars entries = rowChars entryChars '\x7d' entries := by
  cases entries with
  | nil => rfl
  | cons entry entries =>
      induction entries generalizing entry with
      | nil => simp [entriesChars, rowChars, moreChars, entryChars]
      | cons next entries induction =>
          simp only [entriesChars, induction, rowChars, moreChars, entryChars, List.cons_append,
            List.append_assoc]

/-! ## Values without an end of their own -/

/-- Whether a value is written without quotes and brackets. -/
def isBare : Json → Bool
  | .null | .bool _ | .integer _ | .number _ => true
  | .string _ | .array _ | .object _ => false

theorem not_mem_of_isBare {value : Json} (bare : value.isBare = true) :
    ∀ c ∈ value.chars, c ∉ openers ++ closers := by
  have apart : ∀ c ∈ openers ++ closers, ¬(c.isDigit = true ∨ c ∈ Number.numberMarks) := by
    simp [openers, closers, Number.numberMarks]
  cases value with
  | null => simp [chars, openers, closers]
  | bool value => cases value <;> simp [chars, openers, closers]
  | integer value =>
      intro c isMember isMark
      exact apart c isMark (Number.isDigit_or_mem_of_mem_wholeChars isMember)
  | number value =>
      intro c isMember isMark
      exact apart c isMark (Layout.isDigit_or_mem_of_mem_chars isMember)
  | _ => cases bare

theorem chars_ne_nil_of_isBare {value : Json} (bare : value.isBare = true) : value.chars ≠ [] := by
  cases value with
  | null => exact List.cons_ne_nil _ _
  | bool value => cases value <;> exact List.cons_ne_nil _ _
  | integer value => exact List.append_ne_nil_of_right_ne_nil _ Nat.toDigits_ne_nil
  | number value =>
      have marks : Layout.json.marksWhole = true := rfl
      obtain ⟨c, isMember, _⟩ := Layout.exists_mark_of_marksWhole marks value
      exact List.ne_nil_of_mem isMember
  | _ => cases bare

/-- Whether a text has a letter of the words for null and the truth values that no number has. -/
def hasLetter (text : List Char) : Bool := text.any fun c => c == 'u' || c == 'l'

/-- Whether a text has nothing but digits and signs. -/
def isWhole (text : List Char) : Bool := text.all fun c => c.isDigit || c == '-'

theorem bare_cases {value : Json} (bare : value.isBare = true) :
    value ∈ [null, bool true, bool false] ∨ (∃ whole, value = integer whole) ∨
      ∃ other, value = number other := by
  cases value with
  | null => exact .inl (by simp)
  | bool value => exact .inl (by cases value <;> simp)
  | integer value => exact .inr (.inl ⟨value, rfl⟩)
  | number value => exact .inr (.inr ⟨value, rfl⟩)
  | _ => cases bare

theorem hasLetter_eq_false {text : List Char}
    (inText : ∀ c ∈ text, c.isDigit = true ∨ c ∈ Number.numberMarks) : hasLetter text = false := by
  refine List.any_eq_false.mpr fun c isMember => ?_
  have apart : ∀ c ∈ ['u', 'l'], ¬(c.isDigit = true ∨ c ∈ Number.numberMarks) := by
    simp [Number.numberMarks]
  have notLetter := mt (apart c) (not_not_intro (inText c isMember))
  simpa using notLetter

theorem hasLetter_integer (value : Int) : hasLetter (integer value).chars = false :=
  hasLetter_eq_false fun _ isMember => Number.isDigit_or_mem_of_mem_wholeChars isMember

theorem hasLetter_number (value : Number) : hasLetter (number value).chars = false :=
  hasLetter_eq_false fun _ isMember => Layout.isDigit_or_mem_of_mem_chars isMember

theorem isWhole_integer (value : Int) : isWhole (integer value).chars = true := by
  refine List.all_eq_true.mpr fun c isMember => ?_
  simpa using Number.isDigit_or_sign_of_mem_wholeChars isMember

theorem isWhole_number (value : Number) : isWhole (number value).chars = false := by
  have marks : Layout.json.marksWhole = true := rfl
  obtain ⟨c, isMember, notDigit, notSign⟩ := Layout.exists_mark_of_marksWhole marks value
  exact List.all_eq_false.mpr ⟨c, isMember, by simp [notDigit, notSign]⟩

/-- The text of a bare value tells whether it is a word, a whole number or another number. -/
theorem eq_of_chars_eq_of_isBare {left right : Json} (leftBare : left.isBare = true)
    (rightBare : right.isBare = true) (same : left.chars = right.chars) : left = right := by
  have areWords : ∀ word ∈ [null, bool true, bool false], hasLetter word.chars = true := by
    simp [chars, hasLetter]
  have wordsApart : ∀ left ∈ [null, bool true, bool false],
      ∀ right ∈ [null, bool true, bool false], left.chars = right.chars → left = right := by
    simp [chars]
  have sameLetter := congrArg hasLetter same
  have sameWhole := congrArg isWhole same
  rcases bare_cases leftBare with leftWord | ⟨leftWhole, rfl⟩ | ⟨leftNumber, rfl⟩
  · rcases bare_cases rightBare with rightWord | ⟨rightWhole, rfl⟩ | ⟨rightNumber, rfl⟩
    · exact wordsApart left leftWord right rightWord same
    · cases (areWords left leftWord).symm.trans (sameLetter.trans (hasLetter_integer rightWhole))
    · cases (areWords left leftWord).symm.trans (sameLetter.trans (hasLetter_number rightNumber))
  · rcases bare_cases rightBare with rightWord | ⟨rightWhole, rfl⟩ | ⟨rightNumber, rfl⟩
    · cases (hasLetter_integer leftWhole).symm.trans (sameLetter.trans (areWords right rightWord))
    · rw [Number.wholeChars_injective same]
    · cases (isWhole_integer leftWhole).symm.trans (sameWhole.trans (isWhole_number rightNumber))
  · rcases bare_cases rightBare with rightWord | ⟨rightWhole, rfl⟩ | ⟨rightNumber, rfl⟩
    · cases (hasLetter_number leftNumber).symm.trans (sameLetter.trans (areWords right rightWord))
    · cases (isWhole_number leftNumber).symm.trans (sameWhole.trans (isWhole_integer rightWhole))
    · rw [Layout.chars_injective .json same]

/-! ## All values -/

theorem exists_opener_of_not_isBare {value : Json} (notBare : value.isBare = false) :
    ∃ c ∈ openers, ∃ rest, value.chars = c :: rest := by
  cases value with
  | string => exact ⟨'"', by decide, _, rfl⟩
  | array => exact ⟨'[', by decide, _, rfl⟩
  | object => exact ⟨'\x7b', by decide, _, rfl⟩
  | _ => cases notBare

/-- The first character of a text is no comma and no closing bracket. -/
theorem not_ends_chars (value : Json) (rest : List Char) : ¬Ends (chars value ++ rest) := by
  intro ends
  cases bare : value.isBare with
  | true =>
      obtain ⟨first, others, spelled⟩ := List.exists_cons_of_ne_nil (chars_ne_nil_of_isBare bare)
      rw [spelled] at ends
      have isMember : first ∈ value.chars := spelled ▸ List.mem_cons_self
      exact not_mem_of_isBare bare first isMember (List.mem_append_right _ (ends first rfl))
  | false =>
      obtain ⟨first, isOpener, others, spelled⟩ := exists_opener_of_not_isBare bare
      rw [spelled] at ends
      have apart : ∀ c ∈ openers, c ∉ closers := by simp [openers, closers]
      exact apart first isOpener (ends first rfl)

/-- Whether a value is bare shows in the first character. -/
theorem isBare_of_chars_append {left right : Json} (leftBare : left.isBare = true)
    (same : left.chars ++ rest = right.chars ++ behind) : right.isBare = true := by
  cases rightBare : right.isBare with
  | true => rfl
  | false =>
      obtain ⟨first, others, spelled⟩ :=
        List.exists_cons_of_ne_nil (chars_ne_nil_of_isBare leftBare)
      obtain ⟨opener, isOpener, inside, isText⟩ := exists_opener_of_not_isBare rightBare
      rw [spelled, isText] at same
      have isMember : first ∈ left.chars := spelled ▸ List.mem_cons_self
      rw [(List.cons.inj same).1] at isMember
      exact absurd (List.mem_append_left _ isOpener) (not_mem_of_isBare leftBare opener isMember)

theorem append_inj_of_ends {first second : List Char} (firstInside : ∀ c ∈ first, c ∉ closers)
    (secondInside : ∀ c ∈ second, c ∉ closers) (ends : Ends rest) (alsoEnds : Ends behind)
    (same : first ++ rest = second ++ behind) : first = second ∧ rest = behind := by
  induction first generalizing second with
  | nil =>
      cases second with
      | nil => exact ⟨rfl, same⟩
      | cons c others =>
          rw [List.nil_append] at same
          rw [same] at ends
          exact absurd (ends c rfl) (secondInside c List.mem_cons_self)
  | cons c first induction =>
      obtain ⟨cInside, othersInside⟩ := List.forall_mem_cons.mp firstInside
      cases second with
      | nil =>
          rw [List.nil_append] at same
          rw [← same] at alsoEnds
          exact absurd (alsoEnds c rfl) cInside
      | cons d second =>
          obtain ⟨rfl, sameRest⟩ := List.cons.inj same
          have secondInside := (List.forall_mem_cons.mp secondInside).2
          obtain ⟨rfl, sameBehind⟩ := induction othersInside secondInside sameRest
          exact ⟨rfl, sameBehind⟩

theorem told_of_isBare {value : Json} (bare : value.isBare = true) : Told chars value := by
  intro other rest behind ends alsoEnds same
  have otherBare := isBare_of_chars_append bare same
  have inside {value : Json} (bare : value.isBare = true) : ∀ c ∈ value.chars, c ∉ closers :=
    fun c isMember isCloser =>
      not_mem_of_isBare bare c isMember (List.mem_append_right _ isCloser)
  obtain ⟨sameChars, sameRest⟩ := append_inj_of_ends (inside bare) (inside otherBare) ends alsoEnds
    same
  exact ⟨eq_of_chars_eq_of_isBare bare otherBare sameChars, sameRest⟩

/-- A literal is told by what is read from it. -/
theorem encode_append_inj {text other : String}
    (same : JsonString.encode text.toList ++ rest = JsonString.encode other.toList ++ behind) :
    text = other ∧ rest = behind := by
  simp only [JsonString.encode, List.cons_append, List.cons.injEq, List.append_assoc,
    List.nil_append, true_and] at same
  have reads := congrArg JsonString.decodeRest? same
  rw [JsonString.decodeRest?_encode, JsonString.decodeRest?_encode] at reads
  obtain ⟨sameText, sameRest⟩ := Prod.mk.inj (Option.some.inj reads)
  exact ⟨String.toList_inj.mp sameText, sameRest⟩

theorem told_string (text : String) : Told chars (string text) := by
  intro other rest behind ends alsoEnds same
  cases other with
  | string other =>
      obtain ⟨rfl, sameRest⟩ := encode_append_inj same
      exact ⟨rfl, sameRest⟩
  | array => cases same
  | object => cases same
  | _ => cases isBare_of_chars_append rfl same.symm

theorem told_array {items : List Json} (told : ∀ item ∈ items, Told chars item) :
    Told chars (array items) := by
  intro other rest behind ends alsoEnds same
  cases other with
  | array others =>
      simp only [chars, itemsChars_eq_rowChars, List.cons_append, List.cons.injEq, true_and] at same
      obtain ⟨rfl, sameRest⟩ := rowChars_append_inj (by decide) (by decide) not_ends_chars told same
      exact ⟨rfl, sameRest⟩
  | string => cases same
  | object => cases same
  | _ => cases isBare_of_chars_append rfl same.symm

theorem told_entry {entry : String × Json} (told : Told chars entry.2) : Told entryChars entry := by
  intro other rest behind ends alsoEnds same
  rw [entryChars, entryChars, List.append_assoc, List.append_assoc] at same
  obtain ⟨sameKey, sameRest⟩ := encode_append_inj same
  obtain ⟨sameValue, sameBehind⟩ := told ends alsoEnds (List.cons.inj sameRest).2
  exact ⟨Prod.ext sameKey sameValue, sameBehind⟩

theorem told_object {entries : List (String × Json)}
    (told : ∀ entry ∈ entries, Told entryChars entry) : Told chars (object entries) := by
  intro other rest behind ends alsoEnds same
  cases other with
  | object others =>
      have starts (entry : String × Json) (rest : List Char) : ¬Ends (entryChars entry ++ rest) :=
        fun ends => absurd (ends '"' rfl) (by decide)
      simp only [chars, entriesChars_eq_rowChars, List.cons_append, List.cons.injEq,
        true_and] at same
      obtain ⟨rfl, sameRest⟩ := rowChars_append_inj (by decide) (by decide) starts told same
      exact ⟨rfl, sameRest⟩
  | string => cases same
  | array => cases same
  | _ => cases isBare_of_chars_append rfl same.symm

-- The induction is on the value, with the statement for all items and for all entries.
mutual

/-- Every value is told by its text. -/
theorem told : (value : Json) → Told chars value
  | .null | .bool _ | .integer _ | .number _ => told_of_isBare rfl
  | .string text => told_string text
  | .array items => told_array (items_told items)
  | .object entries => told_object (entries_told entries)

theorem items_told : (items : List Json) → ∀ item ∈ items, Told chars item
  | [] => fun _ isMember => absurd isMember List.not_mem_nil
  | item :: items => List.forall_mem_cons.mpr ⟨told item, items_told items⟩

theorem entries_told : (entries : List (String × Json)) → ∀ entry ∈ entries, Told entryChars entry
  | [] => fun _ isMember => absurd isMember List.not_mem_nil
  | (_, value) :: entries =>
      List.forall_mem_cons.mpr ⟨told_entry (told value), entries_told entries⟩

end

theorem chars_injective : Function.Injective chars := by
  intro left right same
  have sameRest : left.chars ++ [] = right.chars ++ [] := by rw [same]
  exact (told left ends_nil ends_nil sameRest).1

theorem text_inj {left right : Json} : left.text = right.text ↔ left = right := by
  rw [text, text, String.ofList_inj]
  exact chars_injective.eq_iff

end Json

end TreeQuery
