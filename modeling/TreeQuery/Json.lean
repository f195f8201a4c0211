import TreeQuery.Number.Layout
import TreeQuery.Text.JsonString

/-!
JSON values and their compact text.

Objects keep their entries in order and have no key twice when built by `Json.object` from
`Json.merge`. Whole numbers are told apart from other numbers, because they are written without a
point.
-/

namespace TreeQuery

inductive Json where
  | null
  | bool (value : Bool)
  | integer (value : Int)
  | number (value : Number)
  | string (value : String)
  | array (items : List Json)
  | object (entries : List (String × Json))
  deriving Inhabited

namespace Json

/-- Sets the value of a key: a key that is present keeps its place, a new one comes last. -/
def put (key : String) (value : Json) : List (String × Json) → List (String × Json)
  | [] => [(key, value)]
  | (present, old) :: rest =>
      if present = key then (key, value) :: rest else (present, old) :: put key value rest

/-- The entries with repeated keys merged: the first place and the last value of each. -/
def merge (entries : List (String × Json)) : List (String × Json) :=
  entries.foldl (fun merged (key, value) => put key value merged) []

/-- The JSON form of a number: whole numbers below `2 ^ 53` are integers, and what is not finite
is null. -/
def ofNumber (number : Number) : Json :=
  if number.isIntegral && number.magnitudeBelow (twoPow 53) then
    .integer number.truncate
  else if number.isFinite then
    .number number
  else
    .null

/-! ## Equality -/

mutual

/-- Whether two values are the same, entries of objects compared in order. -/
def same : Json → Json → Bool
  | .null, .null => true
  | .bool left, .bool right => left == right
  | .integer left, .integer right => left == right
  | .number left, .number right => decide (left = right)
  | .string left, .string right => left == right
  | .array left, .array right => sameItems left right
  | .object left, .object right => sameEntries left right
  | _, _ => false

def sameItems : List Json → List Json → Bool
  | [], [] => true
  | left :: lefts, right :: rights => same left right && sameItems lefts rights
  | _, _ => false

def sameEntries : List (String × Json) → List (String × Json) → Bool
  | [], [] => true
  | (leftKey, left) :: lefts, (rightKey, right) :: rights =>
      leftKey == rightKey && same left right && sameEntries lefts rights
  | _, _ => false

end

mutual

theorem eq_of_same : (left right : Json) → same left right = true → left = right
  | .null, right, agree => by cases right <;> simp_all [same]
  | .bool _, right, agree => by cases right <;> simp_all [same]
  | .integer _, right, agree => by cases right <;> simp_all [same]
  | .number _, right, agree => by cases right <;> simp_all [same]
  | .string _, right, agree => by cases right <;> simp_all [same]
  | .array items, right, agree => by
      cases right <;> simp only [same, Bool.false_eq_true] at agree
      rw [eq_of_sameItems items _ agree]
  | .object entries, right, agree => by
      cases right <;> simp only [same, Bool.false_eq_true] at agree
      rw [eq_of_sameEntries entries _ agree]

theorem eq_of_sameItems : (left right : List Json) → sameItems left right = true → left = right
  | [], right, agree => by cases right <;> simp_all [sameItems]
  | left :: lefts, right, agree => by
      cases right <;> simp only [sameItems, Bool.and_eq_true, Bool.false_eq_true] at agree
      rw [eq_of_same left _ agree.1, eq_of_sameItems lefts _ agree.2]

theorem eq_of_sameEntries : (left right : List (String × Json)) →
    sameEntries left right = true → left = right
  | [], right, agree => by cases right <;> simp_all [sameEntries]
  | (leftKey, left) :: lefts, right, agree => by
      rcases right with _ | ⟨⟨rightKey, right⟩, rights⟩ <;>
        simp only [sameEntries, Bool.and_eq_true, beq_iff_eq, Bool.false_eq_true] at agree
      rw [agree.1.1, eq_of_same left _ agree.1.2, eq_of_sameEntries lefts _ agree.2]

end

mutual

theorem same_self : (value : Json) → same value value = true
  | .null | .bool _ | .integer _ | .number _ | .string _ => by simp [same]
  | .array items => by simpa only [same] using sameItems_self items
  | .object entries => by simpa only [same] using sameEntries_self entries

theorem sameItems_self : (items : List Json) → sameItems items items = true
  | [] => rfl
  | item :: items => by simp [sameItems, same_self item, sameItems_self items]

theorem sameEntries_self : (entries : List (String × Json)) → sameEntries entries entries = true
  | [] => rfl
  | (_, value) :: entries => by simp [sameEntries, same_self value, sameEntries_self entries]

end

theorem same_iff_eq {left right : Json} : same left right = true ↔ left = right :=
  ⟨eq_of_same left right, fun equal => equal ▸ same_self left⟩

instance : DecidableEq Json := fun _ _ => decidable_of_iff _ same_iff_eq

/-! ## Text -/

mutual

/-- The compact text of a value: no spaces, entries in order. -/
def chars : Json → List Char
  | .null => ['n', 'u', 'l', 'l']
  | .bool true => ['t', 'r', 'u', 'e']
  | .bool false => ['f', 'a', 'l', 's', 'e']
  | .integer value => Number.wholeChars value
  | .number value => Layout.json.chars value
  | .string value => JsonString.encode value.toList
  | .array items => '[' :: itemsChars items
  | .object entries => '\x7b' :: entriesChars entries

/-- The items with commas between them, up to the closing bracket. -/
def itemsChars : List Json → List Char
  | [] => [']']
  | [item] => chars item ++ [']']
  | item :: items => chars item ++ ',' :: itemsChars items

/-- The entries with commas between them, up to the closing brace. -/
def entriesChars : List (String × Json) → List Char
  | [] => ['\x7d']
  | [(key, value)] => JsonString.encode key.toList ++ ':' :: (chars value ++ ['\x7d'])
  | (key, value) :: entries =>
      JsonString.encode key.toList ++ ':' :: (chars value ++ ',' :: entriesChars entries)

end

def text (value : Json) : String :=
  String.ofList value.chars

end Json

end TreeQuery
