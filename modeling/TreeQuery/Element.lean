import TreeQuery.Json

/-!
Documents: trees of elements with native kinds and declared types.

An element is a scalar, an array or a keyed collection, and may carry the type that its schema
declares for it. A field that the schema declares and the document omits is present in the tree as
a missing scalar of its kind.
-/

namespace TreeQuery

inductive Kind where
  | string
  | number
  | bool
  | null
  | array
  | map
  | object
  deriving DecidableEq, Repr

namespace Kind

def word : Kind → String
  | .string => "string"
  | .number => "number"
  | .bool => "bool"
  | .null => "null"
  | .array => "array"
  | .map => "map"
  | .object => "object"

def ofWord? : String → Option Kind
  | "string" => some .string
  | "number" => some .number
  | "bool" => some .bool
  | "null" => some .null
  | "array" => some .array
  | "map" => some .map
  | "object" => some .object
  | _ => none

def isCollection : Kind → Bool
  | .array | .map | .object => true
  | _ => false

theorem ofWord?_word (kind : Kind) : ofWord? kind.word = some kind := by
  cases kind <;> rfl

theorem word_of_ofWord? {text : String} {kind : Kind} (found : ofWord? text = some kind) :
    kind.word = text := by
  unfold ofWord? at found
  split at found <;> cases found <;> rfl

end Kind

structure TypeName where
  package : String
  name : String
  deriving DecidableEq, Repr

namespace TypeName

def text (type : TypeName) : String :=
  type.package ++ ":" ++ type.name

end TypeName

/-- The declared type of an element and the types that it implements. -/
structure Declaration where
  own : TypeName
  implements : List TypeName
  deriving DecidableEq, Repr

namespace Declaration

/-- Whether an element of this type counts as one of another type. -/
def isA (declared : Declaration) (name : TypeName) : Bool :=
  declared.own = name || declared.implements.contains name

end Declaration

inductive Scalar where
  /-- A declared field that the document omits. -/
  | missing (kind : Kind)
  | null
  | bool (value : Bool)
  | number (value : Number)
  | string (value : String)
  deriving DecidableEq

/-- The two keyed collections: a map has arbitrary keys, an object declared fields. -/
inductive Keyed where
  | map
  | object
  deriving DecidableEq, Repr

/-- A document or a part of one. Entries keep their order, and a key may occur more than once. -/
inductive Element where
  | scalar (declared : Option Declaration) (value : Scalar)
  | array (declared : Option Declaration) (items : List Element)
  | keyed (declared : Option Declaration) (shape : Keyed) (entries : List (String × Element))
  deriving Inhabited

namespace Scalar

def kind : Scalar → Kind
  | .missing kind => kind
  | .null => .null
  | .bool _ => .bool
  | .number _ => .number
  | .string _ => .string

def toJson : Scalar → Json
  | .missing _ | .null => .null
  | .bool value => .bool value
  | .number value => .ofNumber value
  | .string value => .string value

/-- The text of a scalar as a value, which leaves strings unquoted. -/
def canonicalText : Scalar → String
  | .missing _ | .null => "null"
  | .bool true => "true"
  | .bool false => "false"
  | .number value => value.canonicalText
  | .string value => value

end Scalar

namespace Element

def declared : Element → Option Declaration
  | .scalar declared _ | .array declared _ | .keyed declared _ _ => declared

def withDeclared (declared : Option Declaration) : Element → Element
  | .scalar _ value => .scalar declared value
  | .array _ items => .array declared items
  | .keyed _ shape entries => .keyed declared shape entries

def kind : Element → Kind
  | .scalar _ value => value.kind
  | .array .. => .array
  | .keyed _ .map _ => .map
  | .keyed _ .object _ => .object

/-- Whether the element carries a value: it is neither null nor missing. -/
def isPresent : Element → Bool
  | .scalar _ (.missing _) | .scalar _ .null => false
  | _ => true

/-- The text of a string element, empty for every other element. -/
def ownText : Element → String
  | .scalar _ (.string value) => value
  | _ => ""

mutual

/-- The JSON form of an element, without its types. Repeated keys are merged. -/
def toJson : Element → Json
  | .scalar _ value => value.toJson
  | .array _ items => .array (itemsToJson items)
  | .keyed _ _ entries => .object (Json.merge (entriesToJson entries))

def itemsToJson : List Element → List Json
  | [] => []
  | item :: items => toJson item :: itemsToJson items

def entriesToJson : List (String × Element) → List (String × Json)
  | [] => []
  | (key, value) :: entries => (key, toJson value) :: entriesToJson entries

end

mutual

/-- The element of plain JSON, whose objects are read as objects with declared fields. -/
def ofJson : Json → Element
  | .null => .scalar none .null
  | .bool value => .scalar none (.bool value)
  | .integer value => .scalar none (.number (.ofInt value))
  | .number value => .scalar none (.number value)
  | .string value => .scalar none (.string value)
  | .array items => .array none (itemsOfJson items)
  | .object entries => .keyed none .object (entriesOfJson entries)

def itemsOfJson : List Json → List Element
  | [] => []
  | item :: items => ofJson item :: itemsOfJson items

def entriesOfJson : List (String × Json) → List (String × Element)
  | [] => []
  | (key, value) :: entries => (key, ofJson value) :: entriesOfJson entries

end

/-- The text that values are compared by: strings are unquoted and collections are JSON. -/
def canonicalText : Element → String
  | .scalar _ value => value.canonicalText
  | element => element.toJson.text

end Element

end TreeQuery
