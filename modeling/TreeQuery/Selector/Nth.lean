import TreeQuery.Number.Basic

/-!
The `An+B` argument of `:nth-child(…)` and `:nth-last-child(…)`, and the positions it selects.

An argument is `odd`, `even`, a signed integer, or a step before `n` with an optional offset of one
digit after it. It stands in parentheses, and what follows the closing one is ignored.
-/

namespace TreeQuery

/-- Whether a character is ASCII white space: space, tab, line feed, form feed or carriage
return. -/
def isAsciiBlank (c : Char) : Bool :=
  c == ' ' || c == '\t' || c == '\n' || c == '\x0c' || c == '\r'

inductive NthError where
  | invalid (argument : String)
  | overflow (argument : String)
  deriving DecidableEq, Repr

namespace NthError

def message : NthError → String
  | .invalid argument => "invalid nth-child argument '" ++ argument ++ "'"
  | .overflow argument => "nth-child coefficient out of range in '" ++ argument ++ "'"

end NthError

/-- The positions `step · n + offset`, counted from either end. -/
structure Nth where
  step : Int
  offset : Int
  fromEnd : Bool
  deriving DecidableEq, Repr

namespace Nth

/-! ## Membership -/

/-- Whether a position is selected: its distance from the offset is a multiple of the step, and
`position · step + offset` is not negative. Without a step only the offset is selected. -/
def contains (nth : Nth) (position : Int) : Bool :=
  if nth.step = 0 then
    position == nth.offset
  else
    (position - nth.offset).tmod nth.step == 0 && decide (0 ≤ position * nth.step + nth.offset)

/-- The position of an element, counted from 1 at the chosen end. -/
def position (nth : Nth) (index siblings : Nat) : Int :=
  if nth.fromEnd then siblings - ((index : Int) - 1) else index

/-- Whether an array element is selected. What is not in an array has index and sibling count
zero and is not selected. -/
def test (nth : Nth) (index siblings : Nat) : Bool :=
  siblings != 0 && index != 0 && nth.contains (nth.position index siblings)

/-! ## Reading arguments -/

/-- The first magnitude that is out of range. -/
def limit : Nat :=
  twoPow 63

def skipBlanks (text : List Char) : List Char :=
  text.dropWhile isAsciiBlank

/-- The optional sign at the start of a text, true for a minus, and what follows it. -/
def splitSign? : List Char → Option Bool × List Char
  | '-' :: rest => (some true, rest)
  | '+' :: rest => (some false, rest)
  | rest => (none, rest)

def signed (negative : Option Bool) (magnitude : Nat) : Int :=
  if negative = some true then -(magnitude : Int) else magnitude

def closes (text : List Char) : Bool :=
  (skipBlanks text).head? = some ')'

/-- The offset after `n`, if the argument closes behind it. -/
def readOffset? (text : List Char) : Option Int :=
  match splitSign? (skipBlanks text) with
  | (some negative, rest) =>
      match skipBlanks rest with
      | digit :: rest =>
          if digit.isDigit && closes rest then
            some (signed (some negative) (digit.toNat - '0'.toNat))
          else
            none
      | [] => none
  | (none, _) => none

inductive BodyError where
  | invalid
  | overflow
  deriving DecidableEq, Repr

def bounded (magnitude : Nat) : Except BodyError Nat :=
  if magnitude < limit then .ok magnitude else .error .overflow

/-- Reads a body with a step: nothing if there is no `n`, or if the argument does not close behind
it. A step that is out of range is refused before the rest is read. -/
def readSteps (body : List Char) : Except BodyError (Option (Int × Int)) :=
  let (negative, rest) := splitSign? body
  let digits := rest.takeWhile Char.isDigit
  match rest.dropWhile Char.isDigit with
  | 'n' :: rest => do
      let magnitude ← if digits.isEmpty then .ok 1 else bounded (Nat.ofDigitChars 10 digits 0)
      let step := signed negative magnitude
      match readOffset? rest with
      | some offset => .ok (some (step, offset))
      | none => .ok (if closes rest then some (step, 0) else none)
  | _ => .ok none

def readWord? (body : List Char) : Option (Int × Int) :=
  if ['o', 'd', 'd'].isPrefixOf body && closes (body.drop 3) then
    some (2, 1)
  else if ['e', 'v', 'e', 'n'].isPrefixOf body && closes (body.drop 4) then
    some (2, 0)
  else
    none

def readInteger (body : List Char) : Except BodyError (Int × Int) :=
  let (negative, rest) := splitSign? body
  let digits := rest.takeWhile Char.isDigit
  if !digits.isEmpty && closes (rest.dropWhile Char.isDigit) then do
    let magnitude ← bounded (Nat.ofDigitChars 10 digits 0)
    .ok (0, signed negative magnitude)
  else
    .error .invalid

/-- Reads step and offset from a body and the parenthesis after it. -/
def readBody (body : List Char) : Except BodyError (Int × Int) := do
  match ← readSteps body with
  | some pair => .ok pair
  | none =>
      match readWord? body with
      | some pair => .ok pair
      | none => readInteger body

def readPair (argument : List Char) : Except BodyError (Int × Int) :=
  match skipBlanks argument with
  | '(' :: rest => readBody (skipBlanks rest)
  | _ => .error .invalid

/-- Reads an argument, parentheses included. -/
def read (argument : String) (fromEnd : Bool) : Except NthError Nth :=
  match readPair argument.toList with
  | .ok (step, offset) => .ok ⟨step, offset, fromEnd⟩
  | .error .invalid => .error (.invalid argument)
  | .error .overflow => .error (.overflow argument)

end Nth

end TreeQuery
