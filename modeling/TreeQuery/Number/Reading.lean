import TreeQuery.Number.Decimal

/-!
Reading numbers from text.

The accepted form is an optional sign, then digits with an optional point among, before or after
them, then optionally an exponent. The words `inf`, `infinity` and `nan` are accepted in either
case. The result is the nearest value.
-/

namespace TreeQuery

namespace Number

/-- The optional sign of a text, true for a minus, and what follows it. -/
def splitSign : List Char → Bool × List Char
  | '-' :: rest => (true, rest)
  | '+' :: rest => (false, rest)
  | rest => (false, rest)

/-- The leading ASCII digits of a text and what follows them. -/
def splitDigits (text : List Char) : List Char × List Char :=
  (text.takeWhile Char.isDigit, text.dropWhile Char.isDigit)

/-- The digits after a point, if a point comes first, and what follows them. -/
def splitFraction : List Char → List Char × List Char
  | '.' :: rest => splitDigits rest
  | rest => ([], rest)

def digitsValue (digits : List Char) : Nat :=
  Nat.ofDigitChars 10 digits 0

/-- The exponent that makes up the whole of a text; the empty text stands for zero. -/
def readExponent? : List Char → Option Int
  | [] => some 0
  | mark :: rest =>
      if mark = 'e' ∨ mark = 'E' then
        let (negative, digits) := splitSign rest
        if digits.isEmpty || !digits.all Char.isDigit then
          none
        else
          some (if negative then -(digitsValue digits : Int) else digitsValue digits)
      else
        none

def readDecimal? (text : List Char) : Option Decimal :=
  let (whole, rest) := splitDigits text
  let (fraction, rest) := splitFraction rest
  if whole.isEmpty && fraction.isEmpty then
    none
  else
    (readExponent? rest).map fun exponent =>
      ⟨digitsValue (whole ++ fraction), exponent - fraction.length⟩

/-- Reads a word for a value that is not finite. -/
def readWord? (negative : Bool) (text : List Char) : Option Number :=
  match String.ofList (text.map Char.toLower) with
  | "inf" | "infinity" => some (.infinite negative)
  | "nan" => some .nan
  | _ => none

def ofChars? (text : List Char) : Option Number :=
  let (negative, rest) := splitSign text
  match readWord? negative rest with
  | some number => some number
  | none => (readDecimal? rest).map (ofDecimal negative)

def ofText? (text : String) : Option Number :=
  ofChars? text.toList

end Number

end TreeQuery
