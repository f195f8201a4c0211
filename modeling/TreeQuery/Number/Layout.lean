import TreeQuery.Number.Decimal

/-!
The written forms of numbers.

All forms write the shortest digits that read back. They differ in where a power of ten is written
instead of zeros, and in details that a `Layout` lists: `Layout.plain` is the text of a value,
`Layout.json` the text inside JSON, and `Layout.inspection` the text inside printed expressions.
-/

namespace TreeQuery

structure Layout where
  /-- Leading powers of ten below this one are written with an exponent. -/
  smallestPositional : Option Int
  /-- Leading powers of ten from this one on are written with an exponent. -/
  firstExponential : Option Int
  /-- Whole numbers written positionally end in `.0`. -/
  marksWhole : Bool
  /-- Exponents that are not negative are written with a plus sign. -/
  signsExponent : Bool
  /-- Which of two equally near shortest decimals is written. -/
  tie : Tie

namespace Layout

/-- Never an exponent, and nothing after a whole number. -/
def plain : Layout where
  smallestPositional := none
  firstExponential := none
  marksWhole := false
  signsExponent := false
  tie := .up

/-- Positional from `0.00001` up to sixteen digits before the point; `1e+16` above. -/
def json : Layout where
  smallestPositional := some (-5)
  firstExponential := some 16
  marksWhole := true
  signsExponent := true
  tie := .toEven

/-- Positional from `0.0001` up to sixteen digits before the point; `1e16` above. -/
def inspection : Layout where
  smallestPositional := some (-4)
  firstExponential := some 16
  marksWhole := true
  signsExponent := false
  tie := .up

/-- Whether a number whose first digit counts `10 ^ leading` is written without an exponent. -/
def isPositional (layout : Layout) (leading : Int) : Bool :=
  layout.smallestPositional.all (· ≤ leading) && layout.firstExponential.all (leading < ·)

def positional (layout : Layout) (decimal : Decimal) : List Char :=
  let digits := decimal.digits
  if 0 ≤ decimal.exponent then
    digits ++ List.replicate decimal.exponent.toNat '0' ++
      (if layout.marksWhole then ['.', '0'] else [])
  else
    let places := (-decimal.exponent).toNat
    if places < digits.length then
      digits.take (digits.length - places) ++ '.' :: digits.drop (digits.length - places)
    else
      '0' :: '.' :: (List.replicate (places - digits.length) '0' ++ digits)

/-- One digit before the point, the others after it, and the power of ten. -/
def exponential (layout : Layout) (decimal : Decimal) : List Char :=
  let leading := decimal.leadingExponent
  let sign : List Char := if leading < 0 then ['-'] else if layout.signsExponent then ['+'] else []
  let fraction := decimal.digits.drop 1
  decimal.digits.take 1 ++ (if fraction.isEmpty then [] else '.' :: fraction) ++
    'e' :: (sign ++ Nat.toDigits 10 leading.natAbs)

def decimalChars (layout : Layout) (decimal : Decimal) : List Char :=
  if layout.isPositional decimal.leadingExponent then
    layout.positional decimal
  else
    layout.exponential decimal

def chars (layout : Layout) : Number → List Char
  | .nan => ['N', 'a', 'N']
  | .infinite negative => (if negative then ['-'] else []) ++ ['i', 'n', 'f']
  | .finite negative units _ =>
      (if negative then ['-'] else []) ++ layout.decimalChars (Number.shortest layout.tie units)

def write (layout : Layout) (number : Number) : String :=
  String.ofList (layout.chars number)

end Layout

namespace Number

def wholeChars (value : Int) : List Char :=
  (if value < 0 then ['-'] else []) ++ Nat.toDigits 10 value.natAbs

/-- The canonical text of a number: all digits of a whole number below `10 ^ 21`, the plain text
of any other finite one, `0` for both zeros, and `null` for what is not finite. -/
def canonicalChars (number : Number) : List Char :=
  if !number.isFinite then
    ['n', 'u', 'l', 'l']
  else if number.isIntegral && number.magnitudeBelow (tenPow 21) then
    wholeChars number.truncate
  else
    Layout.plain.chars number

def canonicalText (number : Number) : String :=
  String.ofList number.canonicalChars

end Number

end TreeQuery
