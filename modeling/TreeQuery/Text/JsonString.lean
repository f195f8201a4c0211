/-!
JSON string literals.

`encode` writes the shortest literal of a text: only the quote, the backslash and the controls
below U+0020 are escaped. `decode?` accepts every strict literal: raw characters from U+0020 on,
the eight short escapes, and `\u` escapes whose surrogates come in pairs.
-/

namespace TreeQuery

namespace JsonString

def hexDigit (value : Nat) : Char :=
  (Nat.toDigits 16 value).headD '0'

def encodeChar (c : Char) : List Char :=
  if c = '"' then ['\\', '"']
  else if c = '\\' then ['\\', '\\']
  else if c = '\x08' then ['\\', 'b']
  else if c = '\x0c' then ['\\', 'f']
  else if c = '\n' then ['\\', 'n']
  else if c = '\r' then ['\\', 'r']
  else if c = '\t' then ['\\', 't']
  else if c.toNat < 0x20 then
    ['\\', 'u', '0', '0', hexDigit (c.toNat / 16), hexDigit (c.toNat % 16)]
  else [c]

def encode (text : List Char) : List Char :=
  '"' :: (text.flatMap encodeChar ++ ['"'])

def hexValue? (c : Char) : Option Nat :=
  if '0' ≤ c ∧ c ≤ '9' then some (c.toNat - '0'.toNat)
  else if 'a' ≤ c ∧ c ≤ 'f' then some (c.toNat - 'a'.toNat + 10)
  else if 'A' ≤ c ∧ c ≤ 'F' then some (c.toNat - 'A'.toNat + 10)
  else none

/-- The code unit that four hexadecimal digits stand for. -/
def codeUnit? (a b c d : Char) : Option Nat := do
  let a ← hexValue? a
  let b ← hexValue? b
  let c ← hexValue? c
  let d ← hexValue? d
  return ((a * 16 + b) * 16 + c) * 16 + d

def isHighSurrogate (unit : Nat) : Bool :=
  0xd800 ≤ unit && unit < 0xdc00

def isLowSurrogate (unit : Nat) : Bool :=
  0xdc00 ≤ unit && unit < 0xe000

def pairChar (high low : Nat) : Char :=
  Char.ofNat (0x10000 + (high - 0xd800) * 0x400 + (low - 0xdc00))

def shortEscape? (c : Char) : Option Char :=
  match c with
  | '"' => some '"'
  | '\\' => some '\\'
  | '/' => some '/'
  | 'b' => some '\x08'
  | 'f' => some '\x0c'
  | 'n' => some '\n'
  | 'r' => some '\r'
  | 't' => some '\t'
  | _ => none

/-- Reads the rest of a literal after its opening quote, up to the closing quote, and answers with
the text and what follows the literal. -/
def decodeRest? : List Char → Option (List Char × List Char)
  | [] => none
  | '"' :: rest => some ([], rest)
  | '\\' :: 'u' :: a :: b :: c :: d :: rest =>
      match codeUnit? a b c d with
      | none => none
      | some unit =>
          if isHighSurrogate unit then
            match rest with
            | '\\' :: 'u' :: a :: b :: c :: d :: rest =>
                match codeUnit? a b c d with
                | none => none
                | some low =>
                    if isLowSurrogate low then
                      (decodeRest? rest).map fun (text, after) => (pairChar unit low :: text, after)
                    else
                      none
            | _ => none
          else if isLowSurrogate unit then
            none
          else
            (decodeRest? rest).map fun (text, after) => (Char.ofNat unit :: text, after)
  | '\\' :: c :: rest =>
      match shortEscape? c with
      | none => none
      | some escaped => (decodeRest? rest).map fun (text, after) => (escaped :: text, after)
  | c :: rest =>
      if c = '\\' ∨ c.toNat < 0x20 then
        none
      else
        (decodeRest? rest).map fun (text, after) => (c :: text, after)

/-- The text of a literal that makes up the whole input. -/
def decode? : List Char → Option (List Char)
  | '"' :: rest =>
      match decodeRest? rest with
      | some (text, []) => some text
      | _ => none
  | _ => none

end JsonString

end TreeQuery
