import TreeQuery.Text.JsonString

/-!
Strict JSON string literals.

Between its quotes a literal has a word for each character: the character itself, a short escape, or
its code. A word is read as its character whatever follows, and only words are read, so reading
accepts exactly the strict literals. The literal that is written is one of them.
-/

namespace TreeQuery

namespace JsonString

variable {c : Char} {word text literal value rest after : List Char}

/-! ## Words of characters -/

/-- What may stand for a character between the quotes: the character itself, a short escape, the
escape of its code, or those of a surrogate pair. -/
inductive Writes (c : Char) : List Char → Prop where
  | plain (notQuote : c ≠ '"') (notEscape : c ≠ '\\') (notControl : ¬ c.toNat < 0x20) :
      Writes c [c]
  | short {letter : Char} (reads : shortEscape? letter = some c) : Writes c ['\\', letter]
  | code {a b d e : Char} (isCode : codeUnit? a b d e = some c.toNat) :
      Writes c ['\\', 'u', a, b, d, e]
  | pair {a b d e p q r s : Char} {high low : Nat} (isHigh : codeUnit? a b d e = some high)
      (isLow : codeUnit? p q r s = some low) (highRange : 0xd800 ≤ high ∧ high < 0xdc00)
      (lowRange : 0xdc00 ≤ low ∧ low < 0xe000)
      (isPair : c.toNat = 0x10000 + (high - 0xd800) * 0x400 + (low - 0xdc00)) :
      Writes c ['\\', 'u', a, b, d, e, '\\', 'u', p, q, r, s]

/-- What may stand for a text between the quotes. -/
inductive WritesAll : List Char → List Char → Prop where
  | nil : WritesAll [] []
  | cons {c : Char} {word text body : List Char} (first : Writes c word)
      (others : WritesAll text body) : WritesAll (c :: text) (word ++ body)

/-- A strict literal of a text. -/
def IsLiteral (literal text : List Char) : Prop :=
  ∃ body, literal = '"' :: (body ++ ['"']) ∧ WritesAll text body

/-! ## Codes -/

theorem hexValue?_lt {digit : Nat} (isHex : hexValue? c = some digit) : digit < 16 := by
  unfold hexValue? at isHex
  split at isHex
  · rename_i range
    have upper : c.toNat ≤ 57 := range.2
    cases isHex
    change c.toNat - 48 < 16
    omega
  · split at isHex
    · rename_i range
      have upper : c.toNat ≤ 102 := range.2
      cases isHex
      change c.toNat - 97 + 10 < 16
      omega
    · split at isHex
      · rename_i range
        have upper : c.toNat ≤ 70 := range.2
        cases isHex
        change c.toNat - 65 + 10 < 16
        omega
      · cases isHex

theorem codeUnit?_lt {a b d e : Char} {unit : Nat} (isCode : codeUnit? a b d e = some unit) :
    unit < 0x10000 := by
  simp only [codeUnit?, Option.bind_eq_bind, Option.bind_eq_some_iff, Option.pure_def,
    Option.some.injEq] at isCode
  obtain ⟨first, isFirst, second, isSecond, third, isThird, fourth, isFourth, rfl⟩ := isCode
  have := hexValue?_lt isFirst
  have := hexValue?_lt isSecond
  have := hexValue?_lt isThird
  have := hexValue?_lt isFourth
  omega

theorem toNat_ofNat {code : Nat} (valid : code < 0xd800 ∨ 0xdfff < code ∧ code < 0x110000) :
    (Char.ofNat code).toNat = code := by
  rw [Char.ofNat, dif_pos valid]
  rfl

theorem not_surrogate (c : Char) :
    isHighSurrogate c.toNat = false ∧ isLowSurrogate c.toNat = false := by
  have valid : c.toNat < 0xd800 ∨ 0xdfff < c.toNat ∧ c.toNat < 0x110000 := c.valid
  simp only [isHighSurrogate, isLowSurrogate, Bool.and_eq_false_iff, decide_eq_false_iff_not]
  omega

/-! ## Reading -/

/-- A word is read as its character, whatever follows. -/
theorem decodeRest?_word (writes : Writes c word) (rest : List Char) :
    decodeRest? (word ++ rest) =
      (decodeRest? rest).map fun (text, after) => (c :: text, after) := by
  cases writes with
  | plain notQuote notEscape notControl =>
      rw [List.singleton_append, decodeRest?]
      · rw [if_neg (by simp [notEscape, notControl])]
      · exact notQuote
      · intro _ _ _ _ _ isEscape
        exact absurd isEscape notEscape
      · intro _ _ isEscape
        exact absurd isEscape notEscape
  | @short letter reads =>
      rw [List.cons_append, List.singleton_append, decodeRest?]
      · rw [reads]
      · rintro _ _ _ _ _ rfl
        cases reads
  | code isCode =>
      simp only [List.cons_append, List.nil_append, decodeRest?, isCode, not_surrogate,
        Char.ofNat_toNat, Bool.false_eq_true, if_false]
  | @pair _ _ _ _ _ _ _ _ high low isHigh isLow highRange lowRange isPair =>
      have high : isHighSurrogate high = true := by simp [isHighSurrogate, highRange]
      have low : isLowSurrogate low = true := by simp [isLowSurrogate, lowRange]
      simp only [List.cons_append, List.nil_append, decodeRest?, isHigh, isLow, high, low, if_true,
        pairChar, ← isPair, Char.ofNat_toNat]

theorem decodeRest?_of_writesAll (writes : WritesAll text word) (rest : List Char) :
    decodeRest? (word ++ '"' :: rest) = some (text, rest) := by
  induction writes with
  | nil => rw [List.nil_append, decodeRest?]
  | cons first _ induction =>
      rw [List.append_assoc, decodeRest?_word first, induction]
      rfl

theorem exists_body_of_word {other : List Char} (writes : Writes c word)
    (others : ∀ {value : List Char}, decodeRest? rest = some (value, after) →
      ∃ body, rest = body ++ '"' :: after ∧ WritesAll value body)
    (decoded : ((decodeRest? rest).map fun result => (c :: result.1, result.2)) =
      some (other, after)) :
    ∃ body, word ++ rest = body ++ '"' :: after ∧ WritesAll other body := by
  obtain ⟨⟨inner, remaining⟩, isInner, isWhole⟩ := Option.map_eq_some_iff.mp decoded
  cases isWhole
  obtain ⟨body, rfl, writesInner⟩ := others isInner
  exact ⟨word ++ body, by rw [List.append_assoc], .cons writes writesInner⟩

/-- Only words are read up to the closing quote. -/
theorem exists_body_of_decodeRest? (decoded : decodeRest? text = some (value, after)) :
    ∃ body, text = body ++ '"' :: after ∧ WritesAll value body := by
  fun_induction decodeRest? text generalizing value with
  | case2 rest =>
      cases decoded
      exact ⟨[], rfl, .nil⟩
  | case5 a b c d high isHigh highRange e f g h rest low isLow lowRange others =>
      simp only [isHighSurrogate, isLowSurrogate, Bool.and_eq_true, decide_eq_true_eq]
        at highRange lowRange
      refine exists_body_of_word (.pair isHigh isLow highRange lowRange ?_) others decoded
      rw [pairChar, toNat_ofNat]
      omega
  | case9 a b c d rest unit isUnit notHigh notLow others =>
      simp only [isHighSurrogate, isLowSurrogate, Bool.and_eq_true, decide_eq_true_eq, not_and]
        at notHigh notLow
      have bound := codeUnit?_lt isUnit
      have isChar : (Char.ofNat unit).toNat = unit := toNat_ofNat (by omega)
      exact exists_body_of_word (.code (isChar.symm ▸ isUnit)) others decoded
  | case11 letter rest _ escaped isShort others =>
      exact exists_body_of_word (.short isShort) others decoded
  | case13 c rest notQuote _ _ plain others =>
      have notEscape : c ≠ '\\' := fun same => plain (.inl same)
      have notControl : ¬ c.toNat < 0x20 := fun isControl => plain (.inr isControl)
      exact exists_body_of_word (.plain notQuote notEscape notControl) others decoded
  | _ => cases decoded

/-- The texts that are read as a whole are the strict literals. -/
theorem decode?_iff : decode? literal = some text ↔ IsLiteral literal text := by
  constructor
  · intro decoded
    unfold decode? at decoded
    split at decoded
    · split at decoded
      · rename_i isRest
        cases decoded
        obtain ⟨body, rfl, writes⟩ := exists_body_of_decodeRest? isRest
        exact ⟨body, rfl, writes⟩
      · cases decoded
    · cases decoded
  · intro isLiteral
    obtain ⟨body, rfl, writes⟩ := isLiteral
    rw [decode?, decodeRest?_of_writesAll writes]

/-! ## Writing -/

/-- How a character is written: with a short escape, as a control with its code, or as it is. -/
inductive Encoded (c : Char) : List Char → Prop where
  | short {letter : Char} (notCode : letter ≠ 'u') (reads : shortEscape? letter = some c) :
      Encoded c ['\\', letter]
  | control (isControl : c.toNat < 0x20) :
      Encoded c ['\\', 'u', '0', '0', hexDigit (c.toNat / 16), hexDigit (c.toNat % 16)]
  | plain (notQuote : c ≠ '"') (notEscape : c ≠ '\\') (notControl : ¬ c.toNat < 0x20) :
      Encoded c [c]

theorem encoded (c : Char) : Encoded c (encodeChar c) := by
  by_cases isShort : c ∈ ['"', '\\', '\x08', '\x0c', '\n', '\r', '\t']
  · simp only [List.mem_cons, List.not_mem_nil, or_false] at isShort
    rcases isShort with rfl | rfl | rfl | rfl | rfl | rfl | rfl <;>
      exact .short (by decide) rfl
  · simp only [List.mem_cons, List.not_mem_nil, or_false, not_or] at isShort
    obtain ⟨notQuote, notEscape, notBackspace, notFeed, notLine, notReturn, notTab⟩ := isShort
    simp only [encodeChar, notQuote, notEscape, notBackspace, notFeed, notLine, notReturn, notTab,
      if_false]
    by_cases isControl : c.toNat < 0x20
    · rw [if_pos isControl]
      exact .control isControl
    · rw [if_neg isControl]
      exact .plain notQuote notEscape isControl

theorem codeUnit?_hexDigit {code : Nat} (isControl : code < 0x20) :
    codeUnit? '0' '0' (hexDigit (code / 16)) (hexDigit (code % 16)) = some code := by
  have ofControls : ∀ code < 0x20,
      codeUnit? '0' '0' (hexDigit (code / 16)) (hexDigit (code % 16)) = some code := by decide
  exact ofControls code isControl

theorem Encoded.writes (isEncoded : Encoded c word) : Writes c word := by
  cases isEncoded with
  | short _ reads => exact .short reads
  | control isControl => exact .code (codeUnit?_hexDigit isControl)
  | plain notQuote notEscape notControl => exact .plain notQuote notEscape notControl

theorem writesAll_flatMap (text : List Char) : WritesAll text (text.flatMap encodeChar) := by
  induction text with
  | nil => exact .nil
  | cons c text induction => exact .cons (encoded c).writes induction

theorem decodeRest?_encode (text rest : List Char) :
    decodeRest? (text.flatMap encodeChar ++ '"' :: rest) = some (text, rest) :=
  decodeRest?_of_writesAll (writesAll_flatMap text) rest

/-- Every text has a literal: the one that is written. -/
theorem isLiteral_encode (text : List Char) : IsLiteral (encode text) text :=
  ⟨_, rfl, writesAll_flatMap text⟩

theorem decode?_encode (text : List Char) : decode? (encode text) = some text :=
  decode?_iff.mpr (isLiteral_encode text)

end JsonString

end TreeQuery
