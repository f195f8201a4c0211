import Mathlib.Data.List.Chain
import TreeQuery.Proofs.Token.Rereading

/-!
The texts of the rules of selectors.

Each rule is told by the texts that it matches: signs with white space around them, white space,
words, names with and without quotes, references and numbers. How a text starts tells most of them
apart, and a quote is in quoted names only.
-/

namespace TreeQuery

theorem exists_last {Item : Type} {items : List Item} (nonempty : items ≠ []) :
    ∃ first last, items = first ++ [last] :=
  ⟨_, _, (List.dropLast_concat_getLast nonempty).symm⟩

namespace Pattern

/-- Whether a text of a pattern may start with a character. -/
def starts (c : Char) : Pattern → Bool
  | .never => false
  | .done => false
  | .one accepts => accepts c
  | .seq first second => first.starts c || first.nullable && second.starts c
  | .either left right => left.starts c || right.starts c
  | .many pattern => pattern.starts c

theorem starts_of_matches {pattern : Pattern} {word rest : List Char} {c : Char}
    (found : pattern.Matches word) (spelled : word = c :: rest) : pattern.starts c = true := by
  induction found generalizing rest with
  | done => cases spelled
  | one accepted =>
      cases spelled
      exact accepted
  | @seq first second front back frontMatches _ firstStarts secondStarts =>
      simp only [starts, Bool.or_eq_true, Bool.and_eq_true]
      cases front with
      | nil => exact .inr ⟨nullable_iff.mpr frontMatches, secondStarts spelled⟩
      | cons head front =>
          cases spelled
          exact .inl (firstStarts rfl)
  | left _ induction => simp [starts, induction spelled]
  | right _ induction => simp [starts, induction spelled]
  | manyNil => cases spelled
  | @manyCons _ front back _ _ frontStarts backStarts =>
      cases front with
      | nil => exact backStarts spelled
      | cons head front =>
          cases spelled
          exact frontStarts rfl

end Pattern

namespace TokenRule

open Pattern

/-- The signs that a rule takes with the white space around them. -/
def signs : List Char := [',', '>', '~']

def bareName : Pattern :=
  dotted (.seq (.one startsName) (.many (.one continuesName)))

def reference : Pattern :=
  .all [.char '[', .atLeastOnce (.one inReference), .char ']']

def number : Pattern :=
  .seq (.optional (.char '-')) unsignedNumber

/-- The kinds of the words behind a colon. -/
def colonWords : List (TokenKind × List String) :=
  [(.pseudoClass, pseudoClassWords), (.nthFunction, ["nth-child", "nth-last-child"]),
    (.pseudoClassFunction, ["has", "expr", "val", "contains"])]

inductive IsSelectorRule : TokenRule → Prop where
  | star : IsSelectorRule ⟨.char '*', some .operator⟩
  | sign {sign : Char} (isSign : sign ∈ signs) : IsSelectorRule ⟨spaced sign, some .operator⟩
  | blanks : IsSelectorRule ⟨.atLeastOnce (.one isBlank), some .operator⟩
  | kindWord : IsSelectorRule ⟨oneWord kindWords, some .nativeKind⟩
  | reference : IsSelectorRule ⟨reference, some .declaredType⟩
  | bareName : IsSelectorRule ⟨bareName, some .identifier⟩
  | quotedName : IsSelectorRule ⟨dotted quoted, some .identifier⟩
  | number : IsSelectorRule ⟨number, some .literal⟩
  | colonWord {kind : TokenKind} {words : List String} (areWords : (kind, words) ∈ colonWords) :
      IsSelectorRule ⟨colonWord words, some kind⟩

variable {rule taker : TokenRule} {sign c : Char} {word front back span text before behind :
  List Char}

theorem isSelectorRule (isRule : rule ∈ selectorRules) : IsSelectorRule rule := by
  simp only [selectorRules, List.mem_cons, List.not_mem_nil, or_false] at isRule
  rcases isRule with rfl | rfl | rfl | rfl | rfl | rfl | rfl | rfl | rfl | rfl | rfl | rfl | rfl
  · exact .star
  · exact .sign (by simp [signs])
  · exact .sign (by simp [signs])
  · exact .sign (by simp [signs])
  · exact .blanks
  · exact .kindWord
  · exact .reference
  · exact .bareName
  · exact .quotedName
  · exact .number
  · exact .colonWord (by simp [colonWords])
  · exact .colonWord (by simp [colonWords])
  · exact .colonWord (by simp [colonWords])

theorem IsSelectorRule.mem (isRule : IsSelectorRule rule) : rule ∈ selectorRules := by
  cases isRule with
  | sign isSign =>
      simp only [signs, List.mem_cons, List.not_mem_nil, or_false] at isSign
      rcases isSign with rfl | rfl | rfl <;> simp [selectorRules]
  | colonWord areWords =>
      simp only [colonWords, List.mem_cons, List.not_mem_nil, or_false, Prod.mk.injEq] at areWords
      rcases areWords with ⟨rfl, rfl⟩ | ⟨rfl, rfl⟩ | ⟨rfl, rfl⟩ <;> simp [selectorRules]
  | _ => simp [selectorRules, TokenRule.reference, TokenRule.bareName, TokenRule.number]

/-! ## Texts -/

theorem matches_spaced_iff :
    (spaced sign).Matches word ↔ ∃ before behind, word = before ++ sign :: behind ∧
      (∀ c ∈ before, isBlank c = true) ∧ ∀ c ∈ behind, isBlank c = true := by
  constructor
  · intro found
    obtain ⟨before, others, rfl, isBefore, othersMatch⟩ := matches_seq_iff.mp found
    obtain ⟨middle, behindAll, rfl, isMiddle, behindMatches⟩ := matches_seq_iff.mp othersMatch
    obtain ⟨behind, ended, rfl, isBehind, isEnd⟩ := matches_seq_iff.mp behindMatches
    obtain ⟨c, rfl, isSign⟩ := matches_one_iff.mp isMiddle
    rw [matches_done_iff.mp isEnd, beq_iff_eq.mp isSign]
    exact ⟨before, behind, by simp, matches_many_one_iff.mp isBefore,
      matches_many_one_iff.mp isBehind⟩
  · intro isSpaced
    obtain ⟨before, behind, spelled, beforeBlank, behindBlank⟩ := isSpaced
    have behindMatches : Matches (.seq blanks .done) (behind ++ []) :=
      .seq (matches_many_one_iff.mpr behindBlank) .done
    have signMatches : Matches (.seq (.char sign) (.seq blanks .done)) ([sign] ++ behind) := by
      rw [List.append_nil] at behindMatches
      exact .seq (.one (beq_self_eq_true sign)) behindMatches
    rw [spelled]
    exact .seq (matches_many_one_iff.mpr beforeBlank) signMatches

theorem matches_atLeastOnce_one_iff {accepts : Char → Bool} :
    (Pattern.atLeastOnce (.one accepts)).Matches word ↔
      word ≠ [] ∧ ∀ c ∈ word, accepts c = true := by
  constructor
  · intro found
    refine ⟨?_, all_of_matches_atLeastOnce found⟩
    intro isNil
    obtain ⟨front, back, spelled, isFront, _⟩ := matches_seq_iff.mp found
    obtain ⟨c, rfl, _⟩ := matches_one_iff.mp isFront
    cases spelled.symm.trans isNil
  · intro isRun
    obtain ⟨nonempty, accepted⟩ := isRun
    obtain ⟨c, rest, rfl⟩ := List.exists_cons_of_ne_nil nonempty
    obtain ⟨isFirst, others⟩ := List.forall_mem_cons.mp accepted
    exact matches_seq_iff.mpr ⟨[c], rest, rfl, .one isFirst, matches_many_one_iff.mpr others⟩

theorem matches_bareName_iff :
    bareName.Matches word ↔ ∃ dot first rest, word = dot ++ first :: rest ∧
      (dot = [] ∨ dot = ['.']) ∧ startsName first = true ∧
        ∀ c ∈ rest, continuesName c = true := by
  constructor
  · intro found
    obtain ⟨dot, name, rfl, isDot, isName⟩ := exists_of_matches_dotted found
    obtain ⟨front, rest, rfl, isFront, isRest⟩ := matches_seq_iff.mp isName
    obtain ⟨first, rfl, starts⟩ := matches_one_iff.mp isFront
    exact ⟨dot, first, rest, rfl, isDot, starts, matches_many_one_iff.mp isRest⟩
  · intro isName
    obtain ⟨dot, first, rest, spelled, isDot, starts, continues⟩ := isName
    have isName : Matches (.seq (.one startsName) (.many (.one continuesName))) (first :: rest) :=
      matches_seq_iff.mpr ⟨[first], rest, rfl, .one starts, matches_many_one_iff.mpr continues⟩
    rw [spelled]
    refine matches_seq_iff.mpr ⟨dot, first :: rest, rfl, ?_, isName⟩
    rcases isDot with rfl | rfl
    · exact .right .done
    · exact .left (.one rfl)

theorem continuesName_of_startsName (starts : startsName c = true) : continuesName c = true := by
  simp [continuesName, starts]

theorem continuesName_of_isDigit (isDigit : c.isDigit = true) : continuesName c = true := by
  simp [continuesName, isDigit]

theorem continuesName_of_mem_bareName (found : bareName.Matches word) (isMember : c ∈ word)
    (notDot : word.head? ≠ some '.') : continuesName c = true := by
  obtain ⟨dot, first, rest, rfl, isDot, starts, continues⟩ := matches_bareName_iff.mp found
  rcases isDot with rfl | rfl
  · rcases List.mem_cons.mp isMember with rfl | isRest
    · exact continuesName_of_startsName starts
    · exact continues c isRest
  · exact absurd rfl notDot

theorem exists_of_matches_reference (found : reference.Matches word) :
    ∃ name, word = '[' :: (name ++ [']']) ∧ name ≠ [] ∧ ∀ c ∈ name, inReference c = true := by
  obtain ⟨front, others, rfl, isFront, othersMatch⟩ := matches_seq_iff.mp found
  obtain ⟨name, back, rfl, isName, backMatches⟩ := matches_seq_iff.mp othersMatch
  obtain ⟨last, ended, rfl, isLast, isEnd⟩ := matches_seq_iff.mp backMatches
  obtain ⟨opening, rfl, isOpening⟩ := matches_one_iff.mp isFront
  obtain ⟨closing, rfl, isClosing⟩ := matches_one_iff.mp isLast
  rw [beq_iff_eq.mp isOpening, beq_iff_eq.mp isClosing, matches_done_iff.mp isEnd]
  obtain ⟨nonempty, inside⟩ := matches_atLeastOnce_one_iff.mp isName
  exact ⟨name, by simp, nonempty, inside⟩

/-- Behind its first character a name has only characters of names. -/
theorem continuesName_of_bareName (found : bareName.Matches word) :
    ∀ c ∈ word.tail, continuesName c = true := by
  obtain ⟨dot, first, rest, rfl, isDot, starts, continues⟩ := matches_bareName_iff.mp found
  rcases isDot with rfl | rfl
  · exact continues
  · exact List.forall_mem_cons.mpr ⟨continuesName_of_startsName starts, continues⟩

/-! ## Where the texts of a rule end -/

theorem blank_or_sign_of_starts (isSign : sign ∈ signs) (starts : (spaced sign).starts c = true) :
    isBlank c = true ∨ c ∈ signs := by
  simp only [spaced, blanks, Pattern.all, Pattern.char, List.foldr_cons, List.foldr_nil,
    Pattern.starts, nullable, Bool.or_eq_true, Bool.and_eq_true, beq_iff_eq, Bool.false_eq_true,
    false_and, or_false, true_and] at starts
  rcases starts with blank | rfl
  · exact .inl blank
  · exact .inr isSign

theorem eq_colon_of_starts {words : List String} (starts : (colonWord words).starts c = true) :
    c = ':' := by
  simpa [colonWord, Pattern.char, Pattern.starts, nullable] using starts

theorem not_starts_of_all {heads : List Char} {pattern : Pattern} (isHead : c ∈ heads)
    (none : heads.all (fun c => !pattern.starts c) = true) : pattern.starts c = false := by
  simpa using List.all_eq_true.mp none c isHead

theorem not_blank_or_sign {heads : List Char} (isHead : c ∈ heads)
    (none : heads.all (fun c => !isBlank c && !signs.contains c) = true) :
    ¬ (isBlank c = true ∨ c ∈ signs) := by
  have other := List.all_eq_true.mp none c isHead
  rw [Bool.and_eq_true, Bool.not_eq_true', Bool.not_eq_true'] at other
  intro isBlankOrSign
  rcases isBlankOrSign with blank | isSign
  · cases other.1.symm.trans blank
  · cases other.2.symm.trans (List.contains_iff_mem.mpr isSign)

theorem eq_nil_of_star (isRule : rule ∈ selectorRules)
    (found : rule.pattern.Matches ('*' :: behind)) : behind = [] := by
  have starts := starts_of_matches found rfl
  cases isSelectorRule isRule with
  | star =>
      obtain ⟨c, spelled, _⟩ := matches_one_iff.mp found
      exact (List.cons.inj spelled).2
  | sign isSign => exact absurd (blank_or_sign_of_starts isSign starts) (by decide)
  | colonWord => exact absurd (eq_colon_of_starts starts) (by decide)
  | _ => exact absurd starts (by decide)

theorem eq_nil_of_reference (isRule : rule ∈ selectorRules)
    (found : rule.pattern.Matches ('[' :: (text ++ [']'] ++ behind))) : behind = [] := by
  have starts := starts_of_matches found rfl
  cases isSelectorRule isRule with
  | reference =>
      obtain ⟨name, spelled, _, inside⟩ := exists_of_matches_reference found
      have same := (List.cons.inj spelled).2
      have notInside : inReference ']' = false := by decide
      rcases List.eq_nil_or_concat behind with isNil | ⟨others, last, rfl⟩
      · exact isNil
      · rw [List.concat_eq_append, ← List.append_assoc] at same
        obtain ⟨sameName, _⟩ := List.append_inj' same rfl
        have isMember : ']' ∈ name := by simp [← sameName]
        cases notInside.symm.trans (inside _ isMember)
  | sign isSign => exact absurd (blank_or_sign_of_starts isSign starts) (by decide)
  | colonWord => exact absurd (eq_colon_of_starts starts) (by decide)
  | _ => exact absurd starts (by decide)

/-- No word behind a colon starts another one. -/
theorem eq_nil_of_colonWord {kind : TokenKind} {words : List String} {word : String}
    (isRule : rule ∈ selectorRules) (areWords : (kind, words) ∈ colonWords) (isWord : word ∈ words)
    (found : rule.pattern.Matches (':' :: (word.toList ++ behind))) : behind = [] := by
  have starts := starts_of_matches found rfl
  cases isSelectorRule isRule with
  | @colonWord otherKind others areOthers =>
      obtain ⟨other, isOther, spelled⟩ := exists_of_matches_colonWord found
      have apart : ∀ first ∈ colonWords.flatMap Prod.snd, ∀ second ∈ colonWords.flatMap Prod.snd,
          first.toList <+: second.toList → second = first := by decide +kernel
      have same := apart word (List.mem_flatMap.mpr ⟨_, areWords, isWord⟩) other
        (List.mem_flatMap.mpr ⟨_, areOthers, isOther⟩) ⟨behind, (List.cons.inj spelled).2⟩
      rw [same] at spelled
      exact List.append_right_eq_self.mp (List.cons.inj spelled).2
  | sign isSign => exact absurd (blank_or_sign_of_starts isSign starts) (by decide)
  | _ => exact absurd starts (by decide)

/-- The letters with which the words of kinds start. -/
def kindLetters : List Char := ['s', 'n', 'b', 'a', 'm', 'o']

theorem exists_letter_of_kindWord {word : String} (isWord : word ∈ kindWords) :
    ∃ first ∈ kindLetters, ∃ rest, word.toList = first :: rest := by
  have letters : ∀ word ∈ kindWords,
      word.toList.head?.any (fun first => kindLetters.contains first) = true := by decide +kernel
  obtain ⟨first, isHead, isLetter⟩ := (Option.any_eq_true _ _).mp (letters word isWord)
  obtain ⟨rest, spelled⟩ := List.head?_eq_some_iff.mp isHead
  exact ⟨first, List.contains_iff_mem.mp isLetter, rest, spelled⟩

/-- Only a character of a name goes on behind the word of a kind. -/
theorem continuesName_of_kindWord {word : String} (isRule : rule ∈ selectorRules)
    (isWord : word ∈ kindWords) (found : rule.pattern.Matches (word.toList ++ c :: behind)) :
    continuesName c = true := by
  obtain ⟨first, isLetter, rest, spelled⟩ := exists_letter_of_kindWord isWord
  rw [spelled] at found
  have starts := starts_of_matches found rfl
  have isMember : c ∈ (first :: rest ++ c :: behind).tail := by simp
  cases isSelectorRule isRule with
  | kindWord =>
      obtain ⟨other, isOther, same⟩ := exists_of_matches_oneWord found
      obtain ⟨head, tail, otherSpelled, _, inName⟩ := startsName_of_kindWord isOther
      rw [same, otherSpelled] at isMember
      exact inName c isMember
  | bareName => exact continuesName_of_bareName found c isMember
  | sign isSign =>
      exact absurd (blank_or_sign_of_starts isSign starts) (not_blank_or_sign isLetter (by decide))
  | colonWord =>
      rw [eq_colon_of_starts starts] at isLetter
      exact absurd isLetter (by decide)
  | _ => cases starts.symm.trans (not_starts_of_all isLetter (by decide))

/-! ## Numbers -/

/-- What may stand next to each other in a number: a digit behind a point, and no sign behind a
digit. -/
def NumberStep (first second : Char) : Prop :=
  (first = '.' → second.isDigit = true) ∧ (first.isDigit = true → second ≠ '+' ∧ second ≠ '-')

structure IsNumberText (text : List Char) : Prop where
  characters : ∀ c ∈ text, c.isDigit = true ∨ c ∈ ['-', '+', '.', 'e', 'E']
  endsWithDigit : ∃ front last, text = front ++ [last] ∧ last.isDigit = true
  steps : text.IsChain NumberStep

namespace IsNumberText

theorem step_of_digits {d : Char} (second : d.isDigit = true) :
    NumberStep c d := by
  refine ⟨fun _ => second, fun _ => ⟨?_, ?_⟩⟩ <;> intro same <;> rw [same] at second <;>
    exact absurd second (by decide)

theorem of_digits (nonempty : text ≠ []) (areDigits : ∀ c ∈ text, c.isDigit = true) :
    IsNumberText text where
  characters := fun c isMember => .inl (areDigits c isMember)
  endsWithDigit := by
    obtain ⟨front, last, rfl⟩ := exists_last nonempty
    exact ⟨front, last, rfl, areDigits last (by simp)⟩
  steps := by
    clear nonempty
    induction text with
    | nil => exact .nil
    | cons c text induction =>
        have others := (List.forall_mem_cons.mp areDigits).2
        refine (induction others).cons fun d isHead => ?_
        exact step_of_digits (others d (List.mem_of_head? isHead))

theorem cons (rest : IsNumberText text) (isSign : c ∈ ['-', '+', '.', 'e', 'E'])
    (point : c = '.' → ∀ d ∈ text.head?, d.isDigit = true) : IsNumberText (c :: text) where
  characters := List.forall_mem_cons.mpr ⟨.inr isSign, rest.characters⟩
  endsWithDigit := by
    obtain ⟨front, last, spelled, isDigit⟩ := rest.endsWithDigit
    exact ⟨c :: front, last, by rw [spelled]; rfl, isDigit⟩
  steps := by
    refine rest.steps.cons fun d isHead => ⟨fun isPoint => point isPoint d isHead, ?_⟩
    intro isDigit
    simp only [List.mem_cons, List.not_mem_nil, or_false] at isSign
    rcases isSign with rfl | rfl | rfl | rfl | rfl <;> exact absurd isDigit (by decide)

theorem append (first : IsNumberText front) (second : IsNumberText back)
    (noSign : ∀ c ∈ back.head?, c ≠ '+' ∧ c ≠ '-') : IsNumberText (front ++ back) where
  characters := List.forall_mem_append.mpr ⟨first.characters, second.characters⟩
  endsWithDigit := by
    obtain ⟨init, last, spelled, isDigit⟩ := second.endsWithDigit
    exact ⟨front ++ init, last, by rw [spelled, List.append_assoc], isDigit⟩
  steps := by
    obtain ⟨init, last, rfl, isDigit⟩ := first.endsWithDigit
    refine first.steps.append second.steps fun c isLast d isHead => ?_
    rw [List.getLast?_concat] at isLast
    cases isLast
    refine ⟨?_, fun _ => noSign d isHead⟩
    rintro rfl
    exact absurd isDigit (by decide)

theorem goes_on (first : IsNumberText text) (whole : IsNumberText (text ++ c :: behind)) :
    c.isDigit = true ∨ c = 'e' ∨ c = 'E' ∨
      c = '.' ∧ ∃ d rest, behind = d :: rest ∧ d.isDigit = true := by
  obtain ⟨init, last, rfl, lastDigit⟩ := first.endsWithDigit
  rw [List.append_assoc, List.singleton_append] at whole
  have steps := List.isChain_append.mp whole.steps
  obtain ⟨⟨_, noSign⟩, stepsBehind⟩ := List.isChain_cons_cons.mp steps.2.1
  have isCharacter := whole.characters c (by simp)
  simp only [List.mem_cons, List.not_mem_nil, or_false] at isCharacter
  rcases isCharacter with isDigit | rfl | rfl | rfl | rfl | rfl
  · exact .inl isDigit
  · exact absurd rfl (noSign lastDigit).2
  · exact absurd rfl (noSign lastDigit).1
  · refine .inr (.inr (.inr ⟨rfl, ?_⟩))
    cases behind with
    | nil =>
        obtain ⟨front, digit, spelled, isDigit⟩ := whole.endsWithDigit
        have same : '.' = digit := by
          have lasts := congrArg List.getLast? spelled
          simpa using lasts
        rw [← same] at isDigit
        exact absurd isDigit (by decide)
    | cons d rest => exact ⟨d, rest, rfl, (List.isChain_cons_cons.mp stepsBehind).1.1 rfl⟩
  · exact .inr (.inl rfl)
  · exact .inr (.inr (.inl rfl))

end IsNumberText

theorem isNumberText_of_digits (found : digits.Matches text) : IsNumberText text := by
  obtain ⟨nonempty, areDigits⟩ := matches_atLeastOnce_one_iff.mp found
  exact .of_digits nonempty areDigits

theorem matches_optional_iff {pattern : Pattern} :
    (Pattern.optional pattern).Matches word ↔ pattern.Matches word ∨ word = [] := by
  rw [Pattern.optional, matches_either_iff, matches_done_iff]

theorem head?_of_digits (found : digits.Matches text) : ∀ c ∈ text.head?, c.isDigit = true :=
  fun c isHead => (matches_atLeastOnce_one_iff.mp found).2 c (List.mem_of_head? isHead)

theorem isNumberText_of_exponent
    (found : (Pattern.all [.one fun c => c == 'e' || c == 'E',
      .optional (.one fun c => c == '+' || c == '-'), digits]).Matches text) :
    IsNumberText text ∧ ∀ c ∈ text.head?, c ≠ '+' ∧ c ≠ '-' := by
  obtain ⟨front, others, rfl, isFront, othersMatch⟩ := matches_seq_iff.mp found
  obtain ⟨sign, back, rfl, isSign, backMatches⟩ := matches_seq_iff.mp othersMatch
  obtain ⟨exponent, ended, rfl, areDigits, isEnd⟩ := matches_seq_iff.mp backMatches
  obtain ⟨letter, rfl, isLetter⟩ := matches_one_iff.mp isFront
  rw [matches_done_iff.mp isEnd, List.append_nil]
  have signed : IsNumberText (sign ++ exponent) := by
    rcases matches_optional_iff.mp isSign with signMatches | rfl
    · obtain ⟨c, rfl, accepted⟩ := matches_one_iff.mp signMatches
      rw [Bool.or_eq_true, beq_iff_eq, beq_iff_eq] at accepted
      rcases accepted with rfl | rfl <;>
        exact (isNumberText_of_digits areDigits).cons (by simp) (by simp)
    · exact isNumberText_of_digits areDigits
  rw [Bool.or_eq_true, beq_iff_eq, beq_iff_eq] at isLetter
  rcases isLetter with rfl | rfl <;> exact ⟨signed.cons (by simp) (by simp), by simp⟩

theorem isNumberText_of_matches (found : number.Matches text) : IsNumberText text := by
  obtain ⟨minus, unsigned, rfl, isMinus, unsignedMatches⟩ := matches_seq_iff.mp found
  obtain ⟨whole, others, rfl, areDigits, othersMatch⟩ := matches_seq_iff.mp unsignedMatches
  obtain ⟨fraction, back, rfl, isFraction, backMatches⟩ := matches_seq_iff.mp othersMatch
  obtain ⟨exponent, ended, rfl, isExponent, isEnd⟩ := matches_seq_iff.mp backMatches
  rw [matches_done_iff.mp isEnd, List.append_nil, ← List.append_assoc whole]
  have withFraction : IsNumberText (whole ++ fraction) := by
    rcases matches_optional_iff.mp isFraction with fractionMatches | rfl
    · obtain ⟨point, places, rfl, isPoint, arePlaces⟩ := matches_seq_iff.mp fractionMatches
      obtain ⟨c, rfl, accepted⟩ := matches_one_iff.mp isPoint
      rw [beq_iff_eq.mp accepted]
      have fromPoint : IsNumberText ('.' :: places) :=
        (isNumberText_of_digits arePlaces).cons (by simp) fun _ => head?_of_digits arePlaces
      exact (isNumberText_of_digits areDigits).append fromPoint (by simp)
    · rw [List.append_nil]
      exact isNumberText_of_digits areDigits
  have unsignedText : IsNumberText (whole ++ fraction ++ exponent) := by
    rcases matches_optional_iff.mp isExponent with exponentMatches | rfl
    · obtain ⟨exponentText, noSign⟩ := isNumberText_of_exponent exponentMatches
      exact withFraction.append exponentText noSign
    · rw [List.append_nil]
      exact withFraction
  rcases matches_optional_iff.mp isMinus with minusMatches | rfl
  · obtain ⟨c, rfl, accepted⟩ := matches_one_iff.mp minusMatches
    rw [beq_iff_eq.mp accepted]
    exact unsignedText.cons (by simp) (by simp)
  · exact unsignedText

/-- The characters with which numbers start. -/
def numberHeads : List Char := ['-', '0', '1', '2', '3', '4', '5', '6', '7', '8', '9']

theorem mem_numberHeads_of_isDigit (isDigit : c.isDigit = true) : c ∈ numberHeads := by
  have isCode : c.toNat ∈ [48, 49, 50, 51, 52, 53, 54, 55, 56, 57] := by
    have bounds : 48 ≤ c.toNat ∧ c.toNat ≤ 57 := by
      simpa [Char.isDigit, Char.le_def, UInt32.le_iff_toNat_le] using isDigit
    simp only [List.mem_cons, List.not_mem_nil, or_false]
    omega
  have areHeads : ∀ code ∈ [48, 49, 50, 51, 52, 53, 54, 55, 56, 57],
      Char.ofNat code ∈ numberHeads := by decide
  have found := areHeads c.toNat isCode
  rw [Char.ofNat_toNat] at found
  exact found

theorem mem_numberHeads_of_starts (starts : number.starts c = true) : c ∈ numberHeads := by
  have isHead : c = '-' ∨ c.isDigit = true := by
    simpa [number, unsignedNumber, digits, Pattern.all, Pattern.optional, Pattern.atLeastOnce,
      Pattern.char, Pattern.starts, nullable] using starts
  rcases isHead with rfl | isDigit
  · decide
  · exact mem_numberHeads_of_isDigit isDigit

theorem ne_nil_of_number (isNumber : number.Matches text) : text ≠ [] := by
  obtain ⟨front, last, rfl, _⟩ := (isNumberText_of_matches isNumber).endsWithDigit
  simp

/-- Only the rule of numbers takes a text that starts with a number. -/
theorem rule_of_number (isRule : rule ∈ selectorRules) (isNumber : number.Matches text)
    (found : rule.pattern.Matches (text ++ behind)) : rule = ⟨number, some .literal⟩ := by
  obtain ⟨first, rest, rfl⟩ := List.exists_cons_of_ne_nil (ne_nil_of_number isNumber)
  have isHead := mem_numberHeads_of_starts (starts_of_matches isNumber rfl)
  have starts := starts_of_matches found rfl
  cases isSelectorRule isRule with
  | number => rfl
  | sign isSign =>
      exact absurd (blank_or_sign_of_starts isSign starts) (not_blank_or_sign isHead (by decide))
  | colonWord =>
      rw [eq_colon_of_starts starts] at isHead
      exact absurd isHead (by decide)
  | _ => cases starts.symm.trans (not_starts_of_all isHead (by decide))

/-- Behind a number goes on a digit, an exponent, or a point with a digit. -/
theorem goes_on_of_number (isRule : rule ∈ selectorRules) (isNumber : number.Matches text)
    (found : rule.pattern.Matches (text ++ c :: behind)) :
    c.isDigit = true ∨ c = 'e' ∨ c = 'E' ∨
      c = '.' ∧ ∃ d rest, behind = d :: rest ∧ d.isDigit = true := by
  rw [rule_of_number isRule isNumber found] at found
  exact (isNumberText_of_matches isNumber).goes_on (isNumberText_of_matches found)

theorem matches_digits_append (found : digits.Matches text) (isDigit : c.isDigit = true) :
    digits.Matches (text ++ [c]) := by
  obtain ⟨nonempty, areDigits⟩ := matches_atLeastOnce_one_iff.mp found
  refine matches_atLeastOnce_one_iff.mpr ⟨by simp, List.forall_mem_append.mpr ⟨areDigits, ?_⟩⟩
  simpa using isDigit

theorem matches_number_append (found : number.Matches text) (isDigit : c.isDigit = true) :
    number.Matches (text ++ [c]) := by
  obtain ⟨minus, unsigned, rfl, isMinus, unsignedMatches⟩ := matches_seq_iff.mp found
  obtain ⟨whole, others, rfl, areDigits, othersMatch⟩ := matches_seq_iff.mp unsignedMatches
  obtain ⟨fraction, back, rfl, isFraction, backMatches⟩ := matches_seq_iff.mp othersMatch
  obtain ⟨exponent, ended, rfl, isExponent, isEnd⟩ := matches_seq_iff.mp backMatches
  have ofParts : ∀ {whole fraction exponent : List Char}, digits.Matches whole →
      (Pattern.optional (.seq (.char '.') digits)).Matches fraction →
        (Pattern.optional (.all [.one fun c => c == 'e' || c == 'E',
          .optional (.one fun c => c == '+' || c == '-'), digits])).Matches exponent →
          number.Matches (minus ++ (whole ++ (fraction ++ (exponent ++ [])))) :=
    fun isWhole isFraction isExponent =>
      .seq isMinus (.seq isWhole (.seq isFraction (.seq isExponent .done)))
  rw [matches_done_iff.mp isEnd]
  rcases matches_optional_iff.mp isExponent with exponentMatches | rfl
  · obtain ⟨letter, signed, rfl, isLetter, signedMatches⟩ := matches_seq_iff.mp exponentMatches
    obtain ⟨sign, places, rfl, isSign, placesMatch⟩ := matches_seq_iff.mp signedMatches
    obtain ⟨power, stop, rfl, arePlaces, isStop⟩ := matches_seq_iff.mp placesMatch
    have longer := ofParts areDigits isFraction (.left (.seq isLetter (.seq isSign
      (.seq (matches_digits_append arePlaces isDigit) isStop))))
    simpa [matches_done_iff.mp isStop] using longer
  · rcases matches_optional_iff.mp isFraction with fractionMatches | rfl
    · obtain ⟨point, places, rfl, isPoint, arePlaces⟩ := matches_seq_iff.mp fractionMatches
      have longer := ofParts areDigits
        (.left (.seq isPoint (matches_digits_append arePlaces isDigit))) isExponent
      simpa using longer
    · have longer := ofParts (matches_digits_append areDigits isDigit) isFraction isExponent
      simpa using longer

/-! ## White space and signs -/

/-- A character that separates simple selectors: white space or a sign. -/
def IsGap (c : Char) : Prop :=
  isBlank c = true ∨ c ∈ signs

/-- A sign with the white space around it is a gap. -/
theorem isGap_of_spaced (isSign : sign ∈ signs) (found : (spaced sign).Matches word) :
    ∀ c ∈ word, IsGap c := by
  obtain ⟨before, behind, rfl, beforeBlank, behindBlank⟩ := matches_spaced_iff.mp found
  intro c isMember
  rw [List.mem_append, List.mem_cons] at isMember
  rcases isMember with isBefore | rfl | isBehind
  · exact .inl (beforeBlank c isBefore)
  · exact .inr isSign
  · exact .inl (behindBlank c isBehind)

def gapChars : List Char :=
  signs ++ blankCodes.map Char.ofNat

theorem mem_gapChars (isGap : IsGap c) : c ∈ gapChars := by
  rcases isGap with blank | isSign
  · refine List.mem_append_right _ (List.mem_map.mpr ⟨c.toNat, toNat_mem_blankCodes blank, ?_⟩)
    exact Char.ofNat_toNat c
  · exact List.mem_append_left _ isSign

theorem not_mem_of_gap {pattern : Pattern} (isGap : IsGap c)
    (none : gapChars.all (fun c => pattern.avoids c) = true) (found : pattern.Matches word) :
    c ∉ word :=
  not_mem_of_avoids (List.all_eq_true.mp none c (mem_gapChars isGap)) found

/-- Only operators and names have gaps in their texts. -/
theorem rule_of_gap (isRule : rule ∈ selectorRules) (found : rule.pattern.Matches word)
    (isMember : c ∈ word) (isGap : IsGap c) :
    (∃ sign ∈ signs, rule = ⟨spaced sign, some .operator⟩) ∨
      rule = ⟨.atLeastOnce (.one isBlank), some .operator⟩ ∨
        rule = ⟨bareName, some .identifier⟩ ∨ rule = ⟨dotted quoted, some .identifier⟩ := by
  cases isSelectorRule isRule with
  | sign isSign => exact .inl ⟨_, isSign, rfl⟩
  | blanks => exact .inr (.inl rfl)
  | bareName => exact .inr (.inr (.inl rfl))
  | quotedName => exact .inr (.inr (.inr rfl))
  | colonWord areWords =>
      simp only [colonWords, List.mem_cons, List.not_mem_nil, or_false, Prod.mk.injEq] at areWords
      rcases areWords with ⟨rfl, rfl⟩ | ⟨rfl, rfl⟩ | ⟨rfl, rfl⟩ <;>
        exact absurd isMember (not_mem_of_gap isGap (by decide) found)
  | _ => exact absurd isMember (not_mem_of_gap isGap (by decide) found)

end TokenRule

end TreeQuery
